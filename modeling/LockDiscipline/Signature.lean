import LockDiscipline.Pattern.Search
import LockDiscipline.Text.Lines

/-! Method signatures: a declared name, its parameters, qualifiers, and a terminator. -/

namespace LockDiscipline.Signature

open LockDiscipline.Text
open Pattern

/-- Words that may precede a parenthesis without making it a declaration. -/
def nonTypeWords : List String :=
  ["return", "operator", "new", "delete", "throw", "else", "case", "co_return", "co_await",
   "co_yield", "goto", "sizeof", "typeid"]

/-- Names followed by a parenthesis that are never methods. -/
def keywordCalls : List String :=
  ["if", "while", "for", "switch", "return", "sizeof", "decltype", "alignof", "alignas",
   "static_assert", "catch", "noexcept"]

/-- The qualifiers after a parameter list. -/
def qualifiers : List String :=
  ["const", "noexcept", "override", "final"]

/-- Characters of a trailing return type. -/
def isTypeChar (c : Char) : Bool :=
  isWordChar c || [':', '<', '>', '*', '&', ',', ' '].contains c

/-- The declared name, with the tilde of a destructor. -/
def declaredName : Pattern :=
  capture .name (inOrder [optional (one (· == '~')), wordEdge, identifier])

/-- A parameter list up to its first closing parenthesis. -/
def parameters : Pattern :=
  inOrder [one (· == '('), run (· != ')'), one (· == ')')]

/-- Any number of qualifiers. -/
def qualifierList : Pattern :=
  many (inOrder [anyWord qualifiers, wordEdge, blanks])

/-- A trailing return type. -/
def trailingReturn : Pattern :=
  inOrder [word "->", blanks, shortRun1 isTypeChar, blanks]

/-- A pure, defaulted or deleted definition. -/
def specialDefinition : Pattern :=
  inOrder [one (· == '='), blanks, anyWord ["0", "default", "delete"], blanks]

/-- The end of a signature: an opening brace, a semicolon or the end of the line. -/
def terminator : Pattern :=
  capture .finish (.or (one fun c => c == '\x7b' || c == ';') textEnd)

/-- A whole signature, from the declared name to the terminator. -/
def pattern : Pattern :=
  inOrder [declaredName, blanks, parameters, blanks, qualifierList, optional trailingReturn,
    optional specialDefinition, terminator]

/-- The last word of a text, which is empty if the text ends in anything else. -/
def lastWord (text : List Char) : List Char :=
  (text.reverse.takeWhile fun c => isAlphanumeric c || c == '_').reverse

/-- Whether the last character of a text can end a type. -/
def endsLikeType (text : List Char) : Bool :=
  text.getLast?.any fun c => isAlphanumeric c || ['_', '>', '*', '&'].contains c

/-- Whether the text before a name reads as a return type, which rules out calls. -/
def readsAsType (lead : List Char) : Bool :=
  let lead := trimEnd lead
  !"->".toList.isSuffixOf lead && !"::".toList.isSuffixOf lead && endsLikeType lead &&
    !(nonTypeWords.map String.toList).contains (lastWord lead)

/-- The method that a line declares or defines, given the next line that is not blank. -/
def name? (line : List Char) (next : Option (List Char)) : Option (List Char) := do
  let found ← pattern.find? line
  let name ← found.capture? .name
  let finish ← found.capture? .finish
  -- A signature that ends with its line counts only if the next line opens the body.
  guard (!finish.text.isEmpty || next.any fun n => n.head? == some '\x7b')
  if name.text.head? == some '~' then return name.text
  guard (!(keywordCalls.map String.toList).contains name.text)
  guard (readsAsType name.start.before.reverse)
  return name.text

end LockDiscipline.Signature
