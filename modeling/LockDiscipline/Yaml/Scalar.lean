import LockDiscipline.Toml.Scalar
import LockDiscipline.Yaml.Token

/-! The scalars of YAML: plain, quoted, and as blocks of lines. -/

namespace LockDiscipline.Yaml

open LockDiscipline.Yaml.Scan

/-- White space inside a scalar: blanks within a line, or line breaks to be folded. -/
structure Gap where
  /-- Blanks since the last other character of the line. -/
  blanks : List Char := []
  /-- The first line break. -/
  firstBreak : Option Char := none
  /-- The line breaks after it. -/
  moreBreaks : List Char := []
  /-- Whether a line break was seen, escaped ones included. -/
  broken : Bool := false
deriving Repr

/-- What white space comes to in the value: a single line break becomes a blank. -/
def Gap.fold (gap : Gap) : List Char :=
  if !gap.broken then gap.blanks
  else match gap.firstBreak with
    | some '\n' => if gap.moreBreaks.isEmpty then [' '] else gap.moreBreaks
    | some other => other :: gap.moreBreaks
    | none => gap.moreBreaks

/-- Takes blanks and line breaks; a tab cannot stand left of column `indent` on a new line. -/
def takeGap (indent : Int) : (fuel : Nat) → Gap → Scan Gap
  | 0, gap => return gap
  | fuel + 1, gap => do
    match ← peek with
    | none => return gap
    | some c =>
      if isBlank c then
        require (!(gap.broken && c == '\t' && (← get).column < indent))
        let _ ← next
        takeGap indent fuel (if gap.broken then gap else { gap with blanks := gap.blanks ++ [c] })
      else if isBreak c then
        let _ ← next
        takeGap indent fuel
          (if gap.broken then { gap with moreBreaks := gap.moreBreaks ++ [c] }
           else { gap with firstBreak := some c, broken := true })
      else return gap

/-- Takes blanks and line breaks, as many as there are. -/
def gapFrom (indent : Int) (gap : Gap) : Scan Gap := do
  takeGap indent ((← ahead).length + 1) gap

/-- Characters that end a plain scalar between brackets or braces. -/
def isFlowMark (c : Char) : Bool :=
  [',', '[', ']', '\x7b', '\x7d'].contains c

/-- The characters of a plain scalar up to the next white space or the end of the scalar. -/
def takePlainWord : (fuel : Nat) → Scan (List Char)
  | 0 => return []
  | fuel + 1 => do
    let flow ← inFlow
    match ← ahead with
    | [] => return []
    | c :: rest =>
      if isBlank c || isBreak c then return []
      require (!(flow && c == ':' && rest.head?.any fun d => isFlowMark d || d == '?'))
      if (c == ':' && endsWord rest) || (flow && isFlowMark c) then return []
      let _ ← next
      return c :: (← takePlainWord fuel)

/-- The words of a plain scalar after `text`; returns whether it went on over a line break. -/
def takePlain (indent : Int) : (fuel : Nat) → (text : List Char) → Scan (List Char × Bool)
  | 0, text => return (text, false)
  | fuel + 1, text => do
    let word ← takePlainWord ((← ahead).length + 1)
    let text := text ++ word
    if !(← peek).any fun c => isBlank c || isBreak c then return (text, false)
    let gap ← gapFrom indent {}
    let s ← get
    -- The scalar ends where the indentation, a document mark or a comment says so.
    if (s.flowLevel == 0 && s.column < indent) || (s.column == 0 && startsWithMark s.rest) ||
        s.rest.head? == some '#' then
      return (text, gap.broken)
    let before := s.rest.length
    let (more, broken) ← takePlain indent fuel []
    if more.isEmpty && before == (← ahead).length then return (text, gap.broken)
    return (text ++ gap.fold ++ more, broken)

/-- A plain scalar. -/
def plainScalar : Scan Token := do
  let indent := (← get).indent + 1
  let (text, broken) ← takePlain indent ((← ahead).length + 1) []
  if broken then allowKey true
  return .scalar .plain (String.ofList text)

/-- Escapes of one letter. -/
def letterEscape? : Char → Option Char
  | '0' => some '\x00'
  | 'a' => some '\x07'
  | 'b' => some '\x08'
  | 't' => some '\t'
  | '\t' => some '\t'
  | 'n' => some '\n'
  | 'v' => some '\x0b'
  | 'f' => some '\x0c'
  | 'r' => some '\r'
  | 'e' => some '\x1b'
  | ' ' => some ' '
  | '"' => some '"'
  | '/' => some '/'
  | '\\' => some '\\'
  | 'N' => some '\u0085'
  | '_' => some '\u00A0'
  | 'L' => some '\u2028'
  | 'P' => some '\u2029'
  | _ => none

/-- The character that an escape stands for. -/
def takeEscape : Scan Char := do
  let letter ← next
  match Toml.hexEscapeLength? letter with
  | some n =>
    let digits := (← ahead).take n
    require (digits.length == n)
    skip n
    match Toml.codePoint? digits with
    | some c => return c
    | none => fail
  | none =>
    match letterEscape? letter with
    | some c => return c
    | none => fail

/-- The characters of a quoted scalar up to white space, its end or an escaped line break. -/
def takeQuotedWord (quote : Char) : (fuel : Nat) → Scan (List Char × Bool)
  | 0 => fail
  | fuel + 1 => do
    match ← ahead with
    | [] => return ([], false)
    | c :: rest =>
      if isBlank c || isBreak c then return ([], false)
      if c == '\'' && quote == '\'' && rest.head? == some '\'' then
        skip 2
        let (word, broken) ← takeQuotedWord quote fuel
        return ('\'' :: word, broken)
      if c == quote then return ([], false)
      if c == '\\' && quote == '"' then
        let _ ← next
        if rest.head?.any isBreak then
          let _ ← next
          return ([], true)
        let escaped ← takeEscape
        let (word, broken) ← takeQuotedWord quote fuel
        return (escaped :: word, broken)
      let _ ← next
      let (word, broken) ← takeQuotedWord quote fuel
      return (c :: word, broken)

/-- The rest of a quoted scalar up to its closing quote. -/
def takeQuoted (quote : Char) : (fuel : Nat) → Scan (List Char)
  | 0 => fail
  | fuel + 1 => do
    let s ← get
    require (!(s.column == 0 && startsWithMark s.rest) && !s.rest.isEmpty)
    let (word, broken) ← takeQuotedWord quote (s.rest.length + 1)
    if (← peek) == some quote then
      let _ ← next
      return word
    let gap ← gapFrom (-1) { broken }
    return word ++ gap.fold ++ (← takeQuoted quote fuel)

/-- A quoted scalar. -/
def quotedScalar (quote : Char) : Scan Token := do
  let _ ← next
  return .scalar .quoted (String.ofList (← takeQuoted quote ((← ahead).length + 2)))

/-- What happens to the line breaks at the end of a block scalar. -/
inductive Chomping where
  | strip
  | clip
  | keep
deriving DecidableEq, Repr

/-- The marks after the sign of a block scalar, in either order. -/
def blockHeader : (fuel : Nat) → Option Chomping → Option Nat → Scan (Option Chomping × Option Nat)
  | 0, chomping, increment => return (chomping, increment)
  | fuel + 1, chomping, increment => do
    match ← peek with
    | some '+' =>
      if chomping.isSome then return (chomping, increment)
      let _ ← next
      blockHeader fuel (some .keep) increment
    | some '-' =>
      if chomping.isSome then return (chomping, increment)
      let _ ← next
      blockHeader fuel (some .strip) increment
    | some c =>
      if c.isDigit && increment.isNone then
        require (c != '0')
        let _ ← next
        blockHeader fuel chomping (some (c.toNat - 0x30))
      else return (chomping, increment)
    | none => return (chomping, increment)

/-- Takes the indentation of the next line of a block and the empty lines before it. -/
def takeBlockBreaks (indent : Option Int) : (fuel : Nat) → (breaks : List Char) → (widest : Nat) →
    Scan (List Char × Nat)
  | 0, breaks, widest => return (breaks, widest)
  | fuel + 1, breaks, widest => do
    let s ← get
    let spaces := (s.rest.takeWhile (· == ' ')).length
    let within := match indent with
      | some indent => min spaces (indent - s.column).toNat
      | none => spaces
    skip within
    let s ← get
    let widest := max widest s.column
    require (!(s.rest.head? == some '\t' && indent.all fun indent => (s.column : Int) < indent))
    match s.rest.head? with
    | some c =>
      if isBreak c then
        let _ ← next
        takeBlockBreaks indent fuel (breaks ++ [c]) widest
      else return (breaks, widest)
    | none => return (breaks, widest)

/-- The lines of a block scalar; `lead` is the line break before the next of them. -/
def takeBlockLines (folded : Bool) (indent : Int) : (fuel : Nat) → (text : List Char) →
    (lead : List Char) → (breaks : List Char) → (leadBlank : Bool) →
    Scan (List Char × List Char × List Char)
  | 0, text, lead, breaks, _ => return (text, lead, breaks)
  | fuel + 1, text, lead, breaks, leadBlank => do
    let s ← get
    if s.column != indent || s.rest.isEmpty then return (text, lead, breaks)
    let blank := s.rest.head?.any isBlank
    let joined :=
      if folded && lead == ['\n'] && !leadBlank && !blank then
        if breaks.isEmpty then [' '] else []
      else lead
    let line ← takeWhile fun c => !isBreak c
    let lead ← match ← peek with
      | some _ => pure [← next]
      | none => pure []
    let (more, _) ← takeBlockBreaks (some indent) ((← ahead).length + 1) [] 0
    takeBlockLines folded indent fuel (text ++ joined ++ breaks ++ line) lead more blank

/-- A block scalar, literal or folded. -/
def blockScalar (folded : Bool) : Scan Token := do
  let _ ← next
  let (chomping, increment) ← blockHeader 2 none none
  let _ ← takeWhile isBlank
  if (← peek) == some '#' then let _ ← takeWhile fun c => !isBreak c
  match ← peek with
  | some c =>
    require (isBreak c)
    let _ ← next
  | none => pure ()
  let outer := (← get).indent
  let fixed := increment.map fun n => if 0 ≤ outer then outer + n else (n : Int)
  let (breaks, widest) ← takeBlockBreaks fixed ((← ahead).length + 1) [] 0
  let indent := fixed.getD (max (max (widest : Int) (outer + 1)) 1)
  let (text, lead, more) ← takeBlockLines folded indent ((← ahead).length + 1) [] [] breaks false
  let tail := match chomping with
    | some .strip => []
    | some .keep => lead ++ more
    | _ => lead
  return .scalar .block (String.ofList (text ++ tail))

end LockDiscipline.Yaml
