import LockDiscipline.Yaml.Scalar

/-! Cutting a YAML text into tokens; keys are recognised when their colon is found. -/

namespace LockDiscipline.Yaml

open LockDiscipline.Yaml.Scan

/-- Skips blanks, comments and line breaks; tabs cannot indent where a key may start. -/
def skipTrivia : (fuel : Nat) → Scan Unit
  | 0 => pure ()
  | fuel + 1 => do
    let s ← get
    if s.column == 0 && s.rest.head? == some '\uFEFF' then skip 1
    let tabs := 0 < s.flowLevel || !s.keyAllowed
    let _ ← takeWhile fun c => c == ' ' || (tabs && c == '\t')
    if (← peek) == some '#' then let _ ← takeWhile fun c => !isBreak c
    if (← peek).any isBreak then
      skip 1
      unless ← inFlow do allowKey true
      skipTrivia fuel

/-- Characters of anchors, handles and directive names. -/
def isNameChar (c : Char) : Bool :=
  c.isAlphanum || c == '-' || c == '_'

/-- Characters of a tag. -/
def isTagChar (c : Char) : Bool :=
  isNameChar c || ";/?:@&=+$.!~*'()%".toList.contains c

/-- The name of an anchor or alias, after its sign. -/
def anchorName : Scan String := do
  skip 1
  let name ← takeWhile isNameChar
  let rest ← ahead
  let mayFollow (c : Char) := "?:,]\x7d%@`".toList.contains c
  require (!name.isEmpty && (endsWord rest || rest.head?.any mayFollow))
  return String.ofList name

/-- A tag, which must be followed by white space or, in a flow collection, a comma. -/
def tagToken : Scan Token := do
  let text ← match ← ahead with
    | '!' :: '<' :: _ => do
      skip 2
      let uri ← takeWhile fun c => isTagChar c || c == ',' || c == '[' || c == ']'
      require ((← peek) == some '>' && !uri.isEmpty)
      skip 1
      pure uri
    | _ => do
      skip 1
      let text ← takeWhile isTagChar
      pure ('!' :: text)
  let rest ← ahead
  require (endsWord rest || ((← inFlow) && rest.head? == some ','))
  return .tag (String.ofList text)

/-- The end of a directive's line. -/
def endDirective : Scan Unit := do
  let _ ← takeWhile isBlank
  if (← peek) == some '#' then let _ ← takeWhile fun c => !isBreak c
  match ← peek with
  | none => pure ()
  | some c =>
    require (isBreak c)
    skip 1

/-- A directive: the version or a tag handle. -/
def directiveToken : Scan Token := do
  skip 1
  let name ← takeWhile isNameChar
  require (!name.isEmpty && endsWord (← ahead))
  let _ ← takeWhile isBlank
  if name == "YAML".toList then
    let major ← takeWhile Char.isDigit
    require ((← peek) == some '.')
    skip 1
    let minor ← takeWhile Char.isDigit
    require (major == ['1'] && (minor == ['1'] || minor == ['2']))
    endDirective
    return .versionDirective
  else if name == "TAG".toList then
    let handle ← takeWhile fun c => isNameChar c || c == '!'
    require (handle.head? == some '!' && handle.getLast? == some '!' && (← peek).any isBlank)
    let _ ← takeWhile isBlank
    let uri ← takeWhile isTagChar
    require (!uri.isEmpty && endsWord (← ahead))
    endDirective
    return .tagDirective (String.ofList handle)
  else fail

/-- A document mark or directive closes everything that is open. -/
def fetchAtTop (token : Scan Token) : Scan Unit := do
  unrollIndent (-1)
  dropKey
  allowKey false
  emit (← token)

/-- An opening bracket or brace. -/
def fetchFlowStart (token : Token) : Scan Unit := do
  saveKey
  modify fun s => { s with flowLevel := s.flowLevel + 1, keys := none :: s.keys }
  allowKey true
  skip 1
  emit token

/-- A closing bracket or brace. -/
def fetchFlowEnd (token : Token) : Scan Unit := do
  dropKey
  modify fun s =>
    if 0 < s.flowLevel then { s with flowLevel := s.flowLevel - 1, keys := s.keys.drop 1 } else s
  allowKey false
  skip 1
  emit token

/-- A comma. -/
def fetchFlowEntry : Scan Unit := do
  dropKey
  allowKey true
  skip 1
  emit .flowEntry

/-- Opens a block collection at the next token, which must be at a place for keys. -/
def openBlock (token : Token) : Scan Unit := do
  let s ← get
  if s.flowLevel == 0 then
    require s.keyAllowed
    rollIndent s.column s.tokens.size token

/-- The dash of a sequence entry. -/
def fetchBlockEntry : Scan Unit := do
  openBlock .blockSequenceStart
  dropKey
  allowKey true
  skip 1
  emit .blockEntry

/-- The question mark of a key. -/
def fetchKey : Scan Unit := do
  openBlock .blockMappingStart
  dropKey
  allowKey (!(← inFlow))
  skip 1
  emit .key

/-- The colon of a value; it turns what stands before it into a key. -/
def fetchValue : Scan Unit := do
  let s ← get
  match s.keys with
  | some key :: others =>
    emitAt key.tokens .key
    rollIndent key.column key.tokens .blockMappingStart
    modify fun s => { s with keys := none :: others }
    allowKey false
  | _ =>
    openBlock .blockMappingStart
    allowKey (!(← inFlow))
  skip 1
  emit .value

/-- A token that can be a key. -/
def fetchContent (token : Scan Token) : Scan Unit := do
  saveKey
  allowKey false
  emit (← token)

/-- A block scalar, which cannot be a key. -/
def fetchBlockScalar (folded : Bool) : Scan Unit := do
  dropKey
  allowKey true
  emit (← blockScalar folded)

/-- Characters that cannot start a plain scalar. -/
def isIndicator (c : Char) : Bool :=
  "-?:,[]\x7b\x7d#&*!|>'\"%@`".toList.contains c

/-- Whether a plain scalar starts here. -/
def startsPlain (flow : Bool) (c : Char) (rest : List Char) : Bool :=
  !(isIndicator c || isBlank c || isBreak c) ||
    (c == '-' && !rest.head?.any isBlank) ||
    (!flow && (c == '?' || c == ':') && !endsWord rest)

/-- The next token, which starts with a given character. -/
def fetchToken (c : Char) (rest : List Char) : Scan Unit := do
  let s ← get
  let flow := 0 < s.flowLevel
  if s.column == 0 && c == '%' then fetchAtTop directiveToken
  else if s.column == 0 && startsWithMark s.rest then
    fetchAtTop do
      skip 3
      return if c == '-' then .documentStart else .documentEnd
  else if c == '[' then fetchFlowStart .flowSequenceStart
  else if c == '\x7b' then fetchFlowStart .flowMappingStart
  else if c == ']' then fetchFlowEnd .flowSequenceEnd
  else if c == '\x7d' then fetchFlowEnd .flowMappingEnd
  else if c == ',' then fetchFlowEntry
  else if c == '-' && endsWord rest then fetchBlockEntry
  else if c == '?' && (flow || endsWord rest) then fetchKey
  else if c == ':' && (flow || endsWord rest) then fetchValue
  else if c == '*' then fetchContent do return .alias (← anchorName)
  else if c == '&' then fetchContent do return .anchor (← anchorName)
  else if c == '!' then fetchContent tagToken
  else if c == '|' && !flow then fetchBlockScalar false
  else if c == '>' && !flow then fetchBlockScalar true
  else if c == '\'' || c == '"' then fetchContent (quotedScalar c)
  else if startsPlain flow c rest then fetchContent plainScalar
  else fail

/-- All tokens; each but the last step takes at least one character. -/
def fetchAll : (fuel : Nat) → Scan Unit
  | 0 => fail
  | fuel + 1 => do
    skipTrivia ((← ahead).length + 1)
    dropStaleKeys
    unrollIndent (← get).column
    match ← ahead with
    | [] =>
      unrollIndent (-1)
      dropKey
    | c :: rest =>
      fetchToken c rest
      fetchAll fuel

/-- The tokens of a YAML text, unless it is malformed. -/
def tokens? (text : List Char) : Option (List Token) :=
  if text.all isAllowed then
    let rest := normalizeBreaks text
    ((fetchAll (rest.length + 1)).run { rest }).map (·.2.tokens.toList)
  else none

end LockDiscipline.Yaml
