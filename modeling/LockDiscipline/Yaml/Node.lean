import LockDiscipline.Yaml.Scanner

/-! YAML nodes, and reading the single document of a text into its node. -/

namespace LockDiscipline.Yaml

/-- A node of a document; a scalar remembers whether it was written plainly, and its tag. -/
inductive Node where
  | scalar (text : String) (plain : Bool) (tag : Option String)
  | sequence (items : List Node)
  | mapping (entries : List (Node × Node))
deriving Repr

/-- What stands where nothing is written. -/
def Node.nothing : Node := .scalar "" true none

/-- The tokens still to be read, and the nodes named so far, the latest first. -/
structure Reader where
  tokens : List Token
  anchors : List (String × Node) := []
  /-- The tag handles that directives have declared. -/
  handles : List String := []

/-- A step of reading nodes, which fails on a malformed document. -/
abbrev Read := StateT Reader Option

namespace Read

/-- A malformed document. -/
def fail {α : Type} : Read α :=
  fun _ => none

/-- The next token, if there is one. -/
def peek : Read (Option Token) := do
  return (← get).tokens.head?

/-- Skips one token. -/
def skip : Read Unit :=
  modify fun s => { s with tokens := s.tokens.drop 1 }

/-- Skips a token if it comes next, and says whether it did. -/
def accept (token : Token) : Read Bool := do
  if (← peek) == some token then
    skip
    return true
  else return false

/-- Whether one of some tokens, or the end, comes next. -/
def atOneOf (tokens : List Token) : Read Bool := do
  return (← peek).all tokens.contains

end Read

open Read

/-- Anchor and tag of a node, in either order. -/
def properties : (fuel : Nat) → Option String → Option String →
    Read (Option String × Option String)
  | 0, anchor, tag => return (anchor, tag)
  | fuel + 1, anchor, tag => do
    match ← peek with
    | some (.anchor name) =>
      if anchor.isSome then return (anchor, tag)
      skip
      properties fuel (some name) tag
    | some (.tag text) =>
      if tag.isSome then return (anchor, tag)
      skip
      properties fuel anchor (some text)
    | _ => return (anchor, tag)

/-- The handle of a tag, between its exclamation marks. -/
def tagHandle? (text : String) : Option String :=
  match text.toList with
  | '!' :: rest =>
    let name := rest.takeWhile isNameChar
    if (rest.drop name.length).head? == some '!' then some ("!" ++ String.ofList name ++ "!")
    else none
  | _ => none

/-- The tag of empty values. -/
def nullTags : List String := ["!!null", "tag:yaml.org,2002:null"]

/-- Whether the handle of a tag is known. -/
def knowsTag (handles : List String) (tag : Option String) : Bool :=
  match tag.bind tagHandle? with
  | some handle => handle == "!!" || handles.contains handle
  | none => true

mutual

/-- A node; `block` allows block collections, `bare` also a sequence that is not indented. -/
def node (block bare : Bool) : (fuel : Nat) → Read Node
  | 0 => fail
  | fuel + 1 => do
    match ← peek with
    | some (.alias name) =>
      skip
      match (← get).anchors.lookup name with
      | some node => return node
      | none => fail
    | _ =>
      let (anchor, tag) ← properties 2 none none
      if !knowsTag (← get).handles tag then fail
      let result ← content block bare fuel (anchor.isSome || tag.isSome) tag
      if let some name := anchor then
        modify fun s => { s with anchors := (name, result) :: s.anchors }
      return result

/-- The content of a node after its anchor and tag, which may stand for an empty one. -/
def content (block bare : Bool) (fuel : Nat) (named : Bool) (tag : Option String) : Read Node :=
  match fuel with
  | 0 => fail
  | fuel + 1 => do
    match ← peek with
    | some (.scalar style text) =>
      skip
      return .scalar text (style == .plain) tag
    | some .flowSequenceStart =>
      skip
      return .sequence (← flowItems fuel true)
    | some .flowMappingStart =>
      skip
      return .mapping (← flowFields fuel true)
    | some .blockEntry =>
      if bare then return .sequence (← bareItems fuel)
      else if named then return .scalar "" true tag
      else fail
    | some .blockSequenceStart =>
      if block then
        skip
        return .sequence (← blockItems fuel)
      else if named then return .scalar "" true tag
      else fail
    | some .blockMappingStart =>
      if block then
        skip
        return .mapping (← blockFields fuel)
      else if named then return .scalar "" true tag
      else fail
    | _ => if named then return .scalar "" true tag else fail

/-- The entries of an indented sequence. -/
def blockItems : (fuel : Nat) → Read (List Node)
  | 0 => fail
  | fuel + 1 => do
    if ← accept .blockEnd then return []
    if !(← accept .blockEntry) then fail
    let item ← if ← atOneOf [.blockEntry, .blockEnd] then pure Node.nothing
      else node true false fuel
    return item :: (← blockItems fuel)

/-- The entries of a sequence at the indentation of its key. -/
def bareItems : (fuel : Nat) → Read (List Node)
  | 0 => fail
  | fuel + 1 => do
    if !(← accept .blockEntry) then return []
    let item ← if ← atOneOf [.blockEntry, .key, .value, .blockEnd] then pure Node.nothing
      else node true false fuel
    return item :: (← bareItems fuel)

/-- The entries of an indented mapping. -/
def blockFields : (fuel : Nat) → Read (List (Node × Node))
  | 0 => fail
  | fuel + 1 => do
    if ← accept .blockEnd then return []
    if !(← accept .key) then fail
    let key ← blockField fuel
    let value ← if ← accept .value then blockField fuel else pure Node.nothing
    return (key, value) :: (← blockFields fuel)

/-- A key or a value of an indented mapping. -/
def blockField : (fuel : Nat) → Read Node
  | 0 => fail
  | fuel + 1 => do
    if ← atOneOf [.key, .value, .blockEnd] then return Node.nothing else node true true fuel

/-- The items between brackets; a key makes a mapping of one entry. -/
def flowItems : (fuel : Nat) → (first : Bool) → Read (List Node)
  | 0, _ => fail
  | fuel + 1, first => do
    if ← accept .flowSequenceEnd then return []
    if !first then
      if !(← accept .flowEntry) then fail
    if ← accept .flowSequenceEnd then return []
    let item ← if ← accept .key then do
        let key ← flowField fuel [.value, .flowEntry, .flowSequenceEnd]
        let value ← if ← accept .value then flowField fuel [.flowEntry, .flowSequenceEnd]
          else pure Node.nothing
        pure (Node.mapping [(key, value)])
      else node false false fuel
    return item :: (← flowItems fuel false)

/-- The entries between braces; a key without a colon has no value. -/
def flowFields : (fuel : Nat) → (first : Bool) → Read (List (Node × Node))
  | 0, _ => fail
  | fuel + 1, first => do
    if ← accept .flowMappingEnd then return []
    if !first then
      if !(← accept .flowEntry) then fail
    if ← accept .flowMappingEnd then return []
    let (key, value) ← if ← accept .key then do
        let key ← flowField fuel [.value, .flowEntry, .flowMappingEnd]
        let value ← if ← accept .value then flowField fuel [.flowEntry, .flowMappingEnd]
          else pure Node.nothing
        pure (key, value)
      else do
        let key ← node false false fuel
        pure (key, Node.nothing)
    return (key, value) :: (← flowFields fuel false)

/-- A key or a value in a flow collection, which is empty before certain tokens. -/
def flowField (fuel : Nat) (ending : List Token) : Read Node :=
  match fuel with
  | 0 => fail
  | fuel + 1 => do
    if ← atOneOf ending then return Node.nothing else node false false fuel

end

/-- The directives before a document; the version can be given once, and so can each handle. -/
def directives : (fuel : Nat) → (version : Bool) → Read Bool
  | 0, _ => fail
  | fuel + 1, version => do
    match ← peek with
    | some .versionDirective =>
      if version then fail
      skip
      let _ ← directives fuel true
      return true
    | some (.tagDirective handle) =>
      if (← get).handles.contains handle then fail
      skip
      modify fun s => { s with handles := handle :: s.handles }
      let _ ← directives fuel version
      return true
    | _ => return version

/-- Skips the marks that end a document. -/
def skipEnds : (fuel : Nat) → Read Unit
  | 0 => pure ()
  | fuel + 1 => do
    if ← accept .documentEnd then skipEnds fuel

/-- The node of the only document; a text without any content has none. -/
def document (fuel : Nat) : Read (Option Node) := do
  let announced ← directives fuel false
  let marked ← accept .documentStart
  if announced && !marked then fail
  let root ←
    if marked then
      if ← atOneOf [.versionDirective, .documentStart, .documentEnd] then pure (some Node.nothing)
      else some <$> node true false fuel
    else if (← peek).isNone then pure none
    else some <$> node true false fuel
  skipEnds fuel
  -- A second document is refused.
  if (← peek).isSome then fail
  return root

/-- The node of a YAML text with one document at most; without content it is `none`. -/
def parse? (text : List Char) : Option (Option Node) := do
  let tokens ← tokens? text
  let (root, _) ← (document (4 * tokens.length + 4)).run { tokens }
  return root

end LockDiscipline.Yaml
