import LockDiscipline.Rule.Settings
import LockDiscipline.Toml.Document
import LockDiscipline.Yaml.Node

/-! The contents of a configuration file, read alike from TOML and from YAML. -/

namespace LockDiscipline

/-- What a configuration file says; what it leaves out is `none`. -/
structure Configuration where
  dirs : Option (List String) := none
  extensions : Option (List String) := none
  strict : Option Bool := none
  fixSuggestions : Option Bool := none
  format : Option String := none
  stripComments : Option Bool := none
  methodWindow : Option UInt64 := none
  /-- The rule section, without repeated keys. -/
  rules : List (String × RuleEntry) := []
deriving DecidableEq, Repr

/-- How the values of a format are read as what a configuration needs. -/
structure Dialect (Value : Type) where
  /-- Whether a value counts as left out. -/
  isAbsent : Value → Bool
  text? : Value → Option String
  flag? : Value → Option Bool
  count? : Value → Option UInt64
  items? : Value → Option (List Value)
  entries? : Value → Option (List (String × Value))
  /-- Whether a list that stands for a section may have no more items than the section has. -/
  exactLists : Bool

namespace Dialect

variable {Value : Type}

/-- The fields of a section, by name or, if it is written as a list, by position. -/
def fields? (d : Dialect Value) (names : List String) (leastItems : Nat) (section_ : Value) :
    Option (List (Option Value)) :=
  match d.entries? section_ with
  | some entries =>
    names.mapM fun name =>
      match entries.filter (·.1 == name) with
      | [] => some none
      | [(_, value)] => some (some value)
      -- A field cannot be given twice.
      | _ => none
  | none => do
    let items ← d.items? section_
    if items.length < leastItems || (d.exactLists && names.length < items.length) then none
    else return (List.range names.length).map (items[·]?)

/-- A field that may be left out. -/
def optional? {α : Type} (d : Dialect Value) (read : Value → Option α) :
    Option Value → Option (Option α)
  | none => some none
  | some value => if d.isAbsent value then some none else (read value).map some

/-- A list of texts. -/
def texts? (d : Dialect Value) (value : Value) : Option (List String) := do
  (← d.items? value).mapM d.text?

/-- One entry of the rule section. -/
def ruleEntry? (d : Dialect Value) (value : Value) : Option RuleEntry := do
  match ← d.fields? ["enabled", "level"] 2 value with
  | [enabled, level] =>
    return ⟨← d.optional? d.flag? enabled, ← d.optional? d.text? level⟩
  | _ => none

/-- The rule section; of several entries for one key the last counts. -/
def rules? (d : Dialect Value) (value : Value) : Option (List (String × RuleEntry)) := do
  let entries ← (← d.entries? value).mapM fun (key, entry) => do return (key, ← d.ruleEntry? entry)
  return (entries.reverse.eraseDupsBy fun x y => x.1 == y.1).reverse

/-- The scan section: whether comments are blanked, and the size of the method window. -/
def scan? (d : Dialect Value) (value : Value) : Option (Option Bool × Option UInt64) := do
  match ← d.fields? ["strip_comments", "method_window"] 2 value with
  | [stripComments, methodWindow] =>
    return (← d.optional? d.flag? stripComments, ← d.optional? d.count? methodWindow)
  | _ => none

/-- The names of the top-level fields, in the order in which a list gives them. -/
def topFields : List String :=
  ["dirs", "extensions", "strict", "fix_suggestions", "format", "scan", "rules"]

/-- A whole configuration; unknown fields are passed over. -/
def configuration? (d : Dialect Value) (top : Value) : Option Configuration := do
  match ← d.fields? topFields 6 top with
  | [dirs, extensions, strict, fixSuggestions, format, scan, rules] =>
    let scan := (← d.optional? d.scan? scan).getD (none, none)
    return {
      dirs := ← d.optional? d.texts? dirs
      extensions := ← d.optional? d.texts? extensions
      strict := ← d.optional? d.flag? strict
      fixSuggestions := ← d.optional? d.flag? fixSuggestions
      format := ← d.optional? d.text? format
      stripComments := scan.1
      methodWindow := scan.2
      rules := ← match rules with
        | none => some []
        | some value => d.rules? value }
  | _ => none

end Dialect

/-- A number as a 64-bit count, if it is one. -/
def count64? (value : Int) : Option UInt64 :=
  if 0 ≤ value ∧ value.toNat < UInt64.size then some (UInt64.ofNat value.toNat) else none

namespace Toml

/-- TOML values have the types they show; a date-time reads as a table with one unnamed field. -/
def dialect : Dialect Value where
  isAbsent _ := false
  text?
    | .string text => some text
    | _ => none
  flag?
    | .boolean value => some value
    | _ => none
  count?
    | .integer value => count64? value
    | _ => none
  items?
    | .array _ items => some items
    | _ => none
  entries?
    | .table _ entries => some entries
    | .dateTime => some [("", .string "")]
    | _ => none
  exactLists := false

/-- The configuration in a TOML text. -/
def configuration? (text : List Char) : Option Configuration := do
  dialect.configuration? (← parse? text).toValue

end Toml

namespace Yaml

/-- The spellings of no value. -/
def nullWords : List String := ["null", "Null", "NULL", "~"]

/-- Whether a node is an empty plain scalar. -/
def Node.isEmpty : Node → Bool
  | .scalar text plain _ => plain && text.isEmpty
  | _ => false

/-- Whether a node counts as left out. -/
def Node.isNull : Node → Bool
  | .scalar text plain tag =>
    plain && tag.all nullTags.contains && (text.isEmpty || nullWords.contains text)
  | _ => false

/-- Any scalar is a text, whatever it looks like. -/
def Node.text? : Node → Option String
  | .scalar text _ _ => some text
  | _ => none

/-- A plain scalar that spells a truth value. -/
def Node.flag? : Node → Option Bool
  | .scalar text true _ =>
    if ["true", "True", "TRUE"].contains text then some true
    else if ["false", "False", "FALSE"].contains text then some false
    else none
  | _ => none

/-- Digits in a base, at least one of them. -/
def digits? (base : Nat) (text : List Char) : Option Int :=
  if text.isEmpty then none else (Toml.digitsValue? base text).map Int.ofNat

/-- An unsigned number; with a needless zero in front it is a text instead. -/
def unsigned? (text : List Char) : Option Int :=
  let bare := if text.head? == some '+' then text.drop 1 else text
  match bare with
  | '0' :: 'x' :: rest => digits? 16 rest
  | '0' :: 'o' :: rest => digits? 8 rest
  | '0' :: 'b' :: rest => digits? 2 rest
  | '0' :: _ :: _ => none
  | _ => digits? 10 bare

/-- A plain scalar that spells a 64-bit count. -/
def Node.count? : Node → Option UInt64
  | .scalar text true _ => (unsigned? text.toList).bind count64?
  | _ => none

/-- A sequence; where nothing is written it is empty. -/
def Node.items? : Node → Option (List Node)
  | .sequence items => some items
  | node => if node.isEmpty then some [] else none

/-- A mapping with texts as keys; where nothing is written it is empty. -/
def Node.entries? : Node → Option (List (String × Node))
  | .mapping entries => entries.mapM fun (key, value) => do return (← key.text?, value)
  | node => if node.isEmpty then some [] else none

/-- YAML scalars take the type that is asked for, as far as their spelling allows. -/
def dialect : Dialect Node where
  isAbsent := Node.isNull
  text? := Node.text?
  flag? := Node.flag?
  count? := Node.count?
  items? := Node.items?
  entries? := Node.entries?
  exactLists := true

/-- The configuration in a YAML text; without content it is empty. -/
def configuration? (text : List Char) : Option Configuration := do
  match ← parse? text with
  | some root => dialect.configuration? root
  | none => return {}

end Yaml

end LockDiscipline
