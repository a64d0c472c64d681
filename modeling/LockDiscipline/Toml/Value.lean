/-! TOML values, and the rules by which tables are opened and filled. -/

namespace LockDiscipline.Toml

/-- How a table came about, which decides what may still be added to it. -/
inductive TableKind where
  /-- Named by a header, and the document itself. -/
  | header
  /-- On the way to a table named by a header. -/
  | implied
  /-- On the way to a dotted key. -/
  | dotted
  /-- Written between braces. -/
  | inline
deriving DecidableEq, Repr

/-- A value; of floats and date-times only the presence is kept. -/
inductive Value where
  | string (text : String)
  | integer (value : Int)
  | float
  | boolean (value : Bool)
  | dateTime
  /-- An array; one that is built by headers can be extended. -/
  | array (extensible : Bool) (items : List Value)
  | table (kind : TableKind) (entries : List (String × Value))
deriving Repr

/-- The entries of a table, in the order of their keys' first use. -/
abbrev Entries := List (String × Value)

/-- A table with its kind. -/
structure Table where
  kind : TableKind
  entries : Entries
deriving Repr

namespace Table

/-- A table as a value. -/
def toValue (t : Table) : Value :=
  .table t.kind t.entries

/-- The value of a key. -/
def get? (t : Table) (key : String) : Option Value :=
  t.entries.lookup key

/-- The table with the value of a key set, in the place of the old one if there is one. -/
def set (t : Table) (key : String) (value : Value) : Table :=
  if (t.get? key).isSome then
    { t with entries := t.entries.map fun e => if e.1 == key then (key, value) else e }
  else { t with entries := t.entries ++ [(key, value)] }

/-- Whether a table can be passed on the way to something else. -/
def passable (dotted : Bool) : TableKind → Bool
  | .inline => false
  -- Dotted keys add nothing to a table that a header has named.
  | .header => !dotted
  | _ => true

/-- Changes the table at the end of a path, making the missing tables on the way. -/
def updateAt (dotted : Bool) (change : Table → Option Table) :
    (path : List String) → Table → Option Table
  | [], t => change t
  | key :: rest, t =>
    match t.get? key with
    | none => do
      let inner ← updateAt dotted change rest ⟨if dotted then .dotted else .implied, []⟩
      return t.set key inner.toValue
    | some (.table kind entries) =>
      if passable dotted kind then do
        let inner ← updateAt dotted change rest ⟨kind, entries⟩
        return t.set key inner.toValue
      else none
    | some (.array true items) =>
      match items.getLast? with
      | some (.table kind entries) => do
        let inner ← updateAt dotted change rest ⟨kind, entries⟩
        return t.set key (.array true (items.dropLast ++ [inner.toValue]))
      | _ => none
    | some _ => none

/-- Adds a value under a dotted key; a key cannot be given twice. -/
def addKey (keys : List String) (value : Value) (t : Table) : Option Table :=
  match keys.getLast? with
  | none => none
  | some key =>
    t.updateAt true (fun owner =>
      -- A table is filled either by its own header or by dotted keys, not by both.
      if (owner.kind == .dotted) == keys.dropLast.isEmpty then none
      else if (owner.get? key).isSome then none
      else some (owner.set key value)) keys.dropLast

/-- Opens the table that a header names; a table cannot be opened twice. -/
def openTable (keys : List String) (root : Table) : Option Table :=
  match keys.getLast? with
  | none => none
  | some key =>
    root.updateAt false (fun owner =>
      match owner.get? key with
      | none => some (owner.set key (.table .header []))
      | some (.table .implied entries) => some (owner.set key (.table .header entries))
      | some _ => none) keys.dropLast

/-- Opens one more table of the array that a header names. -/
def openElement (keys : List String) (root : Table) : Option Table :=
  match keys.getLast? with
  | none => none
  | some key =>
    root.updateAt false (fun owner =>
      match owner.get? key with
      | none => some (owner.set key (.array true [.table .header []]))
      | some (.array true items) =>
        some (owner.set key (.array true (items ++ [.table .header []])))
      | some _ => none) keys.dropLast

/-- Adds a value to the table that the last header opened. -/
def addUnder (header : List String) (keys : List String) (value : Value) (root : Table) :
    Option Table :=
  root.updateAt false (addKey keys value) header

end Table

end LockDiscipline.Toml
