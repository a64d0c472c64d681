import LockDiscipline.Text.CharClass
import LockDiscipline.Text.Lines

/-! Access sections of a class body and the labels that open them. -/

namespace LockDiscipline

open LockDiscipline.Text

/-- The access section that a member belongs to. -/
inductive Access where
  | pub
  | priv
  | prot
deriving DecidableEq, Repr

namespace Access

/-- The keyword of a section. -/
def keyword : Access → String
  | pub => "public"
  | priv => "private"
  | prot => "protected"

/-- Every section. -/
def all : List Access :=
  [pub, priv, prot]

/-- What follows a label keyword: an optional `slots`, then one colon that is not doubled. -/
def closesLabel (rest : List Char) : Bool :=
  let rest := trimStart rest
  let rest := match dropOpening? "slots".toList rest with
    | some after => trimStart after
    | none => rest
  match rest with
  | ':' :: ':' :: _ => false
  | ':' :: _ => true
  | _ => false

/-- Whether a line opens this section. -/
def labels (access : Access) (line : List Char) : Bool :=
  (dropOpening? access.keyword.toList line).any closesLabel

/-- The section that a line opens; content after the colon is allowed. -/
def ofLabel? (line : List Char) : Option Access :=
  all.find? (·.labels line)

end Access

end LockDiscipline
