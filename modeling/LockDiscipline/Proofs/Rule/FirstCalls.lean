import LockDiscipline.Proofs.Rule.CallSites

/-! Which calls between locking methods are reported: every pair once, where it shows first. -/

namespace LockDiscipline.Trigger

open LockDiscipline.Text

section Placed

variable {p : ClassProfile} {code : List (List Char)}

end Placed

section Reports

variable {p : ClassProfile} {name : String} {window : LockWindow} {code : List Char}
  (inFile : p ∈ Scan.profiles name window code)

end Reports

end LockDiscipline.Trigger
