import LockDiscipline.Profile
import LockDiscipline.Text.Lines
import LockDiscipline.Vocabulary

/-! What sets off each rule: textual signs in a class profile or in the lines of a file. -/

namespace LockDiscipline

open LockDiscipline.Text

/-- What a rule found, before severity and file are attached. -/
structure Finding where
  line : Nat
  message : String
  suggestion : String
deriving DecidableEq, Repr

/-- The lines of a file, with and without comments and literals. -/
structure FileLines where
  raw : List (List Char)
  code : List (List Char)
deriving DecidableEq, Repr

/-- The lines of a text and of its code view. -/
def FileLines.ofTexts (raw code : List Char) : FileLines :=
  ⟨lines raw, lines code⟩

namespace Trigger

/-- The lines from `before` lines above a line to `after` lines below it, within the file. -/
def context (before after : Nat) (all : List (List Char)) (index : Nat) : List (List Char) :=
  (all.drop (index - before)).take (index + after + 1 - (index - before))

/-- The numbers, counted from 1, of the lines that satisfy a condition on text and position. -/
def lineNumbers (hits : List Char → Nat → Bool) (all : List (List Char)) : List Nat :=
  (all.zipIdx.filter fun (line, index) => hits line index).map (·.2 + 1)

/-- The name that the unlocked twin of a method must have. -/
def twinName (method : String) : String :=
  method ++ "_unlocked"

/-- A public method that locks needs a private twin that does not. -/
def missingUnlockedMethod (p : ClassProfile) : List Finding :=
  p.lockingMethods.filterMap fun m =>
    let twin := twinName m.name
    if p.unlockedMethods.contains twin then none
    else some {
      line := m.line
      message := "Public method '" ++ m.name ++ "' acquires locks but has no private '" ++ twin ++
        "' counterpart"
      suggestion := "Add private method: " ++ twin ++
        "() that performs the work without acquiring locks" }

/-- A class with several mutexes needs an order among them. -/
def multipleMutexes (p : ClassProfile) : List Finding :=
  if p.mutexes.length < 2 then []
  else [{
    line := p.startLine
    message := "Class '" ++ p.name ++ "' has multiple mutexes (" ++
      ", ".intercalate p.mutexes ++ ") - verify lock acquisition order"
    suggestion := "Document the lock acquisition order next to the mutex declarations" }]

/-- How many lines above and below a manual unlock may hold the guard that excuses it. -/
def guardContext : Nat := 10

/-- Whether a line unlocks by hand with no guard near it. -/
def unlocksWithoutGuard (all : List (List Char)) (line : List Char) (index : Nat) : Bool :=
  Vocabulary.hasManualUnlock (trim line) &&
    !(context guardContext guardContext all index).any Vocabulary.hasGuard

/-- The report of an unlock by hand. -/
def manualUnlockAt (line : Nat) : Finding where
  line
  message := "Manual lock/unlock detected - use RAII lock guards instead"
  suggestion := "Replace with std::lock_guard<std::mutex> lock(mutex_name);"

/-- Unlocking by hand is reported unless a guard is near. -/
def manualLockUnlock (file : FileLines) : List Finding :=
  (lineNumbers (unlocksWithoutGuard file.raw) file.raw).map manualUnlockAt

open Pattern in
/-- A call of a method: its name at a word edge, then a parenthesis. -/
def callPattern (callee : String) : Pattern :=
  inOrder [wordEdge, word callee, blanks, one (· == '(')]

/-- The part of the line of a signature that can hold calls: what follows the parameter list. -/
def afterSignature (method : String) (line : List Char) : List Char :=
  match findPhrase? method.toList line with
  | some rest => (rest.dropWhile (· != ')')).drop 1
  | none => line

/-- Whether a line, counted from 1, calls `callee` on behalf of `caller`. -/
def callsOnLine (p : ClassProfile) (code : List (List Char)) (caller : LockingMethod)
    (callee : String) (line : Nat) : Bool :=
  !(p.lockingMethods.any fun m => m.name == callee && m.line == line) &&
    0 < line && code[line - 1]?.any fun content =>
      (callPattern callee).occursIn
        (if line = caller.line then afterSignature caller.name content else content)

/-- The first line in the window of `caller` that calls `callee`. -/
def callLine? (p : ClassProfile) (code : List (List Char)) (caller : LockingMethod)
    (callee : String) : Option Nat :=
  let last := min caller.windowEnd code.length
  (List.range' caller.line (last + 1 - caller.line)).find? (callsOnLine p code caller callee)

/-- A call between two public methods that lock. -/
structure Call where
  caller : String
  callee : String
  line : Nat
deriving DecidableEq, Repr

/-- Whether two calls are between the same methods. -/
def Call.samePair (x y : Call) : Bool :=
  x.caller == y.caller && x.callee == y.callee

/-- The calls between the locking methods of a class, the first for each pair of methods. -/
def calls (p : ClassProfile) (code : List (List Char)) : List Call :=
  let callees := (p.lockingMethods.map (·.name)).eraseDups
  let found := p.lockingMethods.flatMap fun caller =>
    (callees.filter (· != caller.name)).filterMap fun callee =>
      (callLine? p code caller callee).map fun line => ⟨caller.name, callee, line⟩
  found.eraseDupsBy Call.samePair

/-- The report of a call. -/
def Call.finding (call : Call) : Finding where
  line := call.line
  message := "Public method '" ++ call.caller ++ "' may call public method '" ++ call.callee ++
    "' - potential deadlock risk"
  suggestion := "Use '" ++ twinName call.callee ++
    "()' instead if calling from within the same class"

/-- A public method that locks should not call another one. -/
def publicCallsPublic (p : ClassProfile) (file : FileLines) : List Finding :=
  (calls p file.code).map (·.finding)

/-- A character in either case; the long s and the Kelvin sign fold to letters of ASCII. -/
def foldsTo (small c : Char) : Bool :=
  c.toLower == small || (small == 's' && c == '\u017F') || (small == 'k' && c == '\u212A')

open Pattern in
/-- A word in any case. -/
def anyCase (text : String) : Pattern :=
  inOrder (text.toList.map fun c => one (foldsTo c))

open Pattern in
/-- A mention of the order in which locks are taken. -/
def lockOrderMention : Pattern :=
  inOrder [.or (anyCase "lock") (anyCase "acquisition"), gap, anyCase "order"]

/-- Several locks on one line call for a documented order somewhere in the file. -/
def missingLockOrderDoc (file : FileLines) : List Finding :=
  if (file.raw.any fun line => 2 ≤ Vocabulary.lockCount line) &&
      !file.raw.any lockOrderMention.occursIn then
    [{
      line := 1
      message := "Multiple locks detected but no lock acquisition order documented"
      suggestion := "Add comment documenting lock acquisition order to prevent deadlocks" }]
  else []

/-- The small letter of a character, as far as words of ASCII letters are concerned. -/
def toSmall (c : Char) : Char :=
  if c == '\u212A' then 'k' else c.toLower

/-- Whether a line mentions a callback in any case. -/
def mentionsCallback (line : List Char) : Bool :=
  hasPhrase "callback".toList (line.map toSmall)

/-- A callback on a line that locks may run while the lock is held. -/
def callbackUnderLock (file : FileLines) : List Finding :=
  (lineNumbers (fun line _ => Vocabulary.hasLock line && mentionsCallback line) file.raw).map
    fun line => {
      line
      message := "Potential callback invocation while holding lock - deadlock risk"
      suggestion :=
        "Release locks before invoking callbacks or queue callbacks for later execution" }

open Pattern in
/-- The word `const`. -/
def constWord : Pattern :=
  inOrder [wordEdge, word "const", wordEdge]

/-- How many lines above a locking const line may hold the `mutable` that excuses it. -/
def mutableBefore : Nat := 20

/-- How many lines below a locking const line may hold the `mutable` that excuses it. -/
def mutableAfter : Nat := 5

/-- Whether a line locks in const code with no mutable member near it. -/
def locksInConst (all : List (List Char)) (line : List Char) (index : Nat) : Bool :=
  constWord.occursIn line && Vocabulary.hasLock line &&
    !(context mutableBefore mutableAfter all index).any (hasPhrase "mutable".toList)

/-- The report of a lock in const code. -/
def constLockAt (line : Nat) : Finding where
  line
  message := "Const method acquires lock - ensure mutex is declared as mutable"
  suggestion := "Declare mutex as 'mutable std::mutex mutex_name;'"

/-- Const code can lock only a mutable mutex. -/
def constMethodLock (file : FileLines) : List Finding :=
  (lineNumbers (locksInConst file.raw) file.raw).map constLockAt

end Trigger

end LockDiscipline
