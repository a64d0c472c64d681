import LockDiscipline.Pattern.Search

/-! The lock, guard, unlock and mutex constructs that the scanner knows, with their tags. -/

namespace LockDiscipline

open LockDiscipline.Text

/-- A construct: the tag shown in reports and the pattern that recognises it. -/
structure Construct where
  tag : String
  pattern : Pattern

namespace Vocabulary

open Pattern

/-- Any character but one. -/
def notChar (c : Char) : Char → Bool :=
  (· != c)

/-- An optional namespace in front of a standard name, and the edge of that name. -/
def standard : Pattern :=
  inOrder [optional (inOrder [wordEdge, word "std::"]), wordEdge]

/-- A member call without arguments, such as `m.lock()`. -/
def memberCall (method : String) : Pattern :=
  inOrder [identifier, word ("." ++ method ++ "()")]

/-- A call with at least one argument character, such as `pthread_mutex_lock(&m)`. -/
def callWithArguments (function : String) : Pattern :=
  inOrder [wordEdge, word function, blanks, one (· == '('), run1 (notChar ')'), one (· == ')')]

/-- A guard variable that is constructed: template arguments are optional, the mutex is not. -/
def guardConstruction (types : List String) : Pattern :=
  inOrder [standard, anyWord types,
    optional (inOrder [blanks, one (· == '<'), run1 (notChar '>'), one (· == '>')]),
    gap, identifier, blanks,
    one (fun c => c == '(' || c == '\x7b'),
    run1 (fun c => c != ')' && c != '\x7d'),
    one (fun c => c == ')' || c == '\x7d')]

/-- Constructs that acquire a lock. -/
def lockConstructs : List Construct :=
  [⟨"mutex.lock()", memberCall "lock"⟩,
   ⟨"lock_guard", guardConstruction ["lock_guard", "scoped_lock"]⟩,
   ⟨"unique_lock", guardConstruction ["unique_lock"]⟩,
   ⟨"shared_lock", guardConstruction ["shared_lock"]⟩,
   ⟨"pthread_mutex_lock", callWithArguments "pthread_mutex_lock"⟩,
   ⟨"SDL_LockMutex", callWithArguments "SDL_LockMutex"⟩,
   ⟨"SDL_LockSurface", callWithArguments "SDL_LockSurface"⟩]

/-- Constructs that release a lock by hand. -/
def unlockConstructs : List Construct :=
  [⟨"mutex.unlock()", memberCall "unlock"⟩,
   ⟨"pthread_mutex_unlock", callWithArguments "pthread_mutex_unlock"⟩,
   ⟨"SDL_UnlockMutex", callWithArguments "SDL_UnlockMutex"⟩,
   ⟨"SDL_UnlockSurface", callWithArguments "SDL_UnlockSurface"⟩]

/-- The name of a guard type, whether or not a guard is constructed. -/
def guardMention : Pattern :=
  inOrder [standard, anyWord ["lock_guard", "scoped_lock", "unique_lock", "shared_lock"], wordEdge]

/-- Declarations of a mutex, each capturing the declared name. -/
def mutexDeclarations : List Construct :=
  [⟨"std::mutex",
     inOrder [standard, anyWord ["mutex", "shared_mutex", "recursive_mutex"], gap,
       capture .name identifier]⟩,
   ⟨"pthread_mutex_t",
     inOrder [wordEdge, word "pthread_mutex_t", gap, capture .name identifier]⟩,
   ⟨"SDL_mutex",
     inOrder [wordEdge, word "SDL_mutex", blanks, one (· == '*'), blanks,
       capture .name identifier]⟩]

/-- The tags of the lock constructs that occur in a text, in the order of the table. -/
def lockTags (text : List Char) : List String :=
  (lockConstructs.filter (·.pattern.occursIn text)).map (·.tag)

/-- Whether a text acquires a lock. -/
def hasLock (text : List Char) : Bool :=
  lockConstructs.any (·.pattern.occursIn text)

/-- The number of lock acquisitions in a text, each construct counted on its own. -/
def lockCount (text : List Char) : Nat :=
  (lockConstructs.flatMap fun c => c.pattern.findAll text).length

/-- Whether a text releases a lock by hand. -/
def hasManualUnlock (text : List Char) : Bool :=
  unlockConstructs.any (·.pattern.occursIn text)

/-- Whether a text mentions a guard type. -/
def hasGuard (text : List Char) : Bool :=
  guardMention.occursIn text

/-- The mutexes a text declares, as positions and names. -/
def mutexMentions (text : List Char) : List (Nat × List Char) :=
  mutexDeclarations.flatMap fun c =>
    (c.pattern.findAll text).filterMap fun found =>
      (found.capture? .name).map fun name => (name.start.before.length, name.text)

/-- The names of the mutexes a text declares, in order of appearance and without repetition. -/
def mutexMembers (text : List Char) : List (List Char) :=
  (((mutexMentions text).mergeSort fun x y => x.1 ≤ y.1).map (·.2)).eraseDups

end Vocabulary

end LockDiscipline
