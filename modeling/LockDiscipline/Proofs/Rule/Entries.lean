import LockDiscipline.Proofs.Text.ByteOrder
import LockDiscipline.Proofs.Text.CharClass
import LockDiscipline.Rule.Settings
import Mathlib.Data.List.Nodup

/-! The rule section of a configuration: which entry is at fault, and what the entries set. -/

namespace LockDiscipline

open LockDiscipline.Text

/-- A text spells a word, with white space around it and ASCII letters in any case. -/
def Spells (text word : List Char) : Prop :=
  ∃ lead core trail, text = lead ++ core ++ trail ∧ (∀ c ∈ lead, isBlank c = true) ∧
    (∀ c ∈ trail, isBlank c = true) ∧ lowerAscii core = lowerAscii word

/-- A text spells a word without white space exactly if it equals it when trimmed. -/
theorem spells_iff {text word : List Char} (inhabited : word ≠ [])
    (solid : word.any isBlank = false) :
    Spells text word ↔ lowerAscii (trim text) = lowerAscii word := by
  constructor
  · rintro ⟨lead, core, trail, rfl, leading, trailing, same⟩
    -- Case does not matter for white space, so there is none in what spells the word.
    have solidCore : ∀ c ∈ core, isBlank c = false := by
      intro c member
      have lowered : c.toLower ∈ lowerAscii word := same ▸ List.mem_map_of_mem member
      obtain ⟨d, inWord, equal⟩ := List.mem_map.mp lowered
      rw [← isBlank_toLower, ← equal, isBlank_toLower]
      exact Bool.eq_false_iff.mpr (List.any_eq_false.mp solid d inWord)
    have inhabitedCore : core ≠ [] := by
      rintro rfl
      exact inhabited (List.map_eq_nil_iff.mp same.symm)
    rw [trim_padded leading trailing inhabitedCore
      (fun c first => solidCore c (List.mem_of_head? first))
      (fun c last => solidCore c (List.mem_of_getLast? last)), same]
  · -- Trimming cuts the white space off, and what it leaves is the spelling.
    intro same
    obtain ⟨lead, trail, shape, leading, trailing⟩ := exists_trim text
    exact ⟨lead, trim text, trail, shape, leading, trailing, same⟩

/-- A key denotes a rule if it spells its name. -/
def RuleId.DenotedBy (id : RuleId) (key : String) : Prop :=
  Spells key.toList id.name.toList

/-- The words for a severity in a configuration. -/
def Severity.words : Severity → List String
  | error => ["error"]
  | warning => ["warning", "warn"]
  | info => ["info"]

/-- A level denotes a severity if it spells one of the words for it. -/
def Severity.DenotedBy (severity : Severity) (level : String) : Prop :=
  ∃ word ∈ severity.words, Spells level.toList word.toList

/-- The name of a rule is read as the rule that it denotes. -/
theorem RuleId.parse?_eq_some_iff {key : String} {id : RuleId} :
    parse? key = some id ↔ id.DenotedBy key := by
  -- No name has white space in it, and case does not make two names equal.
  have solid : ∀ other : RuleId, other.name.toList ≠ [] ∧
      other.name.toList.any isBlank = false := by
    intro other
    cases other <;> decide
  have apart : ∀ other : RuleId, lowerAscii other.name.toList = lowerAscii id.name.toList →
      other = id := by
    intro other
    cases other <;> cases id <;> decide
  have listed : id ∈ all := by cases id <;> decide
  rw [DenotedBy, spells_iff (solid id).1 (solid id).2]
  unfold parse?
  constructor
  · intro found
    have fits := List.find?_some found
    exact (eq_of_beq fits).symm
  · intro same
    -- The search ends at some rule, and the name of that rule is spelled alike.
    cases found : all.find? fun other =>
        lowerAscii other.name.toList == lowerAscii (trim key.toList) with
    | none => exact absurd (beq_iff_eq.mpr same.symm) (List.find?_eq_none.mp found id listed)
    | some other =>
      have fits := List.find?_some found
      rw [apart other ((eq_of_beq fits).trans same)]

/-- A level is read as the severity that it denotes. -/
theorem Severity.parse?_eq_some_iff {level : String} {severity : Severity} :
    parse? level = some severity ↔ severity.DenotedBy level := by
  -- The words for levels are few; they are in small letters and have no white space.
  have solid : ∀ word ∈ severity.words, word.toList ≠ [] ∧
      word.toList.any isBlank = false ∧ lowerAscii word.toList = word.toList := by
    cases severity <;> decide
  have denoted : severity.DenotedBy level ↔
      ∃ word ∈ severity.words, String.ofList (lowerAscii (trim level.toList)) = word := by
    refine exists_congr fun word => and_congr_right fun known => ?_
    obtain ⟨inhabited, noBlank, small⟩ := solid word known
    rw [spells_iff inhabited noBlank, small, ← String.toList_inj, String.toList_ofList]
  -- The reader compares with each word in turn, as the definition of the words does.
  rw [denoted]
  unfold parse?
  split <;> cases severity <;> simp_all [words]

namespace RuleSettings

/-- What is wrong with an entry: its key denotes no rule or, otherwise, its level no severity. -/
inductive Fault : String × RuleEntry → ConfigError → Prop where
  | unknownRule {key : String} {entry : RuleEntry} (unknown : ∀ id : RuleId, ¬ id.DenotedBy key) :
    Fault (key, entry) (.unknownRule key)
  | invalidLevel {key level : String} {entry : RuleEntry} {id : RuleId} (known : id.DenotedBy key)
    (given : entry.level = some level)
    (invalid : ∀ severity : Severity, ¬ severity.DenotedBy level) :
    Fault (key, entry) (.invalidLevel key level)

/-- An entry switches a rule off. -/
def SwitchesOff (id : RuleId) (item : String × RuleEntry) : Prop :=
  id.DenotedBy item.1 ∧ item.2.enabled = some false

/-- An entry gives a rule a level. -/
def GivesLevel (id : RuleId) (severity : Severity) (item : String × RuleEntry) : Prop :=
  id.DenotedBy item.1 ∧ ∃ level, item.2.level = some level ∧ severity.DenotedBy level

/-- An entry says nothing about the level of a rule. -/
def LeavesLevel (id : RuleId) (item : String × RuleEntry) : Prop :=
  id.DenotedBy item.1 → item.2.level = none

/-- The first entry at fault, with its error. -/
def FirstFault (items : List (String × RuleEntry)) (e : ConfigError) : Prop :=
  ∃ before item after, items = before ++ item :: after ∧ (∀ x ∈ before, ∀ e, ¬ Fault x e) ∧
    Fault item e

/-- The last level that entries give to a rule. -/
def LastLevel (items : List (String × RuleEntry)) (id : RuleId) (severity : Severity) : Prop :=
  ∃ before item after, items = before ++ item :: after ∧ GivesLevel id severity item ∧
    ∀ x ∈ after, LeavesLevel id x

/-- What entries without fault make of settings. -/
structure Extended (s : RuleSettings) (items : List (String × RuleEntry)) (result : RuleSettings) :
    Prop where
  off : ∀ id, result.isEnabled id = false ↔
    s.isEnabled id = false ∨ ∃ item ∈ items, SwitchesOff id item
  level : ∀ id severity, result.level? id = some severity ↔
    LastLevel items id severity ∨ (∀ item ∈ items, LeavesLevel id item) ∧
      s.level? id = some severity
  unset : ∀ id, result.level? id = none ↔
    (∀ item ∈ items, LeavesLevel id item) ∧ s.level? id = none

/-- An entry has a fault exactly if its key or its level denotes nothing. -/
theorem exists_fault_iff {item : String × RuleEntry} :
    (∃ e, Fault item e) ↔ (∀ id : RuleId, ¬ id.DenotedBy item.1) ∨
      ∃ level, item.2.level = some level ∧ ∀ severity : Severity, ¬ severity.DenotedBy level := by
  constructor
  · rintro ⟨e, ⟨unknown⟩ | ⟨-, given, invalid⟩⟩
    · exact .inl unknown
    · exact .inr ⟨_, given, invalid⟩
  · rintro (unknown | ⟨level, given, invalid⟩)
    · exact ⟨_, .unknownRule unknown⟩
    · -- A level that denotes nothing counts only under a key that denotes a rule.
      by_cases known : ∃ id : RuleId, id.DenotedBy item.1
      · obtain ⟨id, known⟩ := known
        exact ⟨_, .invalidLevel known given invalid⟩
      · exact ⟨_, .unknownRule (not_exists.mp known)⟩

/-- An entry at fault is refused with its error. -/
theorem add_of_fault {s : RuleSettings} {item : String × RuleEntry} {e : ConfigError}
    (fault : Fault item e) : s.add item.1 item.2 = .error e := by
  -- In both cases the lookup that the entry asks for finds nothing.
  cases fault with
  | @unknownRule key entry unknown =>
    have unread : RuleId.parse? key = none :=
      Option.eq_none_iff_forall_ne_some.mpr fun id read =>
        unknown id (RuleId.parse?_eq_some_iff.mp read)
    simp only [add, unread]
    rfl
  | @invalidLevel key level entry id known given invalid =>
    have unread : Severity.parse? level = none :=
      Option.eq_none_iff_forall_ne_some.mpr fun severity read =>
        invalid severity (Severity.parse?_eq_some_iff.mp read)
    simp only [add, RuleId.parse?_eq_some_iff.mpr known, given, unread]
    rfl

/-- Rules are told apart by the keys that denote them. -/
theorem eq_of_denotedBy {key : String} {id other : RuleId} (one : id.DenotedBy key)
    (two : other.DenotedBy key) : id = other := by
  -- One key is read as one rule only.
  have read := RuleId.parse?_eq_some_iff.mpr one
  rw [RuleId.parse?_eq_some_iff.mpr two] at read
  exact (Option.some.inj read).symm

/-- No entries give no level. -/
theorem not_lastLevel_nil {id : RuleId} {severity : Severity} : ¬ LastLevel [] id severity := by
  -- The entry that gives it would be among them.
  rintro ⟨before, item, after, shape, -⟩
  simp at shape

/-- The last level is one that later entries give or, if they give none, that of the first. -/
theorem lastLevel_cons {item : String × RuleEntry} {rest : List (String × RuleEntry)}
    {id : RuleId} {severity : Severity} :
    LastLevel (item :: rest) id severity ↔ LastLevel rest id severity ∨
      (∀ x ∈ rest, LeavesLevel id x) ∧ GivesLevel id severity item := by
  -- Either the first entry is the last one with a level, or a later one is.
  constructor
  · rintro ⟨before, found, after, shape, gives, leave⟩
    cases before with
    | nil =>
      obtain ⟨rfl, rfl⟩ := List.cons.inj shape
      exact .inr ⟨leave, gives⟩
    | cons first before =>
      obtain ⟨rfl, rfl⟩ := List.cons.inj shape
      exact .inl ⟨before, found, after, rfl, gives, leave⟩
  · rintro (⟨before, found, after, rfl, gives, leave⟩ | ⟨leave, gives⟩)
    · exact ⟨item :: before, found, after, rfl, gives, leave⟩
    · exact ⟨[], item, rest, rfl, gives, leave⟩

/-- An entry without fault denotes a rule, and its level, if it has one, a severity. -/
theorem denotes_of_fine {item : String × RuleEntry} (fine : ∀ e, ¬ Fault item e) :
    (∃ id : RuleId, id.DenotedBy item.1) ∧
      ∀ level, item.2.level = some level → ∃ severity : Severity, severity.DenotedBy level := by
  -- The only faults are an unknown key and an invalid level.
  have noFault := mt exists_fault_iff.mpr (not_exists.mpr fine)
  refine ⟨Classical.not_forall_not.mp fun unknown => noFault (.inl unknown), ?_⟩
  intro level given
  exact Classical.not_forall_not.mp fun invalid => noFault (.inr ⟨level, given, invalid⟩)

/-- A rule that is switched off is off, and so are those that were off before. -/
theorem isEnabled_cons {id other : RuleId} {disabled : List RuleId}
    {levels : List (RuleId × Severity)} :
    isEnabled ⟨id :: disabled, levels⟩ other = false ↔
      isEnabled ⟨disabled, levels⟩ other = false ∨ other = id := by
  -- The rule is in front of those that are off.
  simp only [isEnabled, Bool.not_eq_false', List.contains_iff_mem, List.mem_cons]
  exact or_comm

/-- A level that is set counts for its rule, and for no other one. -/
theorem level?_cons {id other : RuleId} {severity : Severity} {disabled : List RuleId}
    {levels : List (RuleId × Severity)} :
    level? ⟨disabled, (id, severity) :: levels⟩ other =
      if other = id then some severity else level? ⟨disabled, levels⟩ other := by
  -- A lookup finds the entry in front if it is for the rule, and goes on otherwise.
  by_cases same : other = id
  · simp [level?, same]
  · have apart : (other == id) = false := by simpa using same
    simp [level?, List.lookup_cons, apart, same]

/-- An entry without fault is taken over. -/
theorem add_of_fine {s : RuleSettings} {item : String × RuleEntry} (fine : ∀ e, ¬ Fault item e) :
    ∃ result, s.add item.1 item.2 = .ok result ∧ Extended s [item] result := by
  obtain ⟨key, entry⟩ := item
  obtain ⟨⟨id, known⟩, valid⟩ := denotes_of_fine fine
  have read := RuleId.parse?_eq_some_iff.mpr known
  -- The key denotes this rule and no other, so nothing else changes.
  have denoted : ∀ other : RuleId, other.DenotedBy key ↔ other = id := by
    intro other
    exact ⟨fun too => eq_of_denotedBy too known, fun same => same ▸ known⟩
  let disabled := if entry.enabled = some false then id :: s.disabled else s.disabled
  have off : ∀ other levels, isEnabled ⟨disabled, levels⟩ other = false ↔
      s.isEnabled other = false ∨ ∃ item ∈ [(key, entry)], SwitchesOff other item := by
    intro other levels
    simp only [SwitchesOff, List.mem_singleton, exists_eq_left, denoted, disabled]
    split
    · rename_i switched
      rw [isEnabled_cons, and_iff_left switched]
      rfl
    · rename_i kept
      simp [kept, isEnabled]
  -- Without a level the levels stay; with one, it goes in front of the earlier ones.
  cases given : entry.level with
  | none =>
    refine ⟨⟨disabled, s.levels⟩, ?_, fun other => off other _, ?_, ?_⟩
    · simp only [add, read, given, disabled]
      split <;> rfl
    · intro other severity
      simp [lastLevel_cons, not_lastLevel_nil, GivesLevel, LeavesLevel, given, level?]
    · intro other
      simp [LeavesLevel, given, level?]
  | some level =>
    obtain ⟨severity, named⟩ := valid level given
    have readLevel := Severity.parse?_eq_some_iff.mpr named
    refine ⟨⟨disabled, (id, severity) :: s.levels⟩, ?_, fun other => off other _, ?_, ?_⟩
    · simp only [add, read, given, readLevel, disabled]
      split <;> rfl
    · intro other third
      rw [level?_cons]
      by_cases same : other = id <;>
        simp [lastLevel_cons, not_lastLevel_nil, GivesLevel, LeavesLevel, given, level?, denoted,
          same, ← Severity.parse?_eq_some_iff, readLevel]
    · intro other
      rw [level?_cons]
      by_cases same : other = id <;> simp [LeavesLevel, given, level?, denoted, same]

/-- Settings that are extended entry by entry are extended by all entries. -/
theorem Extended.cons {s middle result : RuleSettings} {item : String × RuleEntry}
    {rest : List (String × RuleEntry)} (first : Extended s [item] middle)
    (others : Extended middle rest result) : Extended s (item :: rest) result where
  off id := by
    rw [others.off, first.off]
    simp [or_assoc]
  level id severity := by
    -- What the later entries leave open is decided by the first, and then by what was set before.
    rw [others.level, first.level]
    simp only [lastLevel_cons, not_lastLevel_nil, List.forall_mem_cons, List.not_mem_nil]
    grind
  unset id := by
    rw [others.unset, first.unset]
    simp only [List.forall_mem_cons, List.not_mem_nil]
    grind

/-- No entries leave settings as they are. -/
theorem Extended.nil (s : RuleSettings) : Extended s [] s where
  -- Nothing is added, so each answer is that of the settings.
  off id := by simp
  level id severity := by simp [not_lastLevel_nil]
  unset id := by simp

/-- Among entries, either there is a first one at fault, or none is at fault. -/
theorem firstFault_or_fine (items : List (String × RuleEntry)) :
    (∃ e, FirstFault items e) ∨ ∀ item ∈ items, ∀ e, ¬ Fault item e := by
  -- Entry by entry, up to the first fault.
  induction items with
  | nil => exact .inr (by simp)
  | cons item rest ih =>
    by_cases fault : ∃ e, Fault item e
    · obtain ⟨e, fault⟩ := fault
      exact .inl ⟨e, [], item, rest, rfl, by simp, fault⟩
    · have fine := not_exists.mp fault
      rcases ih with ⟨e, before, found, after, rfl, earlier, fault⟩ | others
      · exact .inl ⟨e, item :: before, found, after, rfl,
          List.forall_mem_cons.mpr ⟨fine, earlier⟩, fault⟩
      · exact .inr (List.forall_mem_cons.mpr ⟨fine, others⟩)

/-- Entries without fault are all taken over. -/
theorem foldlM_of_fine {items : List (String × RuleEntry)}
    (fine : ∀ item ∈ items, ∀ e, ¬ Fault item e) (s : RuleSettings) :
    ∃ result, items.foldlM (fun s item => s.add item.1 item.2) s = .ok result ∧
      Extended s items result := by
  -- Entry by entry; what each adds is put together with what the others add.
  induction items generalizing s with
  | nil => exact ⟨s, rfl, .nil s⟩
  | cons item rest ih =>
    obtain ⟨fineHere, fineThere⟩ := List.forall_mem_cons.mp fine
    obtain ⟨middle, added, first⟩ := add_of_fine (s := s) fineHere
    obtain ⟨result, read, others⟩ := ih fineThere middle
    exact ⟨result, by rw [List.foldlM_cons, added]; exact read, first.cons others⟩

/-- The first entry at fault ends the reading with its error. -/
theorem foldlM_of_firstFault {items : List (String × RuleEntry)} {e : ConfigError}
    (first : FirstFault items e) (s : RuleSettings) :
    items.foldlM (fun s item => s.add item.1 item.2) s = .error e := by
  obtain ⟨before, item, after, rfl, earlier, fault⟩ := first
  -- What stands before it is taken over, and what stands after it is not looked at.
  obtain ⟨middle, read, -⟩ := foldlM_of_fine earlier s
  rw [List.foldlM_append, read]
  show (item :: after).foldlM (fun s item => s.add item.1 item.2) middle = .error e
  rw [List.foldlM_cons, add_of_fault fault]
  rfl

section InByteOrder

variable {entries sorted : List (String × RuleEntry)} (same : sorted.Perm entries)
  (ordered : sorted.Pairwise fun x y => Utf8.encode x.1.toList < Utf8.encode y.1.toList)

include same ordered

/-- Entries whose keys are in byte order are what sorting makes of them in any order. -/
theorem sortEntries_eq : sortEntries entries = sorted := by
  -- The order of the bytes is that of the characters, which is what the sorting compares.
  have byKey : sorted.Pairwise fun x y => x.1 < y.1 :=
    ordered.imp fun less => String.lt_iff.mpr (Utf8.encode_lt_iff.mp less)
  have distinct : (sorted.map Prod.fst).Nodup :=
    List.pairwise_map.mpr (byKey.imp fun less => Std.ne_of_lt less)
  -- Both lists hold the same entries in one order, and no two entries share a key.
  have arranged : (sortEntries entries).Perm sorted :=
    (List.mergeSort_perm entries _).trans same.symm
  have pairwise : (sortEntries entries).Pairwise fun x y => x.1 ≤ y.1 := by
    have increasing : (sortEntries entries).Pairwise fun x y => decide (x.1 ≤ y.1) = true := by
      refine List.pairwise_mergeSort ?_ ?_ entries
      · simpa using fun _ _ _ _ _ _ => String.le_trans
      · simpa using fun _ _ _ _ => String.le_total _ _
    exact increasing.imp of_decide_eq_true
  refine List.Perm.eq_of_pairwise ?_ pairwise (byKey.imp fun less => Std.le_of_lt less) arranged
  intro x y here there low high
  exact List.inj_on_of_nodup_map distinct (arranged.mem_iff.mp here) there
    (String.le_antisymm low high)

/-- The entries are read in the byte order of their keys. -/
theorem ofEntries_eq :
    ofEntries entries = sorted.foldlM (fun s item => s.add item.1 item.2) {} := by
  -- The entries are sorted first and then read one by one.
  rw [ofEntries, sortEntries_eq same ordered]

/-- A rule section is refused exactly with the error of its first entry at fault. -/
theorem ofEntries_eq_error_iff {e : ConfigError} :
    ofEntries entries = .error e ↔ FirstFault sorted e := by
  rw [ofEntries_eq same ordered]
  refine ⟨fun error => ?_, fun first => foldlM_of_firstFault first {}⟩
  -- Either some entry is at fault, and the first such one decides, or none is.
  rcases firstFault_or_fine sorted with ⟨other, first⟩ | fine
  · rw [foldlM_of_firstFault first] at error
    exact Except.error.inj error ▸ first
  · obtain ⟨result, read, -⟩ := foldlM_of_fine fine {}
    rw [read] at error
    exact absurd error (by simp)

/-- Settings that are read from a rule section come from all its entries, and from nothing else. -/
theorem extended_of_ofEntries {settings : RuleSettings} (read : ofEntries entries = .ok settings) :
    Extended {} sorted settings := by
  rw [ofEntries_eq same ordered] at read
  -- Settings are only read where no entry is at fault.
  rcases firstFault_or_fine sorted with ⟨e, first⟩ | fine
  · rw [foldlM_of_firstFault first] at read
    exact absurd read (by simp)
  · obtain ⟨result, sameRead, extended⟩ := foldlM_of_fine fine {}
    rwa [Except.ok.inj (sameRead.symm.trans read)] at extended

end InByteOrder

/--
A rule section is read entry by entry, in the byte order of its keys.

It is refused exactly if some key denotes no rule or some level denotes no severity, and then with
the error of the first such entry; of two faults in one entry that of the key is reported.
Otherwise a rule is off exactly if some entry for it switches it off, whatever later entries for it
say, and its level is the last one that an entry for it gives.
-/
theorem ofEntries_resolves {entries sorted : List (String × RuleEntry)}
    (same : sorted.Perm entries)
    (ordered : sorted.Pairwise fun x y => Utf8.encode x.1.toList < Utf8.encode y.1.toList) :
    ((∃ e, ofEntries entries = .error e) ↔
      ∃ item ∈ sorted, (∀ id : RuleId, ¬ id.DenotedBy item.1) ∨
        ∃ level, item.2.level = some level ∧
          ∀ severity : Severity, ¬ severity.DenotedBy level) ∧
    (∀ e, ofEntries entries = .error e ↔ FirstFault sorted e) ∧
    ∀ settings, ofEntries entries = .ok settings → ∀ id,
      (settings.isEnabled id = false ↔ ∃ item ∈ sorted, SwitchesOff id item) ∧
      (∀ severity, settings.level? id = some severity ↔ LastLevel sorted id severity) ∧
      (settings.level? id = none ↔ ∀ item ∈ sorted, LeavesLevel id item) := by
  refine ⟨?_, fun e => ofEntries_eq_error_iff same ordered, ?_⟩
  · -- Among faults there is a first one, so a fault anywhere is as good as it.
    simp only [ofEntries_eq_error_iff same ordered, ← exists_fault_iff]
    constructor
    · rintro ⟨e, before, item, after, rfl, -, fault⟩
      exact ⟨item, by simp, e, fault⟩
    · rintro ⟨item, member, e, fault⟩
      exact (firstFault_or_fine sorted).resolve_right fun fine => fine item member e fault
  · intro settings read id
    have extended := extended_of_ofEntries same ordered read
    -- The reading starts with every rule on and no level set.
    have nothingOff : isEnabled {} id = true := rfl
    have noLevel : level? {} id = none := rfl
    refine ⟨?_, fun severity => ?_, ?_⟩
    · simpa [nothingOff] using extended.off id
    · simpa [noLevel] using extended.level id severity
    · simpa [noLevel] using extended.unset id

/-- Two spellings of one rule, given in the other order: the level of the later key counts. -/
theorem ofEntries_resolves_of_two_spellings :
    let first : String × RuleEntry :=
      (" Multiple_Mutexes", { enabled := some false, level := some "error" })
    let second : String × RuleEntry :=
      ("multiple_mutexes", { enabled := some true, level := some "WARN " })
    ∃ settings, ofEntries [second, first] = .ok settings ∧
      settings.isEnabled .multipleMutexes = false ∧
      settings.level? .multipleMutexes = some .warning := by
  intro first second
  have same : [first, second].Perm [second, first] := List.Perm.swap _ _ _
  have ordered : [first, second].Pairwise fun x y =>
      Utf8.encode x.1.toList < Utf8.encode y.1.toList := by decide
  -- Both levels are kept, the later one in front.
  let settings : RuleSettings :=
    { disabled := [.multipleMutexes]
      levels := [(.multipleMutexes, .warning), (.multipleMutexes, .error)] }
  have read : ofEntries [second, first] = .ok settings := by
    rw [ofEntries_eq same ordered]
    decide
  obtain ⟨off, level, -⟩ :=
    (ofEntries_resolves same ordered).2.2 settings read .multipleMutexes
  -- The later key is spelled in small letters, and it denotes the same rule.
  have firstKey : RuleId.multipleMutexes.DenotedBy first.1 :=
    RuleId.parse?_eq_some_iff.mp (by decide)
  have secondKey : RuleId.multipleMutexes.DenotedBy second.1 :=
    RuleId.parse?_eq_some_iff.mp (by decide)
  have named : Severity.warning.DenotedBy "WARN " := Severity.parse?_eq_some_iff.mp (by decide)
  refine ⟨settings, read, off.mpr ⟨first, by simp, firstKey, rfl⟩, ?_⟩
  exact (level .warning).mpr
    ⟨[first], second, [], rfl, ⟨secondKey, "WARN ", rfl, named⟩, by simp⟩

end RuleSettings

end LockDiscipline
