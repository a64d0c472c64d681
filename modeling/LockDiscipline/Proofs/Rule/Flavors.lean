import LockDiscipline.Proofs.Rule.Evaluate
import LockDiscipline.Proofs.Scan.Declarations
import LockDiscipline.Run
import Mathlib.Data.List.Basic
import Mathlib.Data.List.Flatten

/-! The two flavors of a run: whole class bodies show every lock that windows show. -/

namespace LockDiscipline

namespace Scan

variable {file : String} {window : LockWindow} {region : Region}

/-- What is found in the classes that matter, region by region. -/
theorem flatMap_profiles {α : Type} (find : ClassProfile → List α) (code : List Char) :
    (profiles file window code).flatMap find = (Region.findAll code).flatMap fun region =>
      if (profile file window region).isRelevant then find (profile file window region)
      else [] := by
  -- The filter on classes is pushed into what is found in each of them.
  unfold profiles
  induction Region.findAll code with
  | nil => rfl
  | cons region rest ih =>
    rw [List.flatMap_cons, ← ih, List.map_cons, List.filter_cons]
    split <;> simp

/-- A rule that finds nothing in classes that do not matter may as well look at all classes. -/
theorem flatMap_profiles_of_irrelevant {α : Type} {find : ClassProfile → List α}
    (silent : ∀ p : ClassProfile, ¬p.isRelevant = true → find p = []) (code : List Char) :
    (profiles file window code).flatMap find =
      (Region.findAll code).flatMap fun region => find (profile file window region) := by
  -- The filter drops only classes that contribute nothing.
  rw [flatMap_profiles]
  congr 1
  funext region
  split
  · rfl
  · rename_i irrelevant
    exact (silent _ irrelevant).symm

/-- The classes that matter for windows are among those that matter for whole bodies. -/
theorem profiles_sublist (code : List Char) :
    ((profiles file window code).map fun p => (p.name, p.startLine)).Sublist
      ((profiles file .classBody code).map fun p => (p.name, p.startLine)) :=
  -- A whole body holds every line of a window.
  profiles_sublist_of_covers fun _ _ _ declared =>
    window.classBody_covers (index_lt_of_mem_declarations declared)

end Scan

namespace Trigger

open Scan

variable {file : String} {window : LockWindow} {region : Region}

/-- What one search finds for every item is a sublist of what a search that finds more finds. -/
theorem filterMap_sublist {α β : Type} {f g : α → Option β} {items : List α}
    (finds : ∀ a ∈ items, ∀ b, f a = some b → g a = some b) :
    (items.filterMap f).Sublist (items.filterMap g) := by
  -- Each item contributes at most one result, so the lists are compared item by item.
  rw [List.filterMap_eq_flatMap_toList, List.filterMap_eq_flatMap_toList]
  refine List.Sublist.flatMap_right _ fun a member => ?_
  cases found : f a with
  | none => exact List.nil_sublist _
  | some b => rw [finds a member b found]

/-- A method without a twin is missed by no look at the whole class. -/
theorem missingUnlockedMethod_sublist :
    (missingUnlockedMethod (profile file window region)).Sublist
      (missingUnlockedMethod (profile file .classBody region)) := by
  simp only [missingUnlockedMethod, profile, List.filterMap_filterMap]
  refine filterMap_sublist fun d declared finding reported => ?_
  obtain ⟨m, found, missing⟩ := Option.bind_eq_some_iff.mp reported
  -- The finding names the method and its line, which are the same in the whole class.
  obtain ⟨whole, inClass, sameName, sameLine⟩ := lockingMethod?_classBody declared found
  rw [inClass, Option.bind_some, sameName, sameLine]
  exact missing

/-- The mutexes of a class do not depend on the window. -/
theorem multipleMutexes_profile (other : LockWindow) :
    multipleMutexes (profile file window region) = multipleMutexes (profile file other region) :=
  -- Mutexes are looked for in the whole body.
  rfl

/-- A class that does not matter has no method without a twin. -/
theorem missingUnlockedMethod_irrelevant {p : ClassProfile} (irrelevant : ¬p.isRelevant = true) :
    missingUnlockedMethod p = [] := by
  -- To matter is to have a locking method or a mutex.
  have none : p.lockingMethods = [] := by
    simp_all [ClassProfile.isRelevant]
  rw [missingUnlockedMethod, none, List.filterMap_nil]

/-- A class that does not matter has no two mutexes. -/
theorem multipleMutexes_irrelevant {p : ClassProfile} (irrelevant : ¬p.isRelevant = true) :
    multipleMutexes p = [] := by
  have none : p.mutexes = [] := by
    simp_all [ClassProfile.isRelevant]
  rw [multipleMutexes, none, if_pos (by decide)]

end Trigger

namespace Rule

variable {file : String} {window : LockWindow} {code : List Char} {content : FileLines}

/-- A rule that both flavors evaluate looks at classes, for missing twins or for mutexes. -/
theorem findings_of_includes {rule : Rule} (member : rule ∈ table)
    (inBoth : Flavor.analyze.includes rule.id = true) :
    ∃ find ∈ [Trigger.missingUnlockedMethod, Trigger.multipleMutexes],
      (rule.id = .multipleMutexes → find = Trigger.multipleMutexes) ∧
      ∀ profiles content, rule.findings profiles content = profiles.flatMap find := by
  -- Of the seven rules, the analysis evaluates the first two.
  simp only [table, List.mem_cons, List.not_mem_nil, or_false] at member
  rcases member with rfl | rfl | rfl | rfl | rfl | rfl | rfl
  · exact ⟨Trigger.missingUnlockedMethod, by simp, by simp, fun _ _ => rfl⟩
  · exact ⟨Trigger.multipleMutexes, by simp, by simp, fun _ _ => rfl⟩
  all_goals exact absurd inBoth (by decide)

/-- Findings on mutexes are the same for all windows. -/
theorem flatMap_multipleMutexes (other : LockWindow) :
    (Scan.profiles file window code).flatMap Trigger.multipleMutexes =
      (Scan.profiles file other code).flatMap Trigger.multipleMutexes := by
  -- Classes that are left out of a report have no such finding, so all regions can be compared.
  rw [Scan.flatMap_profiles_of_irrelevant fun _ => Trigger.multipleMutexes_irrelevant,
    Scan.flatMap_profiles_of_irrelevant fun _ => Trigger.multipleMutexes_irrelevant]
  exact congrArg (List.flatMap · _) (funext fun _ => Trigger.multipleMutexes_profile other)

/-- Findings on twins in windows are findings in whole classes. -/
theorem flatMap_missingUnlockedMethod :
    ((Scan.profiles file window code).flatMap Trigger.missingUnlockedMethod).Sublist
      ((Scan.profiles file .classBody code).flatMap Trigger.missingUnlockedMethod) := by
  -- As for mutexes, all regions are compared, one with another.
  rw [Scan.flatMap_profiles_of_irrelevant fun _ => Trigger.missingUnlockedMethod_irrelevant,
    Scan.flatMap_profiles_of_irrelevant fun _ => Trigger.missingUnlockedMethod_irrelevant]
  exact List.Sublist.flatMap_right _ fun _ _ => Trigger.missingUnlockedMethod_sublist

/-- A rule of both flavors reports for whole classes whatever it reports for windows. -/
theorem issues_sublist {rule : Rule} (member : rule ∈ table)
    (inBoth : Flavor.analyze.includes rule.id = true) (settings : RuleSettings) :
    (issues .check settings file (Scan.profiles file window code) content rule).Sublist
      (issues .analyze settings file (Scan.profiles file .classBody code) content rule) := by
  -- Only two rules are in both flavors, and each compares windows in its own way.
  have found : (rule.findings (Scan.profiles file window code) content).Sublist
      (rule.findings (Scan.profiles file .classBody code) content) := by
    obtain ⟨find, which, -, findings⟩ := findings_of_includes member inBoth
    rw [findings, findings]
    simp only [List.mem_cons, List.not_mem_nil, or_false] at which
    rcases which with rfl | rfl
    · exact flatMap_missingUnlockedMethod
    · rw [flatMap_multipleMutexes .classBody]
  unfold issues
  rw [inBoth, show Flavor.check.includes rule.id = true from rfl]
  -- If the rule is on, issues are made of findings one by one.
  split
  · exact found.map _
  · exact List.Sublist.refl _

/-- The rule on mutexes reports the same for all windows and in both flavors. -/
theorem issues_multipleMutexes {rule : Rule} (member : rule ∈ table)
    (mutexes : rule.id = .multipleMutexes) (settings : RuleSettings) :
    issues .check settings file (Scan.profiles file window code) content rule =
      issues .analyze settings file (Scan.profiles file .classBody code) content rule := by
  -- The rule is in both flavors, so whether it is on is the same question.
  have inBoth : Flavor.analyze.includes rule.id = true := by
    rw [mutexes]
    rfl
  obtain ⟨find, -, which, findings⟩ := findings_of_includes member inBoth
  unfold issues
  rw [findings, findings, which mutexes, flatMap_multipleMutexes .classBody, inBoth,
    show Flavor.check.includes rule.id = true from rfl]

end Rule

/--
Whole class bodies show what windows show.

Under the same options, every issue that a check reports for methods without a twin and for
classes with several mutexes is reported by an analysis too, in the same order. Issues about
mutexes are the same in both, and the classes of a check are among those of an analysis.
-/
theorem SourceFile.analyze_covers_check (name : String) (text : List Char) (options : RunOptions) :
    let file := SourceFile.ofText name text options.blank
    let run (flavor : Flavor) :=
      file.check { options with flavor := flavor }.window flavor options.rules
    (issuesOf [.missingUnlockedMethod, .multipleMutexes] (run .check).issues).Sublist
      (run .analyze).issues ∧
    issuesOf [.multipleMutexes] (run .check).issues =
      issuesOf [.multipleMutexes] (run .analyze).issues ∧
    ((run .check).classes.map fun p => (p.name, p.startLine)).Sublist
      ((run .analyze).classes.map fun p => (p.name, p.startLine)) := by
  intro file run
  -- An ignored file has no classes and no issues in either flavor.
  by_cases ignored : isIgnored file.text = true
  · simp [run, check, ignored, issuesOf]
  · simp only [run, check, if_neg ignored, RunOptions.window]
    refine ⟨?_, ?_, Scan.profiles_sublist file.code⟩
    · -- Rule by rule: those of both flavors are covered, the others are left out.
      rw [Rule.issuesOf_evaluate, Rule.evaluate_eq_flatMap]
      refine List.Sublist.flatMap_right _ fun rule member => ?_
      split
      · rename_i asked
        exact Rule.issues_sublist member (by simpa [Flavor.includes] using asked) options.rules
      · exact List.nil_sublist _
    · -- The rule on mutexes reports the same in both flavors, and the others are not asked for.
      rw [Rule.issuesOf_evaluate, Rule.issuesOf_evaluate]
      refine List.flatMap_congr fun rule member => ?_
      split
      · rename_i asked
        exact Rule.issues_multipleMutexes member (List.mem_singleton.mp asked) options.rules
      · rfl

end LockDiscipline
