import LockDiscipline.Proofs.Rule.Evaluate

/-! Settings leave out and relabel what the rules report, and change nothing else. -/

namespace LockDiscipline

namespace RuleSettings

/-- Whether settings switch off the rule that an issue names. -/
def silences (s : RuleSettings) (issue : Issue) : Bool :=
  s.disabled.any (·.name == issue.rule)

/-- An issue with the severity that settings give to the rule it names, if they give one. -/
def relabel (s : RuleSettings) (issue : Issue) : Issue :=
  match s.levels.find? (·.1.name == issue.rule) with
  | some (_, severity) => { issue with severity }
  | none => issue

/-- Rules have equal names exactly if they are equal. -/
theorem name_beq (id other : RuleId) : (id.name == other.name) = (id == other) := by
  -- Names tell rules apart, so both tests ask the same.
  rw [Bool.eq_iff_iff, beq_iff_eq, beq_iff_eq]
  exact ⟨RuleId.eq_of_name_eq, congrArg RuleId.name⟩

/-- An issue is silenced exactly if its rule is switched off. -/
theorem silences_toIssue (s : RuleSettings) (id : RuleId) (severity : Severity) (file : String)
    (f : Finding) : s.silences (Rule.toIssue id severity file f) = !s.isEnabled id := by
  -- An issue carries the name of its rule, and no two rules have one name.
  simp only [silences, Rule.toIssue, name_beq, isEnabled, Bool.not_not, List.contains_eq_any_beq]
  congr 1
  funext other
  exact BEq.comm

/-- An issue is relabelled to the level of its rule. -/
theorem relabel_toIssue (s : RuleSettings) (id : RuleId) (severity : Severity) (file : String)
    (f : Finding) :
    s.relabel (Rule.toIssue id severity file f) =
      Rule.toIssue id ((s.level? id).getD severity) file f := by
  -- The first level for the rule counts, whether it is looked up by name or by rule.
  have looked : s.levels.find? (·.1.name == id.name) =
      (s.level? id).map fun level => (id, level) := by
    unfold level?
    induction s.levels with
    | nil => rfl
    | cons entry rest ih =>
      obtain ⟨other, level⟩ := entry
      rw [List.find?_cons, List.lookup_cons, name_beq, BEq.comm, ih]
      cases same : id == other with
      | true => rw [eq_of_beq same]; rfl
      | false => rfl
  show (match s.levels.find? (·.1.name == id.name) with
    | some (_, severity) => { Rule.toIssue id _ file f with severity }
    | none => Rule.toIssue id severity file f) = _
  -- Without a level of its own, an issue keeps that of its rule.
  rw [looked]
  cases s.level? id <;> rfl

end RuleSettings

namespace Rule

variable {file : String} {profiles : List ClassProfile} {content : FileLines}

/-- A rule reports under settings what they let through of what it reports by default. -/
theorem issues_check_settings (settings : RuleSettings) (rule : Rule) :
    issues .check settings file profiles content rule =
      ((issues .check {} file profiles content rule).filter fun issue =>
        !settings.silences issue).map settings.relabel := by
  -- By default every rule is on, and its own severity counts.
  have byDefault : issues .check {} file profiles content rule =
      (rule.findings profiles content).map (toIssue rule.id rule.severity file) := rfl
  -- All issues of a rule stand or fall together.
  have together : ((fun issue => !settings.silences issue) ∘ toIssue rule.id rule.severity file) =
      fun _ => settings.isEnabled rule.id := by
    funext f
    rw [Function.comp_apply, RuleSettings.silences_toIssue, Bool.not_not]
  have relabelled : settings.relabel ∘ toIssue rule.id rule.severity file =
      toIssue rule.id ((settings.level? rule.id).getD rule.severity) file :=
    funext fun f => RuleSettings.relabel_toIssue settings rule.id rule.severity file f
  rw [byDefault, List.filter_map, together, List.map_map, relabelled, issues]
  cases settings.isEnabled rule.id with
  | true => rw [List.filter_eq_self.mpr fun _ _ => rfl]; rfl
  | false => rw [List.filter_eq_nil_iff.mpr fun _ _ => Bool.false_ne_true]; rfl

/-- An analysis evaluates two rules, and these as a check does. -/
theorem issues_analyze (settings : RuleSettings) (rule : Rule) :
    issues .analyze settings file profiles content rule =
      if rule.id ∈ [RuleId.missingUnlockedMethod, .multipleMutexes] then
        issues .check settings file profiles content rule
      else [] := by
  -- Being in the flavor is being one of these two rules.
  have included : Flavor.analyze.includes rule.id =
      decide (rule.id ∈ [RuleId.missingUnlockedMethod, .multipleMutexes]) := by
    simp [Flavor.includes]
  by_cases asked : rule.id ∈ [RuleId.missingUnlockedMethod, .multipleMutexes]
  · rw [if_pos asked, issues, included, decide_eq_true asked]
    rfl
  · rw [if_neg asked, issues, included, decide_eq_false asked]
    rfl

/--
Settings act on reports only as a filter and a relabelling.

What a check reports under any settings is what it reports by default, without the issues of the
rules that are switched off, and with the levels that are set in place of the default severities.
An analysis reports the part of it that is about methods without a twin and about several mutexes.
Hence no rule depends on another one being on.
-/
theorem evaluate_governed (settings : RuleSettings) (file : String) (profiles : List ClassProfile)
    (content : FileLines) :
    let governed := ((evaluate .check {} file profiles content).filter fun issue =>
      !settings.silences issue).map settings.relabel
    evaluate .check settings file profiles content = governed ∧
      evaluate .analyze settings file profiles content =
        issuesOf [.missingUnlockedMethod, .multipleMutexes] governed := by
  intro governed
  -- The table is gone through once for both, and filter and relabelling act rule by rule.
  have check : evaluate .check settings file profiles content = governed := by
    simp only [governed, evaluate_eq_flatMap, List.filter_flatMap, List.map_flatMap]
    exact congrArg (List.flatMap · table) (funext (issues_check_settings settings))
  refine ⟨check, ?_⟩
  rw [← check, issuesOf_evaluate, evaluate_eq_flatMap]
  exact congrArg (List.flatMap · table) (funext (issues_analyze settings))

end Rule

end LockDiscipline
