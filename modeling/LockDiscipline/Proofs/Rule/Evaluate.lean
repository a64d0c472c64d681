import LockDiscipline.Rule.Table

/-! The issues of an evaluation, sorted back to the rules that report them. -/

namespace LockDiscipline

/-- Rules are told apart by their names. -/
theorem RuleId.eq_of_name_eq {id other : RuleId} (same : id.name = other.name) : id = other := by
  -- The names are literals, compared pair by pair.
  cases id <;> cases other <;> first | rfl | exact absurd same (by decide)

/-- The issues that come from given rules, in their order. -/
def issuesOf (ids : List RuleId) (issues : List Issue) : List Issue :=
  issues.filter fun issue => (ids.map RuleId.name).contains issue.rule

namespace Rule

/-- The issues of one rule in a file, empty if the rule is not evaluated. -/
def issues (flavor : Flavor) (settings : RuleSettings) (file : String)
    (profiles : List ClassProfile) (content : FileLines) (rule : Rule) : List Issue :=
  if flavor.includes rule.id && settings.isEnabled rule.id then
    (rule.findings profiles content).map
      (toIssue rule.id ((settings.level? rule.id).getD rule.severity) file)
  else []

variable {flavor : Flavor} {settings : RuleSettings} {file : String}
  {profiles : List ClassProfile} {content : FileLines}

/-- An evaluation goes through the whole table; rules that are not evaluated add nothing. -/
theorem evaluate_eq_flatMap :
    evaluate flavor settings file profiles content =
      table.flatMap (issues flavor settings file profiles content) := by
  -- Rules that are filtered out and rules with nothing to report look the same.
  unfold evaluate active
  induction table with
  | nil => rfl
  | cons rule rest ih =>
    rw [List.flatMap_cons, ← ih, issues, List.filter_cons]
    split <;> simp

/-- Every issue of a rule is a finding of it. -/
theorem exists_finding {rule : Rule} {issue : Issue}
    (member : issue ∈ issues flavor settings file profiles content rule) :
    ∃ finding ∈ rule.findings profiles content,
      issue = toIssue rule.id ((settings.level? rule.id).getD rule.severity) file finding := by
  -- A rule that is off, or not of the flavor, reports nothing.
  unfold issues at member
  split at member
  · obtain ⟨finding, found, rfl⟩ := List.mem_map.mp member
    exact ⟨finding, found, rfl⟩
  · simp at member

/-- Of the issues of one rule, the issues of given rules are all or none. -/
theorem issuesOf_issues (ids : List RuleId) (rule : Rule) :
    issuesOf ids (issues flavor settings file profiles content rule) =
      if rule.id ∈ ids then issues flavor settings file profiles content rule else [] := by
  -- The rule of every issue is the name of the rule that reports it.
  have named : ∀ issue ∈ issues flavor settings file profiles content rule,
      (ids.map RuleId.name).contains issue.rule = decide (rule.id ∈ ids) := by
    intro issue member
    obtain ⟨finding, -, rfl⟩ := exists_finding member
    rw [List.contains_eq_mem, decide_eq_decide, List.mem_map]
    constructor
    · rintro ⟨id, inside, same⟩
      exact RuleId.eq_of_name_eq same ▸ inside
    · exact fun inside => ⟨rule.id, inside, rfl⟩
  rw [issuesOf, List.filter_congr named]
  split <;> simp [*]

/-- The issues of given rules are what these rules report, in the order of the table. -/
theorem issuesOf_evaluate (ids : List RuleId) :
    issuesOf ids (evaluate flavor settings file profiles content) = table.flatMap fun rule =>
      if rule.id ∈ ids then issues flavor settings file profiles content rule else [] := by
  -- Every issue carries the name of its rule, so whole rules are kept or dropped.
  rw [evaluate_eq_flatMap, issuesOf, List.filter_flatMap]
  exact congrArg (List.flatMap · table) (funext fun rule => issuesOf_issues ids rule)

end Rule

end LockDiscipline
