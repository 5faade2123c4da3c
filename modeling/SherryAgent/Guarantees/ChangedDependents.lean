import SherryAgent.Contracts.Taskflow.Dependents

/-!
# What a replan invalidates

- `dependents_iff`: the ids found are those of the steps that depend on a changed one exactly when
  every changed step that names a changed one also reaches an unchanged step that names one
- `changed_dependent_missed`: a changed step that names a changed one is left out
-/

namespace SherryAgent.Guarantees.ChangedDependents

open SherryAgent.Library.Walks SherryAgent.Source.Taskflow SherryAgent.Contracts.Taskflow

/-- The step depends on a changed one, directly or through others. -/
def Affected (steps : List Step) (changed : List String) (stepId : String) : Prop :=
  ∃ root ∈ changed, Relation.TransGen (StepDepends steps) stepId root

/-- The step names a changed one among its dependencies. -/
def NamesChanged (steps : List Step) (changed : List String) (stepId : String) : Prop :=
  ∃ root ∈ changed, StepDepends steps stepId root

/-- A changed step that names a changed one also depends on an unchanged step that does. -/
def Detoured (steps : List Step) (changed : List String) : Prop :=
  ∀ stepId ∈ changed, NamesChanged steps changed stepId →
    ∃ between, between ∉ changed ∧ NamesChanged steps changed between ∧
      Relation.TransGen (StepDepends steps) stepId between

variable {steps : List Step} {changed : List String} {stepId : String}

theorem affected_of_enters
    (enters : Enters (StepDepends steps) {found | found ∈ changed} stepId) :
    Affected steps changed stepId := by
  obtain ⟨root, member, walk⟩ := enters.transGen
  exact ⟨root, member, walk⟩

/-- An unchanged step that depends on a changed one is found. -/
theorem enters_of_unchanged (unchanged : stepId ∉ changed)
    (affected : Affected steps changed stepId) :
    Enters (StepDepends steps) {found | found ∈ changed} stepId := by
  obtain ⟨root, member, walk⟩ := affected
  exact enters_of_transGen walk member unchanged

/-- A changed step that reaches an unchanged one naming a changed one is found. -/
theorem enters_of_detour {between : String} (unchanged : between ∉ changed)
    (names : NamesChanged steps changed between)
    (walk : Relation.ReflTransGen (StepDepends steps) stepId between) :
    Enters (StepDepends steps) {found | found ∈ changed} stepId := by
  obtain ⟨root, member, enter⟩ := names
  exact ⟨between, unchanged, walk, root, member, enter⟩

theorem enters_of_detoured (detoured : Detoured steps changed)
    (affected : Affected steps changed stepId) :
    Enters (StepDepends steps) {found | found ∈ changed} stepId := by
  by_cases inside : stepId ∈ changed
  · obtain ⟨root, member, walk⟩ := affected
    obtain ⟨next, step, rest⟩ := Relation.TransGen.head'_iff.mp walk
    by_cases again : next ∈ changed
    · obtain ⟨between, unchanged, names, through⟩ := detoured stepId inside ⟨next, again, step⟩
      exact enters_of_detour unchanged names through.to_reflTransGen
    · have onwards : Affected steps changed next := by
        cases Relation.reflTransGen_iff_eq_or_transGen.mp rest with
        | inl same => exact absurd (same ▸ member) again
        | inr walk => exact ⟨root, member, walk⟩
      exact (enters_of_unchanged again onwards).head step
  · exact enters_of_unchanged inside affected

theorem detoured_of_enters
    (found : ∀ stepId, Affected steps changed stepId →
      Enters (StepDepends steps) {found | found ∈ changed} stepId) :
    Detoured steps changed := by
  intro stepId inside names
  obtain ⟨root, member, step⟩ := names
  obtain ⟨between, unchanged, walk, names⟩ := found stepId ⟨root, member, .single step⟩
  apply Exists.intro between
  cases Relation.reflTransGen_iff_eq_or_transGen.mp walk with
  | inl same => exact absurd inside (same ▸ unchanged)
  | inr walk => exact ⟨unchanged, names, walk⟩

/-- Exactly the affected steps are returned if and only if every changed step that names a changed
one has such a detour. -/
theorem dependents_iff (steps : List Step) (changed : List String) :
    (∀ stepId, stepId ∈ transitiveDependents steps changed ↔ Affected steps changed stepId) ↔
      Detoured steps changed := by
  simp only [mem_transitiveDependents]
  constructor
  · intro exactly
    exact detoured_of_enters fun stepId affected => (exactly stepId).mpr affected
  · intro detoured stepId
    exact ⟨affected_of_enters, enters_of_detoured detoured⟩

/-- Two changed steps, the second naming the first. -/
def replanned : List Step :=
  [newStep "a" "collect" [] .ready, newStep "b" "report" ["a"] .blocked]

/-- The second depends on the first, and only its own change hides that. -/
theorem changed_dependent_missed :
    ¬(∀ stepId, stepId ∈ transitiveDependents replanned ["a", "b"] ↔
      Affected replanned ["a", "b"] stepId) := by
  intro same
  have missed : "b" ∉ transitiveDependents replanned ["a", "b"] := by decide
  apply missed
  rw [same]
  exact ⟨"a", by decide, .single ⟨by decide, newStep "b" "report" ["a"] .blocked,
    by simp [replanned], rfl, by simp [newStep]⟩⟩

end SherryAgent.Guarantees.ChangedDependents
