import SherryAgent.Library.Walks
import SherryAgent.Source.Taskflow.Tools.Planning

/-!
# The level-by-level search of `_transitive_dependents`

Every level but the last adds the id of a step that was not found before, so the loop ends with an
empty level, and the ids found are those that enter the changed ones from outside.
-/

namespace SherryAgent.Contracts.Taskflow

open SherryAgent.Source.Taskflow SherryAgent.Library.Walks

/-- A step with this id names the dependency. No one can ask for a step without an id. -/
def StepDepends (steps : List Step) (stepId dep : String) : Prop :=
  stepId ≠ "" ∧ ∃ step ∈ steps, step.stepId = stepId ∧ dep ∈ step.dependsOn

variable {steps : List Step} {changed invalidated frontier : List String} {stepId : String}
  {fuel : Nat}

theorem mem_dependentsOf : stepId ∈ dependentsOf steps invalidated frontier ↔
    (stepId ∉ invalidated ∧ stepId ∉ frontier) ∧ ∃ dep ∈ frontier, StepDepends steps stepId dep := by
  unfold dependentsOf StepDepends
  rw [List.mem_eraseDups, List.mem_map]
  constructor
  · intro listed
    obtain ⟨step, member, rfl⟩ := listed
    simp only [List.mem_filter, Bool.and_eq_true, Bool.not_eq_true', bne_iff_ne, ne_eq,
      List.any_eq_true, List.contains_eq_mem, decide_eq_false_iff_not,
      decide_eq_true_eq] at member
    obtain ⟨inside, ⟨⟨named, unfound⟩, fresh⟩, dep, needs, looked⟩ := member
    exact ⟨⟨unfound, fresh⟩, dep, looked, named, step, inside, rfl, needs⟩
  · intro found
    obtain ⟨⟨unfound, fresh⟩, dep, looked, named, step, inside, rfl, needs⟩ := found
    apply Exists.intro step
    simp only [List.mem_filter, Bool.and_eq_true, Bool.not_eq_true', bne_iff_ne, ne_eq,
      List.any_eq_true, List.contains_eq_mem, decide_eq_false_iff_not,
      decide_eq_true_eq, and_true]
    exact ⟨inside, ⟨⟨named, unfound⟩, fresh⟩, dep, needs, looked⟩

/-- The steps whose ids are still to be found. -/
def unfound (steps : List Step) (invalidated : List String) : Nat :=
  (steps.filter fun step => !invalidated.contains step.stepId).length

theorem unfound_append_lt (level : stepId ∈ dependentsOf steps invalidated frontier) :
    unfound steps (invalidated ++ dependentsOf steps invalidated frontier) <
      unfound steps invalidated := by
  obtain ⟨⟨fresh, -⟩, dep, -, -, step, member, rfl, -⟩ := mem_dependentsOf.mp level
  have shrinks : (steps.filter fun step => !(invalidated ++
        dependentsOf steps invalidated frontier).contains step.stepId) =
      (steps.filter fun step => !invalidated.contains step.stepId).filter fun step =>
        !(dependentsOf steps invalidated frontier).contains step.stepId := by
    rw [List.filter_filter]
    apply List.filter_congr
    intro other _
    rw [List.contains_append, Bool.not_or, Bool.and_comm]
  unfold unfound
  rw [shrinks, List.length_filter_lt_length_iff_exists]
  exact ⟨step, List.mem_filter.mpr ⟨member, by simpa using fresh⟩, by simpa using level⟩

/-- The loop has enough fuel: it is at its end, or more than it can still find. -/
def Enough (steps : List Step) (fuel : Nat) (invalidated frontier : List String) : Prop :=
  frontier = [] ∨ unfound steps invalidated < fuel

theorem Enough.next (enough : Enough steps (fuel + 1) invalidated frontier)
    (looking : frontier ≠ []) :
    Enough steps fuel (invalidated ++ dependentsOf steps invalidated frontier)
      (dependentsOf steps invalidated frontier) := by
  have bound := enough.resolve_left looking
  cases level : dependentsOf steps invalidated frontier with
  | nil => exact .inl rfl
  | cons head rest =>
    right
    have shrinks : unfound steps (invalidated ++ dependentsOf steps invalidated frontier) <
        unfound steps invalidated := @unfound_append_lt _ _ _ head (by simp [level])
    rw [level] at shrinks
    omega

theorem invalidate_succ (enough : Enough steps fuel invalidated frontier) :
    invalidate steps (fuel + 1) invalidated frontier =
      invalidate steps fuel invalidated frontier := by
  induction fuel generalizing invalidated frontier with
  | zero =>
    have ended : frontier = [] := enough.resolve_right (by omega)
    simp [invalidate, ended]
  | succ fuel ih =>
    by_cases ended : frontier = []
    · simp [invalidate, ended]
    · rw [invalidate, if_neg (by simpa using ended), ih (enough.next ended)]
      conv_rhs => rw [invalidate, if_neg (by simpa using ended)]

/-- The rule for the loop: once the search stands at some level, the ids it ends with are those
that enter the roots. -/
theorem mem_invalidate {roots : Set String}
    (levels : Levels (StepDepends steps) roots {found | found ∈ invalidated}
      {looked | looked ∈ frontier})
    (enough : Enough steps fuel invalidated frontier) :
    stepId ∈ invalidate steps fuel invalidated frontier ↔
      Enters (StepDepends steps) roots stepId := by
  induction fuel generalizing invalidated frontier with
  | zero =>
    have ended : frontier = [] := enough.resolve_right (by omega)
    subst ended
    have complete : Levels (StepDepends steps) roots {found | found ∈ invalidated} ∅ := by
      simpa using levels
    exact complete.complete
  | succ fuel ih =>
    rw [invalidate]
    split
    · rename_i ended
      rw [List.isEmpty_iff] at ended
      subst ended
      have complete : Levels (StepDepends steps) roots {found | found ∈ invalidated} ∅ := by
        simpa using levels
      exact complete.complete
    · rename_i looking
      apply ih _ (enough.next (by simpa using looking))
      have level : {found | found ∈ dependentsOf steps invalidated frontier} =
          {found | found ∉ {found | found ∈ invalidated} ∧
            ∃ dep ∈ {looked | looked ∈ frontier}, StepDepends steps found dep} := by
        ext found
        rw [Set.mem_ofPred_eq, mem_dependentsOf]
        constructor
        · intro listed
          exact ⟨listed.1.1, listed.2⟩
        · intro listed
          exact ⟨⟨listed.1, fun looked => listed.1 (levels.latest looked)⟩, listed.2⟩
      have all : {found | found ∈ invalidated ++ dependentsOf steps invalidated frontier} =
          {found | found ∈ invalidated} ∪
            {found | found ∈ dependentsOf steps invalidated frontier} := by
        ext found
        exact List.mem_append
      rw [all, level]
      exact levels.next

theorem enough_first : Enough steps (steps.length + 1)
    (dependentsOf steps [] changed) (dependentsOf steps [] changed) := by
  right
  have bound : unfound steps (dependentsOf steps [] changed) ≤ steps.length :=
    List.length_filter_le _ _
  omega

/-- What the loop finds: the steps from which a chain of dependencies enters the changed ones from
outside. -/
theorem mem_transitiveDependents : stepId ∈ transitiveDependents steps changed ↔
    Enters (StepDepends steps) {found | found ∈ changed} stepId := by
  have level : {found | found ∈ dependentsOf steps [] changed} =
      {found | found ∉ {found | found ∈ changed} ∧
        ∃ dep ∈ {found | found ∈ changed}, StepDepends steps found dep} := by
    ext found
    simp [mem_dependentsOf]
  unfold transitiveDependents
  rw [invalidate]
  split
  · rename_i unchanged
    rw [List.isEmpty_iff] at unchanged
    subst unchanged
    constructor
    · intro none
      cases none
    · intro enters
      obtain ⟨-, -, -, root, none, -⟩ := enters
      cases none
  · dsimp only
    rw [List.nil_append]
    apply mem_invalidate _ enough_first
    rw [level]
    exact Levels.first

/-- The fuel is no bound: with more of it the loop returns the same ids. -/
theorem invalidate_of_le (extra : Nat) :
    invalidate steps (steps.length + 2 + extra) [] changed =
      transitiveDependents steps changed := by
  have enough : ∀ extra, Enough steps (steps.length + 2 + extra) [] changed := by
    intro extra
    right
    have bound : unfound steps [] ≤ steps.length := List.length_filter_le _ _
    omega
  induction extra with
  | zero => rfl
  | succ extra ih => rw [← Nat.add_assoc, invalidate_succ (enough extra), ih]

end SherryAgent.Contracts.Taskflow
