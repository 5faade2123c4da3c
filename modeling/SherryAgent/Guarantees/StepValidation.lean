import SherryAgent.Contracts.Taskflow.Validation

/-!
# `validate_steps_list`

* `validate_steps_list_spec` — exactly the well-formed lists without a dependency cycle are
  accepted, and a reported cycle is a closed walk of the dependencies.
-/

namespace SherryAgent.Guarantees.StepValidation

open SherryAgent.Source SherryAgent.Source.Taskflow SherryAgent.Contracts.Taskflow
open SherryAgent.Library.Walks

variable {index : Nat} {seen : List String} {step : Json} {steps : List Json} {text : String}

/-! ## The reported cycle -/

/-- The two letters that tell a report of a cycle from the other errors. -/
def letters (text : String) : List Char := (text.toList.drop 7).take 2

theorem letters_statusError (stepId : String) (status : Json) :
    letters (statusError stepId status) ≠ ['d', 'e'] := by
  cases status <;> simp [statusError, letters, toString]

theorem letters_stepError (failed : stepError index seen step = some text) :
    letters text ≠ ['d', 'e'] := by
  unfold stepError at failed
  split at failed
  · have result := Option.some.inj failed
    simp [← result, letters, toString]
  · split at failed
    · have result := Option.some.inj failed
      simp [← result, letters, toString]
    · split at failed
      · have result := Option.some.inj failed
        simp [← result, letters, toString]
      · split at failed
        · have result := Option.some.inj failed
          simp [← result, letters, toString]
        · split at failed
          · have result := Option.some.inj failed
            rw [← result]
            exact letters_statusError _ _
          · split at failed
            · split at failed
              · rename_i refused
                have result := Option.some.inj failed
                rw [result] at refused
                obtain ⟨item, -, here⟩ := List.exists_of_findSome?_eq_some refused
                unfold dependencyError at here
                split at here
                · have result := Option.some.inj here
                  simp [← result, letters, toString]
                · split at here
                  · have result := Option.some.inj here
                    simp [← result, letters, toString]
                  · cases here
              · split at failed
                · split at failed
                  · split at failed
                    · cases failed
                    · have result := Option.some.inj failed
                      simp [← result, letters, toString]
                  · have result := Option.some.inj failed
                    simp [← result, letters, toString]
                · cases failed
            · have result := Option.some.inj failed
              simp [← result, letters, toString]

theorem letters_validateEach (failed : validateEach index seen steps = .inl text) :
    letters text ≠ ['d', 'e'] := by
  induction steps generalizing index seen with
  | nil => cases failed
  | cons step rest ih =>
    rw [validateEach] at failed
    split at failed
    · rename_i refused
      rw [← Sum.inl.inj failed]
      exact letters_stepError refused
    · exact ih failed

theorem closedWalk_of_report
    (reported : validateStepsList steps = some ("Error: dependency cycle: " ++ text)) :
    ∃ cycle, text = " -> ".intercalate cycle ∧ ClosedWalk (DependsOn steps) cycle := by
  have named : letters ("Error: dependency cycle: " ++ text) = ['d', 'e'] := by
    simp [letters]
  unfold validateStepsList at reported
  cases each : validateEach 0 [] steps with
  | inl error =>
    rw [each] at reported
    rw [← Option.some.inj reported] at named
    exact absurd named (letters_validateEach each)
  | inr seen =>
    obtain ⟨-, unique, ids⟩ := (validateEach_iff List.nodup_nil).mp each
    rw [List.nil_append] at unique ids
    subst ids
    rw [each] at reported
    dsimp only at reported
    cases unknown : steps.findSome? _ with
    | some pair =>
      rw [unknown] at reported
      rw [← Option.some.inj reported] at named
      simp [letters, toString] at named
    | none =>
      rw [unknown] at reported
      dsimp only at reported
      have closed := closed_graphOf unique (known_iff.mp unknown)
      cases found : findDependencyCycle (graphOf steps) with
      | none =>
        unfold graphOf at found
        rw [found] at reported
        cases reported
      | some cycle =>
        have walked := closedWalk_of_cycle closed found
        have edges : Needs (graphOf steps) = DependsOn steps := by
          funext node dep
          exact propext (needs_iff unique)
        rw [edges] at walked
        unfold graphOf at found
        rw [found] at reported
        have result := Option.some.inj reported
        refine ⟨cycle, ?_, walked⟩
        exact (String.append_right_inj _).mp result.symm

/-- Exactly the well-formed lists whose dependencies are acyclic are accepted; a reported
cycle is a closed walk of the dependencies. -/
theorem validate_steps_list_spec (steps : List Json) :
    (validateStepsList steps = none ↔ WellFormed steps ∧ Acyclic (DependsOn steps)) ∧
      ∀ text, validateStepsList steps = some ("Error: dependency cycle: " ++ text) →
        ∃ cycle, text = " -> ".intercalate cycle ∧ ClosedWalk (DependsOn steps) cycle :=
  ⟨validateStepsList_none_iff, fun _ reported => closedWalk_of_report reported⟩

end SherryAgent.Guarantees.StepValidation
