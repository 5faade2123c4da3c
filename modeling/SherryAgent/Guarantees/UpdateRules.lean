import SherryAgent.Contracts.Taskflow.Validation

/-!
# The merge rules of `taskflow_update_steps`

A caller that rewrites the step list must not invent execution states. For a dispatched step
`_merge_steps` only refuses `ready` and `blocked`.

* `states_earned_iff` — an accepted list has no invented state exactly when it leaves every
  dispatched step dispatched.
* `dispatched_step_completed` — a running step is set to done without a result.
-/

namespace SherryAgent.Guarantees.UpdateRules

open SherryAgent.Source SherryAgent.Source.Taskflow SherryAgent.Contracts.Taskflow
open SherryAgent.Library.KeyedList

variable {existing : List Step} {old new merged : Step} {steps : List Json}

/-- The child of the stored step, which the merged one keeps. -/
def childOf (old : Step) : String := PyText.strip (old.childSessionKey.getD "")

/-- The execution state of a merged step is the one its stored step had. Task, dependencies and
child key are compared without the white space around them: the tool strips what it is given, and
the stored texts where it holds them against it. -/
def Earned (existing : List Step) (step : Step) : Prop :=
  match stepStatus step with
  | .ready | .blocked => True
  | .dispatched => ∃ old, byId existing step.stepId = some old ∧ stepStatus old = .dispatched ∧
      step.childSessionKey = some (childOf old)
  | .done => ∃ old, byId existing step.stepId = some old ∧ stepStatus old = .done ∧
      step.task = PyText.strip old.task ∧
      (∀ dep, dep ∈ step.dependsOn ↔ dep ∈ old.dependsOn.map PyText.strip) ∧
      step.childSessionKey = some (childOf old)
  | _ => False

/-- Every step that is dispatched stays so. -/
def KeepsDispatched (existing : List Step) (steps : List Json) : Prop :=
  ∀ step ∈ steps, ∀ old, byId existing (Json.stepId step) = some old →
    stepStatus old = .dispatched → step.get "status" = .str "dispatched"

/-! ## One step -/

/-- A validated step carries the status its text names. -/
theorem normalizeStep_status {step : Json} (well : WellFormedStep step) :
    ∃ text status, step.get "status" = .str text ∧ StepStatus.ofValue text = some status ∧
      (normalizeStep step).status = some status := by
  obtain ⟨text, given, named⟩ := well.status
  obtain ⟨status, named⟩ := Option.isSome_iff_exists.mp named
  refine ⟨text, status, given, named, ?_⟩
  simp only [normalizeStep, given]
  exact named

theorem normalizeStep_stepId {step : Json} (well : WellFormedStep step) :
    (normalizeStep step).stepId = Json.stepId step := by
  have filled := well.stepId
  unfold Filled at filled
  simp only [normalizeStep, Json.stepId]
  cases value : step.get "step_id" with
  | str text =>
    rw [value] at filled
    simp only [Json.nonBlank] at filled ⊢
    split at filled
    · cases filled
    · rename_i named
      simp [named, Json.pyStr]
  | _ =>
    rw [value] at filled
    cases filled

theorem retained (kept : retainChildKey old new = .ok merged)
    (running : stepStatus old = .dispatched ∨ stepStatus old = .done) :
    merged = { new with childSessionKey := some (childOf old) } := by
  unfold retainChildKey at kept
  rcases running with status | status <;>
  · rw [status] at kept
    dsimp only at kept
    split at kept
    · cases kept
    · split at kept
      · cases kept
      · exact (Except.ok.inj kept).symm

/-- What an accepted step becomes, by the state of the stored one. -/
theorem mergeStep_cases (accepted : mergeStep existing new = .ok merged) :
    (merged = new ∧ (stepStatus new).structural = true) ∨
    (∃ old, byId existing new.stepId = some old ∧ stepStatus old = .dispatched ∧
      (stepStatus new).structural = false ∧
      merged = { new with childSessionKey := some (childOf old) }) ∨
    (∃ old, byId existing new.stepId = some old ∧ stepStatus old = .done ∧
      stepStatus new = .done ∧ new.task = PyText.strip old.task ∧
      new.dependsOn.Perm (old.dependsOn.map PyText.strip) ∧
      merged = { new with childSessionKey := some (childOf old) }) := by
  unfold mergeStep at accepted
  cases found : byId existing new.stepId with
  | none =>
    rw [found] at accepted
    dsimp only at accepted
    split at accepted
    · rename_i structural
      exact .inl ⟨(Except.ok.inj accepted).symm, structural⟩
    · cases accepted
  | some old =>
    rw [found] at accepted
    dsimp only at accepted
    cases rules : mergeRules old new with
    | some text =>
      rw [rules] at accepted
      cases accepted
    | none =>
      rw [rules] at accepted
      dsimp only at accepted
      unfold mergeRules at rules
      dsimp only at rules
      cases status : stepStatus old with
      | dispatched =>
        rw [status] at rules
        dsimp only at rules
        split at rules
        · cases rules
        · rename_i executing
          exact .inr (.inl ⟨old, rfl, status, by simpa using executing,
            retained accepted (.inl status)⟩)
      | done =>
        rw [status] at rules
        dsimp only at rules
        split at rules
        · cases rules
        · rename_i done
          split at rules
          · cases rules
          · rename_i task
            split at rules
            · cases rules
            · rename_i deps
              have sorted := not_not.mp deps
              have perm : new.dependsOn.Perm (old.dependsOn.map PyText.strip) := by
                have first := List.mergeSort_perm new.dependsOn fun a b => decide (a ≤ b)
                rw [sorted] at first
                exact first.symm.trans (List.mergeSort_perm _ _)
              exact .inr (.inr ⟨old, rfl, status, not_not.mp done, not_not.mp task, perm,
                retained accepted (.inr status)⟩)
      | _ =>
        rw [status] at rules
        dsimp only at rules
        split at rules
        · rename_i structural
          have untouched : merged = new := by
            unfold retainChildKey at accepted
            rw [status] at accepted
            exact (Except.ok.inj accepted).symm
          exact .inl ⟨untouched, structural⟩
        · cases rules

/-- A merged step has the status of the incoming one. -/
theorem mergeStep_status {status : StepStatus} (stored : new.status = some status)
    (accepted : mergeStep existing new = .ok merged) :
    stepStatus merged = status ∧ stepStatus new = status := by
  have here := stepStatus_of_some stored
  rcases mergeStep_cases accepted with ⟨same, -⟩ | ⟨_, -, -, -, same⟩ | ⟨_, -, -, -, -, -, same⟩
  · rw [same]
    exact ⟨here, here⟩
  · rw [same]
    exact ⟨stepStatus_of_some stored, here⟩
  · rw [same]
    exact ⟨stepStatus_of_some stored, here⟩

theorem earned_of_keeps {status : StepStatus} (stored : new.status = some status)
    (accepted : mergeStep existing new = .ok merged)
    (keeps : ∀ old, byId existing new.stepId = some old → stepStatus old = .dispatched →
      status = .dispatched) : Earned existing merged := by
  obtain ⟨outcome, given⟩ := mergeStep_status stored accepted
  have sameId := mergeStep_stepId accepted
  unfold Earned
  rcases mergeStep_cases accepted with ⟨-, structural⟩ | ⟨old, found, running, -, same⟩ |
    ⟨old, found, done, stays, task, deps, same⟩
  · rw [given] at structural
    rw [outcome]
    cases status with
    | ready | blocked => trivial
    | _ => cases structural
  · rw [outcome, keeps old found running]
    refine ⟨old, by rw [sameId]; exact found, running, ?_⟩
    rw [same]
  · rw [given] at stays
    rw [outcome, stays]
    refine ⟨old, by rw [sameId]; exact found, done, ?_, ?_, ?_⟩
    · rw [same]
      exact task
    · rw [same]
      exact fun dep => deps.mem_iff
    · rw [same]

theorem dispatched_of_earned {status : StepStatus} (stored : new.status = some status)
    (accepted : mergeStep existing new = .ok merged) (earned : Earned existing merged)
    (found : byId existing new.stepId = some old) (running : stepStatus old = .dispatched) :
    status = .dispatched := by
  obtain ⟨outcome, given⟩ := mergeStep_status stored accepted
  have sameId := mergeStep_stepId accepted
  rcases mergeStep_cases accepted with ⟨same, structural⟩ | ⟨_, found', -, executing, -⟩ |
    ⟨other, found', done, -⟩
  · -- a dispatched step cannot become ready or blocked
    have refused : mergeStep existing new ≠ .ok merged := by
      unfold mergeStep
      rw [found]
      simp [mergeRules, running, structural]
    exact absurd accepted refused
  · unfold Earned at earned
    rw [outcome, sameId, found] at earned
    rw [given] at executing
    cases status with
    | dispatched => rfl
    | ready | blocked => cases executing
    | done =>
      obtain ⟨other, same, done, -⟩ := earned
      rw [Option.some.inj same, done] at running
      cases running
    | _ => exact earned.elim
  · rw [found] at found'
    rw [Option.some.inj found', done] at running
    cases running

/-! ## The whole list -/

/-- An accepted replacement has no invented execution state exactly when every step that is
dispatched is given as dispatched. -/
theorem states_earned_iff {existing merged : List Step} {steps : List Json}
    (valid : validateStepsList steps = none)
    (accepted : mergeSteps existing (steps.map normalizeStep) = .ok merged) :
    (∀ step ∈ merged, Earned existing step) ↔ KeepsDispatched existing steps := by
  have well := (validateStepsList_none_iff.mp valid).1
  have related := forall₂_of_mapM accepted
  constructor
  · intro earned step member old found running
    obtain ⟨text, status, given, named, stored⟩ := normalizeStep_status (well.each step member)
    obtain ⟨merged', inside, merges⟩ := exists_of_forall₂ related.flip (List.mem_map_of_mem member)
    rw [← normalizeStep_stepId (well.each step member)] at found
    have dispatched := dispatched_of_earned stored merges (earned merged' inside) found running
    rw [dispatched] at named
    have text' := List.find?_some named
    rw [given, ← beq_iff_eq.mp text']
    rfl
  · intro keeps step member
    obtain ⟨new, inside, merges⟩ := exists_of_forall₂ related member
    obtain ⟨raw, listed, rfl⟩ := List.mem_map.mp inside
    obtain ⟨text, status, given, named, stored⟩ := normalizeStep_status (well.each raw listed)
    apply earned_of_keeps stored merges
    intro old found running
    rw [normalizeStep_stepId (well.each raw listed)] at found
    have text' := keeps raw listed old found running
    rw [given] at text'
    rw [Json.str.inj text'] at named
    exact (Option.some.inj named).symm

/-- A running step. -/
def running : List Step :=
  [{ stepId := "a", task := "t", status := some .dispatched, childSessionKey := some "c" }]

/-- The step as a caller gives it. -/
def given (status : String) : List Json :=
  [.obj [("step_id", .str "a"), ("task", .str "t"), ("depends_on", .arr []),
    ("status", .str status)]]

/-- An accepted list that passes a test. -/
theorem exists_of_test (existing incoming : List Step) (test : List Step → Bool)
    (passes : (match mergeSteps existing incoming with
      | .ok merged => test merged
      | .error _ => false) = true) :
    ∃ merged, mergeSteps existing incoming = .ok merged ∧ test merged = true := by
  cases merges : mergeSteps existing incoming with
  | error text =>
    rw [merges] at passes
    cases passes
  | ok merged =>
    rw [merges] at passes
    exact ⟨merged, rfl, passes⟩

theorem states_earned_running :
    ∃ merged, mergeSteps running ((given "dispatched").map normalizeStep) = .ok merged ∧
      merged.length = 1 ∧ ∀ step ∈ merged, Earned running step := by
  obtain ⟨merged, accepted, one⟩ := exists_of_test running
    ((given "dispatched").map normalizeStep) (fun merged => merged.length == 1) (by decide +kernel)
  have valid : validateStepsList (given "dispatched") = none := by decide +kernel
  have keeps : KeepsDispatched running (given "dispatched") := by
    intro step member _ _ _
    rw [List.mem_singleton.mp member]
    rfl
  exact ⟨merged, accepted, by simpa using one, (states_earned_iff valid accepted).mpr keeps⟩

/-- The caller sets the running step to done; nothing was done before. -/
theorem dispatched_step_completed :
    ∃ merged, validateStepsList (given "done") = none ∧
      mergeSteps running ((given "done").map normalizeStep) = .ok merged ∧
      ¬∀ step ∈ merged, Earned running step := by
  obtain ⟨merged, accepted, done⟩ := exists_of_test running ((given "done").map normalizeStep)
    (fun merged => merged.any fun step => stepStatus step == .done) (by decide +kernel)
  have valid : validateStepsList (given "done") = none := by decide +kernel
  refine ⟨merged, valid, accepted, ?_⟩
  intro earned
  obtain ⟨step, member, status⟩ := List.any_eq_true.mp done
  have earned := earned step member
  unfold Earned at earned
  rw [beq_iff_eq.mp status] at earned
  obtain ⟨old, found, done, -⟩ := earned
  rw [List.mem_singleton.mp (byId_mem found).1] at done
  cases done

end SherryAgent.Guarantees.UpdateRules
