import SherryAgent.Library.KeyedList
import SherryAgent.Source.Json

/-!
# Steps of a task flow

The statuses and the configuration of `agent/tools/taskflow/config.py`, and the steps of
`tools/_shared.py`: a step dict with the fields the flow's logic reads. Fields that only shape the
text handed to a child (`skills`, `input_bindings`, `aggregate_deps`,
`expected_params`, `judge_model`, `priority`) and time stamps are left out.
-/

namespace SherryAgent.Source.Taskflow

open SherryAgent.Library.KeyedList

inductive TaskFlowStatus where
  | running | waiting | done | failed | cancelled
  deriving DecidableEq, Repr

/-- The values of the members of `StepStatus`. -/
def stepStatusValues : List String :=
  ["blocked", "ready", "dispatched", "done", "failed", "skipped", "cancelled"]

/-- Per-step DAG status: a member of the enumeration, or another text, which the steps of
`taskflow_create`'s `initial_state` may carry. -/
inductive StepStatus where
  | blocked | ready | dispatched | done | failed | skipped | cancelled
  | other (text : String) (unknown : text ≠ "" ∧ text ∉ stepStatusValues)
  deriving DecidableEq, Repr

/-- How a step's execution ended, as its caller reports it. -/
inductive StepOutcome where
  | success | failure | partialSuccess | skipped
  deriving DecidableEq, Repr

def TaskFlowStatus.value : TaskFlowStatus → String
  | .running => "running"
  | .waiting => "waiting"
  | .done => "done"
  | .failed => "failed"
  | .cancelled => "cancelled"

def StepStatus.value : StepStatus → String
  | .blocked => "blocked"
  | .ready => "ready"
  | .dispatched => "dispatched"
  | .done => "done"
  | .failed => "failed"
  | .skipped => "skipped"
  | .cancelled => "cancelled"
  | .other text _ => text

/-- The members. -/
def StepStatus.all : List StepStatus :=
  [.blocked, .ready, .dispatched, .done, .failed, .skipped, .cancelled]

def StepStatus.isMember : StepStatus → Bool
  | .other .. => false
  | _ => true

/-- `StepStatus(text)`, when the text names a member. -/
def StepStatus.ofValue (text : String) : Option StepStatus :=
  StepStatus.all.find? fun status => status.value == text

def StepOutcome.value : StepOutcome → String
  | .success => "success"
  | .failure => "failure"
  | .partialSuccess => "partial"
  | .skipped => "skipped"

def StepOutcome.all : List StepOutcome := [.success, .failure, .partialSuccess, .skipped]

def StepOutcome.ofValue (text : String) : Option StepOutcome :=
  StepOutcome.all.find? fun outcome => outcome.value == text

/-- `is_terminal`: membership in `TERMINAL_STATUSES`. -/
def isTerminal : TaskFlowStatus → Bool
  | .done | .failed | .cancelled => true
  | .running | .waiting => false

def initialRevision : Int := 1

/-- `TASKFLOW_INFRA` and `STEP_JUDGE`, with the repository's values. -/
structure Infra where
  persistMaxAttempts : Nat := 3
  finishNudgeMax : Int := 2
  finishFailureLimit : Int := 2
  finishProtocolViolationLimit : Int := 3
  maxStepsPerFlow : Nat := 20
  autoDispatchInitialReady : Bool := true
  autoDispatchAllReadyOnResume : Bool := true
  judgeMaxRetries : Int := 2

/-- `REPLAN_MAX` of `taskflow_replan.py`. -/
def replanMax : Int := 3

/-- `PLAN_MAX_STEPS` of `taskflow_plan.py`. -/
def planMaxSteps : Nat := 12

/-! ## Steps -/

/-- `retry_policy` as stored on a step; `_retry.normalize_policy` reads it. -/
structure RetryPolicy where
  maxRetries : Int
  retryDelaySeconds : Option Int := none
  retryOn : List String := []
  deriving DecidableEq

structure Step where
  stepId : String
  task : String := ""
  dependsOn : List String := []
  status : Option StepStatus := none
  retryCount : Int := 0
  childSessionKey : Option String := none
  responseSchema : Option Json := none
  judgeCriteria : Option String := none
  validationCriteria : Option String := none
  judgeFeedback : Option String := none
  retryPolicy : Option RetryPolicy := none
  functionalRole : Option String := none
  stepModel : Option String := none
  stepTimeoutSeconds : Option Int := none
  fileDeps : Option (List String) := none
  failReason : Option String := none
  blockReason : Option String := none
  skipReason : Option String := none
  cancelReason : Option String := none

/-- `new_step`: the DAG core with `retry_count = 0`; the optional fields are set
by the caller. -/
def newStep (stepId task : String) (dependsOn : List String) (status : StepStatus) : Step :=
  { stepId, task, dependsOn, status := some status }

/-- `str(...)` of a list of texts. -/
def pyList (texts : List String) : String := (Json.arr (texts.map Json.str)).pyStr

/-- `bool(step.get("child_session_key"))`. -/
def Step.hasChild (step : Step) : Bool :=
  match step.childSessionKey with
  | some key => key != ""
  | none => false

/-- `step_status`: a legacy step without a status is dispatched iff it carries a
child key. -/
def stepStatus (step : Step) : StepStatus :=
  match step.status with
  | some status => status
  | none => if step.hasChild then .dispatched else .ready

@[simp] theorem stepStatus_of_some {step : Step} {status : StepStatus}
    (stored : step.status = some status) : stepStatus step = status := by
  simp [stepStatus, stored]

/-- `{s["step_id"]: s for s in steps}.get(step_id)`: the last step with the id. -/
def byId (steps : List Step) (stepId : String) : Option Step :=
  findLast? (·.stepId == stepId) steps

/-- `next((s for s in steps if s["step_id"] == step_id), None)`. -/
def firstById (steps : List Step) (stepId : String) : Option Step :=
  steps.find? (·.stepId == stepId)

/-- `next((s for s in steps if s.get("child_session_key") == key), None)`. -/
def firstByChild (steps : List Step) (key : String) : Option Step :=
  steps.find? (·.childSessionKey == some key)

theorem byId_mem {steps : List Step} {stepId : String} {step : Step}
    (found : byId steps stepId = some step) : step ∈ steps ∧ step.stepId = stepId := by
  simpa using findLast?_mem found

theorem firstById_mem {steps : List Step} {stepId : String} {step : Step}
    (found : firstById steps stepId = some step) : step ∈ steps ∧ step.stepId = stepId :=
  ⟨List.mem_of_find?_eq_some found, by simpa using List.find?_some found⟩

theorem firstByChild_mem {steps : List Step} {key : String} {step : Step}
    (found : firstByChild steps key = some step) :
    step ∈ steps ∧ step.childSessionKey = some key :=
  ⟨List.mem_of_find?_eq_some found, by simpa using List.find?_some found⟩

/-- `deps_satisfied`: every dependency is another step of the list and is done. -/
def depsSatisfied (step : Step) (steps : List Step) : Bool :=
  step.dependsOn.all fun dep =>
    dep != step.stepId &&
      match byId steps dep with
      | none => false
      | some found => stepStatus found == .done

/-- `_dep_statuses`: `none` when a dependency is unknown or the step itself. -/
def depStatuses (step : Step) (steps : List Step) : Option (List StepStatus) :=
  step.dependsOn.mapM fun dep =>
    if dep == step.stepId then none else (byId steps dep).map stepStatus

/-- `_CASCADING_DEP_STATUSES`. -/
def StepStatus.cascades : StepStatus → Bool
  | .skipped | .cancelled => true
  | _ => false

/-- One iteration of `unlock_dependents`, on `step` of the current `steps`. -/
def unlockStep (step : Step) (steps : List Step) : Step :=
  if stepStatus step != .blocked || step.dependsOn.isEmpty then step
  else
    match depStatuses step steps with
    | none => step
    | some statuses =>
      if statuses.any (·.cascades) then
        { step with status := some .skipped
                    skipReason := some "dependency skipped or cancelled" }
      else if statuses.all (· == .done) then { step with status := some .ready }
      else step

/-- The in-place pass of `unlock_dependents`: `settled` has been visited, and
every iteration sees the changes of the earlier ones. -/
def unlockPass (settled : List Step) : List Step → List Step
  | [] => settled
  | step :: rest => unlockPass (settled ++ [unlockStep step (settled ++ step :: rest)]) rest

/-- `unlock_dependents(steps)`, the list after the pass. -/
def unlockDependents (steps : List Step) : List Step := unlockPass [] steps

/-- The ids the pass returns: the steps it moved from blocked to ready. -/
def newlyReady (before after : List Step) : List String :=
  ((before.zip after).filter fun (old, new) =>
    stepStatus old == .blocked && stepStatus new == .ready).map fun (_, new) => new.stepId

/-- What one iteration can do to a step. -/
theorem unlockStep_cases (step : Step) (steps : List Step) :
    unlockStep step steps = step ∨
      (stepStatus step = .blocked ∧ step.dependsOn ≠ [] ∧
        (unlockStep step steps = { step with status := some .ready } ∨
          unlockStep step steps = { step with
            status := some .skipped, skipReason := some "dependency skipped or cancelled" })) := by
  unfold unlockStep
  split
  · exact .inl rfl
  · rename_i guard
    rw [Bool.not_eq_true, Bool.or_eq_false_iff] at guard
    obtain ⟨blocked, nonempty⟩ := guard
    have blocked : stepStatus step = .blocked := by simpa using blocked
    have nonempty : step.dependsOn ≠ [] := by simpa using nonempty
    cases depStatuses step steps with
    | none => exact .inl rfl
    | some statuses =>
      dsimp only
      split
      · exact .inr ⟨blocked, nonempty, .inr rfl⟩
      · split
        · exact .inr ⟨blocked, nonempty, .inl rfl⟩
        · exact .inl rfl

@[simp] theorem unlockStep_stepId (step : Step) (steps : List Step) :
    (unlockStep step steps).stepId = step.stepId := by
  rcases unlockStep_cases step steps with same | ⟨-, -, ready | skipped⟩
  · rw [same]
  · rw [ready]
  · rw [skipped]

/-- The pass touches blocked steps only. -/
theorem unlockStep_of_not_blocked {step : Step} (steps : List Step)
    (settled : stepStatus step ≠ .blocked) : unlockStep step steps = step := by
  rcases unlockStep_cases step steps with same | ⟨blocked, -⟩
  · exact same
  · exact absurd blocked settled

/-- The pass rewrites the list position by position. -/
theorem unlockPass_forall₂ (settled rest : List Step) :
    ∃ after, unlockPass settled rest = settled ++ after ∧
      List.Forall₂ (fun old new => ∃ current, new = unlockStep old current) rest after := by
  induction rest generalizing settled with
  | nil => exact ⟨[], by simp [unlockPass], .nil⟩
  | cons step rest ih =>
    obtain ⟨after, pass, related⟩ := ih (settled ++ [unlockStep step (settled ++ step :: rest)])
    refine ⟨unlockStep step (settled ++ step :: rest) :: after, ?_, .cons ⟨_, rfl⟩ related⟩
    rw [unlockPass, pass, List.append_assoc, List.singleton_append]

theorem unlockDependents_forall₂ (steps : List Step) :
    List.Forall₂ (fun old new => ∃ current, new = unlockStep old current)
      steps (unlockDependents steps) := by
  obtain ⟨after, pass, related⟩ := unlockPass_forall₂ [] steps
  rw [unlockDependents, pass]
  exact related

/-- Every step is in the list after the pass, as one iteration leaves it. -/
theorem unlockStep_mem {steps : List Step} {step : Step} (member : step ∈ steps) :
    ∃ current, unlockStep step current ∈ unlockDependents steps := by
  have related := unlockDependents_forall₂ steps
  generalize unlockDependents steps = after at related ⊢
  induction related with
  | nil => cases member
  | cons head _ ih =>
    rcases List.mem_cons.mp member with rfl | later
    · obtain ⟨current, eq⟩ := head
      exact ⟨current, by simp [eq]⟩
    · obtain ⟨current, kept⟩ := ih later
      exact ⟨current, List.mem_cons_of_mem _ kept⟩

end SherryAgent.Source.Taskflow
