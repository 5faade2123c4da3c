import SherryAgent.Source.Taskflow.Flow

/-!
# Mutations of a flow row

Every write of the tool family computes a new state from a row it has read. The
`build_state` callbacks of `update_flow_with_conflict_retry`, which a revision
conflict replays onto a freshly read row, and the direct `update_flow` calls
are constructors of `BuildState`, with the values their closures capture.
-/

namespace SherryAgent.Source.Taskflow

open SherryAgent.Library.KeyedList

/-- `apply_dispatched_steps`: re-apply dispatched-step records by `step_id`; a
record whose step is absent is appended. -/
def applyDispatchedSteps (freshSteps records : List Step) : List Step :=
  records.foldl (fun merged record =>
    if freshSteps.any (·.stepId == record.stepId) then
      modifyLast (·.stepId == record.stepId) (fun target =>
        { target with
          status := record.status
          childSessionKey := record.childSessionKey
          judgeFeedback := none }) merged
    else merged ++ [record]) freshSteps

/-- The fields of the judged step that `taskflow_resume` replays
(`decided_fields`); `none` is a key the step does not have. -/
structure DecidedFields where
  status : Option StepStatus := none
  failReason : Option String := none
  blockReason : Option String := none
  skipReason : Option String := none
  validationCriteria : Option String := none
  deriving DecidableEq

def DecidedFields.ofStep (step : Step) : DecidedFields :=
  { status := step.status
    failReason := step.failReason
    blockReason := step.blockReason
    skipReason := step.skipReason
    validationCriteria := step.validationCriteria }

/-- `target.update(decided_fields)`. -/
def DecidedFields.apply (decided : DecidedFields) (target : Step) : Step :=
  { target with
    status := decided.status.or target.status
    failReason := decided.failReason.or target.failReason
    blockReason := decided.blockReason.or target.blockReason
    skipReason := decided.skipReason.or target.skipReason
    validationCriteria := decided.validationCriteria.or target.validationCriteria }

inductive BuildState where
  /-- `taskflow_resume`, replacement child spawned. -/
  | redispatch (record : ResultRecord) (stepId newKey : String) (retryCount : Int)
      (judgeFeedback : Option String)
  /-- `taskflow_resume`, outcome decided. -/
  | settle (record : ResultRecord) (stepId : Option String) (decided : DecidedFields)
  /-- `taskflow_dispatch` and the auto-dispatch wave. -/
  | dispatched (records : List Step)
  /-- `persist_retry_actions` of `taskflow_wait_all`. -/
  | retryPlan (redispatches : List (String × String × Int))
      (exhausted : List (String × ResultRecord))
  /-- `taskflow_replan`, with its precomputed list. -/
  | replan (merged : List Step) (replanCount : Int) (reason : String)
  /-- `taskflow_run_task`, child spawned; the id is generated from the list's length. -/
  | runTask (template : Step)
  /-- `taskflow_run_task`, step registered as blocked. -/
  | register (candidate : Step)
  | updateSteps (merged : List Step)
  | cancel (reason : String)
  | fail (reason : String)
  /-- `fail_flow_for_gc`. -/
  | collect (reason : String)
  /-- `taskflow_finish`: a state the call built up from its own read. -/
  | put (state : FlowState)
  /-- A write of other columns only. -/
  | keep

/-- `f"step-{len(steps) + 1}"`. -/
def nextStepId (steps : List Step) : String := "step-" ++ toString (steps.length + 1)

/-- The step of a flow cancelled with `reason`. -/
def cancelStep (reason : String) (step : Step) : Step :=
  match stepStatus step with
  | .done | .cancelled => step
  | _ => { step with
      status := some .cancelled
      cancelReason := some (if reason != "" then reason else "flow cancelled") }

/-- The step of a flow that is failed as a whole, by its stored status. -/
def collectStep (reason : String) (step : Step) : Step :=
  match step.status with
  | some .done | some .failed | some .skipped | some .cancelled => step
  | _ => { step with status := some .failed, failReason := some reason }

/-- The step of a finish loop that exhausted a budget (`_auto_fail_finish`). -/
def autoFailStep (reason : String) (step : Step) : Step :=
  match stepStatus step with
  | .done | .failed | .skipped | .cancelled => step
  | _ => { step with status := some .failed, failReason := some reason }

/-- Reset of the finish budgets that every resume write performs. -/
def FlowState.resetBudgets (state : FlowState) : FlowState :=
  { state with finishNudgeCount := 0, consecutiveFailures := 0 }

/-- The state a mutation writes, computed from `current`; `none` leaves
`state_json` unchanged. -/
def BuildState.apply (build : BuildState) (current : Flow) : Option FlowState :=
  let state := current.state
  match build with
  | .redispatch record stepId newKey retryCount judgeFeedback =>
    let steps := modifyFirst (·.stepId == stepId) (fun target =>
      let target := applyRedispatch target newKey retryCount
      { target with judgeFeedback := judgeFeedback.or target.judgeFeedback }) state.steps
    some { state with results := addResult state.results record, steps }.resetBudgets
  | .settle record stepId decided =>
    let updated := match stepId with
      | none => state.steps
      | some id => modifyFirst (·.stepId == id) decided.apply state.steps
    let state := { state with
      results := addResult state.results record
      steps := unlockDependents updated }.resetBudgets
    some (if decided.status == some .done then { state with protocolViolationStreak := 0 }
      else state)
  | .dispatched records =>
    some { state with steps := applyDispatchedSteps state.steps records }
  | .retryPlan redispatches exhausted =>
    let steps := redispatches.foldl (fun steps (id, newKey, retryCount) =>
      modifyLast (·.stepId == id) (applyRedispatch · newKey retryCount) steps) state.steps
    let steps := exhausted.foldl (fun steps (id, _) =>
      modifyLast (·.stepId == id) (fun target => { target with status := some .done }) steps) steps
    let results := exhausted.foldl (fun results (_, record) => addResult results record)
      state.results
    some { state with steps, results }
  | .replan merged replanCount reason =>
    some { state with steps := merged, replanCount := replanCount + 1, replanReason := reason }
  | .runTask template =>
    some { state with
      steps := state.steps ++ [{ template with stepId := nextStepId state.steps }] }
  | .register candidate => some { state with steps := state.steps ++ [candidate] }
  | .updateSteps merged => some { state with steps := merged }
  | .cancel reason =>
    some { state with
      cancelReason := if reason != "" then some reason else state.cancelReason
      steps := state.steps.map (cancelStep reason) }
  | .fail reason =>
    some { state with failureReason := if reason != "" then some reason else state.failureReason }
  | .collect reason =>
    let unresolved := state.steps.filter fun step =>
      match step.status with
      | some .done | some .failed | some .skipped | some .cancelled => false
      | _ => true
    let detached := unresolved.foldl (fun keys step =>
      match step.childSessionKey with
      | none => keys
      | some key =>
        let key := PyText.strip key
        if key == "" || keys.contains key then keys else keys ++ [key]) []
    some { state with
      failureReason := some reason
      steps := state.steps.map (collectStep reason)
      detachedChildSessionKeys :=
        if detached.isEmpty then state.detachedChildSessionKeys else detached }
  | .put state => some state
  | .keep => none

/-- The keyword arguments of `update_flow` besides the state: the outer `none`
leaves a column unchanged (`UNSET`). -/
structure UpdateKwargs where
  wait : Option (Option String) := none
  status : Option TaskFlowStatus := none
  childSessionKey : Option (Option String) := none
  totalTokens : Option Int := none
  tokenBudget : Option Int := none
  terminalReason : Option (Option String) := none

/-- One `update_flow` call: the mutation, the row it is computed from and which
attempt of the bounded retry it is. -/
structure Write where
  expectedRevision : Int
  build : BuildState
  current : Flow
  attempt : Nat := 1
  kwargs : UpdateKwargs := {}

/-- The row after a successful `UPDATE`. -/
def Write.update (w : Write) (row : Flow) : Flow :=
  { row with
    state := (w.build.apply w.current).getD row.state
    wait := w.kwargs.wait.getD row.wait
    expectedRevision := w.expectedRevision + 1
    status := w.kwargs.status.getD row.status
    childSessionKey := w.kwargs.childSessionKey.getD row.childSessionKey
    totalTokens := w.kwargs.totalTokens.getD row.totalTokens
    tokenBudget := w.kwargs.tokenBudget.getD row.tokenBudget
    terminalReason := w.kwargs.terminalReason.getD row.terminalReason }

/-- `mark_flow_superseded`: no revision check, an active row becomes cancelled. -/
def Flow.supersede (row : Flow) (successor : String) : Flow :=
  { row with
    supersededBy := some successor
    expectedRevision := row.expectedRevision + 1
    status := if isTerminal row.status then row.status else .cancelled
    terminalReason := if isTerminal row.status then row.terminalReason else some "superseded" }

end SherryAgent.Source.Taskflow
