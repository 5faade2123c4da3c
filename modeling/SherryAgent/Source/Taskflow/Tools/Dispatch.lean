import SherryAgent.Source.Taskflow.Tools.Resume

/-!
# `taskflow_dispatch` and `taskflow_wait_all`

`agent/tools/taskflow/tools/taskflow_dispatch.py` and `taskflow_wait_all.py`. The
spawns of one batch have no store access between them and are collected in the
caller's order, so a batch performs them in that order.
-/

namespace SherryAgent.Source.Taskflow

open SherryAgent.Library.KeyedList SherryAgent.Library.Resumption

/-- The ids that occurred before, in order of their second occurrence. -/
def duplicateIds : (seen : List String) → List String → List String
  | _, [] => []
  | seen, id :: rest =>
    if seen.contains id then id :: duplicateIds seen rest else duplicateIds (id :: seen) rest

/-- A step the batch may start: `ready`, or `blocked` with its dependencies done. -/
def dispatchable (step : Step) (steps : List Step) : Bool :=
  stepStatus step == .ready ||
    (stepStatus step == .blocked && !step.dependsOn.isEmpty && depsSatisfied step steps)

/-- Validation of one requested id. -/
def dispatchError (steps : List Step) (stepId : String) : Option String :=
  match byId steps stepId with
  | none => some s!"Error: unknown step_id '{stepId}'"
  | some step =>
    if !dispatchable step steps then
      let status := (stepStatus step).value
      some s!"Error: step_id '{stepId}' is not dispatchable (status={status})"
    else
      match normalizePolicy step with
      | none => none
      | some policy =>
        if isRedispatch step && decide (policy.maxRetries ≤ stepRetryCount step) then
          let count := stepRetryCount step
          let budget := policy.maxRetries
          some (s!"Error: step_id '{stepId}' retry budget exhausted " ++
            s!"(retry_count={count}, max_retries={budget})")
        else none

/-- The in-place changes to a step whose spawn succeeded. -/
def dispatchStep (key : String) (step : Step) : Step :=
  { step with
    judgeFeedback := none
    retryCount := match normalizePolicy step with
      | none => step.retryCount
      | some _ => if isRedispatch step then stepRetryCount step + 1 else stepRetryCount step
    status := some .dispatched
    childSessionKey := some key }

def dispatchedSteps (steps : List Step) (batch : List BatchSpawn) : List Step :=
  batch.foldl (fun steps spawned =>
    match spawned.key with
    | none => steps
    | some key => modifyLast (·.stepId == spawned.stepId) (dispatchStep key) steps) steps

/-- The records of the batch: the changed step dicts themselves. -/
def dispatchRecords (steps : List Step) (batch : List BatchSpawn) : List Step :=
  batch.filterMap fun spawned =>
    match spawned.key, byId steps spawned.stepId with
    | some key, some step => some (dispatchStep key step)
    | _, _ => none

/-- Spawn and persist a validated batch. -/
def dispatchValidated (env : Env) (flow : Flow) (requested : List String)
    (expectedRevision : Option Int) : Tool Reply := do
  let steps := flow.state.steps
  let batch ← requested.mapM (spawnOne env .dispatch flow)
  let records := dispatchRecords steps batch
  let failures := batch.filterMap fun spawned =>
    spawned.failure.map fun text => (spawned.stepId, text)
  if records.isEmpty then
    let failed := pyList (failures.map (·.1))
    let first := (failures.head?.map (·.2)).getD ""
    pure (.error s!"Error: dispatch failed for step_id(s) {failed} ({first}); dispatched=[]")
  else
    let persisted ← updateFlowWithConflictRetry env flow.flowId
      (expectedRevision.getD flow.expectedRevision) (flow.withSteps (dispatchedSteps steps batch))
      (.dispatched records) (batch.filterMap (·.key))
    match persisted with
    | .error text => pure (.error text)
    | .ok (updated, _) =>
      if failures.isEmpty then pure (.ok updated.expectedRevision)
      else
        let text := "; ".intercalate (failures.map fun (stepId, text) => s!"{stepId} ({text})")
        let dispatched := pyList (records.map (·.stepId))
        pure (.error s!"Error: dispatch failed for step_id(s) {text}; dispatched={dispatched}")

/-- `_taskflow_dispatch_locked`. -/
def taskflowDispatchLocked (env : Env) (stepIds : List String) (expectedRevision : Option Int) :
    Tool Reply := do
  let requested := stepIds.map PyText.strip
  match ← getFlow (.dispatch requested) with
  | none => pure (.error (notFoundError env.flowId))
  | some flow =>
    if isTerminal flow.status then pure (.error (terminalError flow.flowId flow.status))
    else if requested.isEmpty then pure (.error "Error: step_ids is required")
    else if !(duplicateIds [] requested).isEmpty then
      let text := ", ".intercalate (duplicateIds [] requested).eraseDups
      pure (.error s!"Error: duplicate step_id(s): {text}")
    else
      match requested.findSome? (dispatchError flow.state.steps) with
      | some text => pure (.error text)
      | none => dispatchValidated env flow requested expectedRevision

/-- `_dispatch_batch`: the batch under the flow-local dispatch lock. -/
def dispatchBatch (env : Env) (stepIds : List String) (expectedRevision : Option Int) :
    Tool Reply := do
  Prog.perform (E := effects) .acquireDispatchLock
  let reply ← taskflowDispatchLocked env stepIds expectedRevision
  Prog.perform (E := effects) .releaseDispatchLock
  pure reply

def taskflowDispatch (env : Env) (stepIds : List String) (expectedRevision : Option Int) :
    Tool Reply :=
  dispatchBatch env stepIds expectedRevision

/-! ## `taskflow_wait_all` -/

/-- `_redispatch_one`: back off, then spawn a bare replacement; with its line of the report. -/
def redispatchOne (env : Env) (flow : Flow) (action : RetryAction) :
    Tool (Option (String × String × Int) × String) :=
  match action with
  | .exhausted stepId _ retryCount maxRetries _ =>
    pure (none, s!"retry: step_id={stepId} exhausted (retry_count={retryCount}/{maxRetries}); " ++
      "marked done with a failure note")
  | .redispatch step _ retryCount policy => do
    backOff policy.retryDelaySeconds
    let spawned ← dispatchChild
      { site := .waitAll
        task := step.task
        requesterSessionKey := requesterKeyForRetry flow.state env.sessionId }
    let stepId := step.stepId
    match spawned with
    | .error text => pure (none, s!"retry: re-dispatch FAILED for step_id={stepId} ({text})")
    | .ok key =>
      let maxRetries := policy.maxRetries
      let delay := policy.retryDelaySeconds
      pure (some (stepId, key, retryCount),
        s!"retry: re-dispatched step_id={stepId} -> child_session_key={key}, " ++
        s!"retry_count={retryCount}/{maxRetries}, retry_delay_seconds={delay}.0")

/-- The decisions that need no spawn: the step and its failure-note result. -/
def RetryAction.exhaustion : RetryAction → Option (String × ResultRecord)
  | .exhausted stepId _ _ _ record => some (stepId, record)
  | .redispatch .. => none

/-- The lines behind the report, each on its own line. -/
def appendedLines (lines : List String) : String := "\n" ++ "\n".intercalate lines

/-- The last lines of `_retry_settled_steps`. -/
def retryHints (redispatched exhausted : Bool) : List String :=
  (if redispatched then
    ["Call taskflow_step(action='wait_all') again to wait for the re-dispatched step(s)."]
  else []) ++
  (if exhausted then
    ["Exhausted step(s) need an explicit decision: resume the failure note or fail the flow."]
  else [])

/-- `_retry_settled_steps` with `persist_retry_actions`: what it appends to the report. -/
def retrySettledSteps (env : Env) (base : String) (pairs : List (String × String)) :
    Tool Reply := do
  match ← getFlow (.settled pairs) with
  | none => pure (.report base)
  | some flow =>
    let actions := planSettledRetries env flow.state.steps flow.state.results pairs
    let spawned ← actions.mapM (redispatchOne env flow)
    let redispatches := spawned.filterMap (·.1)
    let exhausted := actions.filterMap (·.exhaustion)
    let lines := spawned.map (·.2)
    if redispatches.isEmpty && exhausted.isEmpty then
      pure (.report (if actions.isEmpty then base else base ++ appendedLines lines))
    else
      let persisted ← updateFlowWithConflictRetry env flow.flowId flow.expectedRevision flow
        (.retryPlan redispatches exhausted) (redispatches.map (·.2.1))
      match persisted with
      | .error text => pure (.report (base ++ appendedLines (lines ++ [text])))
      | .ok _ =>
        let hints := retryHints (!redispatches.isEmpty) (!exhausted.isEmpty)
        pure (.report (base ++ appendedLines (lines ++ hints)))

/-- The children `taskflow_wait_all` polls: those of dispatched steps. -/
def waitTargets (steps : List Step) : List (String × String) :=
  (steps.filter fun step => stepStatus step == .dispatched).map fun step =>
    (step.stepId, step.childSessionKey.getD "")

/-- `_format_report`. -/
def formatReport (flowId : String) (report : List (String × String × Bool)) (timedOut : Bool) :
    String :=
  let settled := (report.filter (·.2.2)).length
  let total := report.length
  "\n".intercalate (
    [s!"TaskFlow wait_all: flow_id={flowId}",
      if timedOut then
        s!"TaskFlow wait_all timeout: {settled} of {total} dispatched " ++
          "step(s) settled before the deadline"
      else s!"TaskFlow wait_all complete: all {total} dispatched step(s) settled"] ++
    (report.map fun (stepId, childKey, done) =>
      let key := if childKey == "" then "<none>" else childKey
      let flag := (Json.bool done).pyStr
      s!"  - step_id={stepId}, child_session_key={key}, settled={flag}") ++
    [if timedOut then
      "Partial report only: call taskflow_step(action='resume') for the settled children, " ++
        "then taskflow_step(action='wait_all') again for the rest."
    else "Call taskflow_step(action='resume') for each child to inject its result."])

def taskflowWaitAll (env : Env) : Tool Reply := do
  match ← getFlow .waitAll with
  | none => pure (.error (notFoundError env.flowId))
  | some flow =>
    let targets := waitTargets flow.state.steps
    let flowId := env.flowId
    if targets.isEmpty then
      pure (.report s!"TaskFlow wait_all: flow_id={flowId}, no dispatched steps to wait for.")
    else
      match ← Prog.perform (E := effects) (.poll targets) with
      | .lookupFailed text => pure (.error s!"Error: subagent registry lookup failed: {text}")
      | .timedOut settled =>
        let report := targets.zipIdx.map fun (target, i) =>
          (target.1, target.2, (settled[i]?).getD false)
        pure (.report (formatReport flowId report true))
      | .settled =>
        let report := targets.map fun target => (target.1, target.2, true)
        retrySettledSteps env (formatReport flowId report false) targets

end SherryAgent.Source.Taskflow
