import SherryAgent.Source.Taskflow.Store

/-!
# `taskflow_resume` and its auto-dispatch wave

`agent/tools/taskflow/tools/taskflow_resume.py`. The matched step dict is the one
inside the flow that was read, so the first attempt of the write sees it with the
changes the call has made to it in place; a replayed attempt sees the fresh row.
-/

namespace SherryAgent.Source.Taskflow

open SherryAgent.Library.KeyedList SherryAgent.Library.Resumption

/-- What a tool call answers. -/
inductive Reply where
  | error (text : String)
  | ok (revision : Int)
  | report (text : String)
  | resumeSkipped (resultHash : String) (results : Nat)
  | resumed (revision : Int) (stepId : Option String) (dispatched failures : List String)
  deriving DecidableEq

structure TokenUsage where
  inputTokens : Int := 0
  outputTokens : Int := 0

structure ResumeArgs where
  childSessionKey : String := ""
  result : String := ""
  expectedRevision : Option Int := none
  tokenUsage : Option TokenUsage := none
  validationCriteria : String := ""
  structuredResult : Option Json := none
  stepOutcome : String := ""
  autoDispatch : Bool := true

def Flow.withSteps (flow : Flow) (steps : List Step) : Flow :=
  { flow with state := { flow.state with steps } }

@[simp] theorem Flow.withSteps_expectedRevision (flow : Flow) (steps : List Step) :
    (flow.withSteps steps).expectedRevision = flow.expectedRevision := rfl

@[simp] theorem Flow.withSteps_steps (flow : Flow) (steps : List Step) :
    (flow.withSteps steps).state.steps = steps := rfl

/-- The declared outcome: absent, one of `StepOutcome`, or an error text. -/
def declaredOutcome (stepOutcome : String) : Except String (Option StepOutcome) :=
  let text := PyText.lower (PyText.strip stepOutcome)
  if text == "" then .ok none
  else
    match StepOutcome.ofValue text with
    | some outcome => .ok (some outcome)
    | none =>
      let allowed := ", ".intercalate (StepOutcome.all.map (·.value))
      .error s!"Error: step_outcome must be one of: {allowed}"

/-! ## Tier 1: the structural gate -/

structure StructuralGate where
  parsedResult : Option Json
  schemaValidated : Option Bool
  schemaError : Option String

def structuralGate (env : Env) (args : ResumeArgs) (step : Option Step) : StructuralGate :=
  match step.bind (·.responseSchema) with
  | none => ⟨args.structuredResult, none, none⟩
  | some schema =>
    let parsed : Except String Json := match args.structuredResult with
      | some value => .ok value
      | none => env.loads args.result
    match parsed with
    | .error exc => ⟨none, some false, some s!"result is not JSON: {exc}"⟩
    | .ok .null => ⟨none, some false, some "no structured result to validate"⟩
    | .ok value =>
      match env.validate value schema with
      | .ok () => ⟨some value, some true, none⟩
      | .error text => ⟨some value, some false, some text⟩

/-- The entry this resume appends to `results`. -/
def resumeRecord (env : Env) (args : ResumeArgs) (child : String) (declared : Option StepOutcome)
    (step : Option Step) (gate : StructuralGate) : ResultRecord :=
  { childSessionKey := child
    result := args.result
    resultHash := resultHash env child args.result
    structuredResult := if (step.bind (·.responseSchema)).isSome then gate.parsedResult else none
    stepId := step.map (·.stepId)
    schemaValidated := gate.schemaValidated
    stepOutcome := declared }

/-! ## Retry and verdict -/

/-- The guidance a failure retry passes on. -/
def retryFeedback (step : Step) (gate : StructuralGate) : String :=
  match gate.schemaValidated, gate.schemaError with
  | some false, some text =>
    s!"Your previous output failed schema validation: {text}. " ++
    "Ensure your output is valid JSON matching the required response_schema."
  | _, _ => step.judgeFeedback.getD ""

/-- The retry of a classified failure: the replacement's key when one was spawned. -/
def retryFailure (env : Env) (flow : Flow) (result : String) (gate : StructuralGate)
    (step : Step) : Tool (Option String) :=
  match normalizePolicy step with
  | none => pure none
  | some policy =>
    if shouldRetryFailure step result gate.schemaValidated then do
      backOff policy.retryDelaySeconds
      let spawned ← dispatchChild
        { site := .resumeRetry
          task := step.task
          requesterSessionKey := requesterKeyForRetry flow.state env.sessionId
          feedback := retryFeedback step gate
          contract := stepSpawnKwargs step flow.flowId }
      match spawned with
      | .error _ => pure none
      | .ok key => pure (some key)
    else pure none

/-- What a resume has decided about the matched step: the step dict after its
changes, and the replacement child with its retry count. -/
structure Decision where
  step : Step
  redispatched : Option (String × Int) := none

/-- `step["status"] = status` with the reason the branch records. -/
def blockStep (step : Step) (reason : String) : Step :=
  { step with status := some .blocked, blockReason := some reason }

/-- The judge's RETRY verdict: spawn a replacement while its budget lasts. -/
def judgeRetry (env : Env) (flow : Flow) (step : Step) (verdict : JudgeResult) :
    Tool Decision :=
  if stepRetryCount step < env.infra.judgeMaxRetries then do
    let spawned ← dispatchChild
      { site := .judgeRetry
        task := step.task
        requesterSessionKey := requesterKeyForRetry flow.state env.sessionId
        feedback := verdict.feedback
        contract := stepSpawnKwargs step flow.flowId }
    match spawned with
    | .error exc =>
      pure { step := blockStep step s!"StepJudge RETRY re-dispatch failed: {exc}" }
    | .ok key =>
      let count := stepRetryCount step + 1
      pure {
        step := { applyRedispatch step key count with judgeFeedback := some verdict.feedback }
        redispatched := some (key, count) }
  else
    let count := stepRetryCount step
    let budget := env.infra.judgeMaxRetries
    let reason := verdict.reason
    pure { step := blockStep step <|
      s!"StepJudge RETRY budget exhausted (retry_count={count}, max_retries={budget}): {reason}" }

/-- Criteria given with the resume replace the step's own. -/
def withCriteria (args : ResumeArgs) (step : Step) : Step :=
  let criteria := PyText.strip args.validationCriteria
  if criteria != "" then { step with validationCriteria := some criteria } else step

/-- The verdict on a step that was not re-dispatched as a failure. -/
def settleStep (env : Env) (flow : Flow) (args : ResumeArgs) (declared : Option StepOutcome)
    (gate : StructuralGate) (step : Step) : Tool Decision :=
  let storedCriteria := PyText.strip (step.validationCriteria.getD "")
  let judgeCriteria := PyText.strip (step.judgeCriteria.getD "")
  if gate.schemaValidated == some false then
    let text := gate.schemaError.getD "None"
    pure { step := { step with
      status := some .failed, failReason := some s!"response_schema not satisfied: {text}" } }
  else if declared == some .failure then
    let text := String.ofList (args.result.toList.take 200)
    pure { step := { step with
      status := some .failed, failReason := some s!"step_outcome=failure: {text}" } }
  else if declared == some .skipped then
    pure { step := { step with
      status := some .skipped, skipReason := some "step_outcome=skipped" } }
  else if judgeCriteria != "" || storedCriteria != "" then do
    let verdict ← Prog.perform (E := effects) <| .judge step.task
      (if judgeCriteria != "" then judgeCriteria else storedCriteria) args.result
    match verdict.verdict with
    | .retry => judgeRetry env flow step verdict
    | .block =>
      let reason := verdict.reason
      pure { step := blockStep step s!"StepJudge blocked: {reason}" }
    | .pass => pure { step := { step with status := some .done } }
  else pure { step := { step with status := some .done } }

/-- Retry first, verdict only when no replacement was spawned. -/
def decideStep (env : Env) (flow : Flow) (args : ResumeArgs) (declared : Option StepOutcome)
    (gate : StructuralGate) (step : Step) : Tool Decision := do
  match ← retryFailure env flow args.result gate step with
  | some key =>
    let count := stepRetryCount step + 1
    pure { step := applyRedispatch step key count, redispatched := some (key, count) }
  | none => settleStep env flow args declared gate (withCriteria args step)

/-- The decision about the matched step, when there is one. -/
def decideMatched (env : Env) (flow : Flow) (args : ResumeArgs) (declared : Option StepOutcome)
    (gate : StructuralGate) : Option Step → Tool (Option Decision)
  | none => pure none
  | some step => do
    let decision ← decideStep env flow args declared gate step
    pure (some decision)

/-! ## The auto-dispatch wave -/

/-- The ids of a wave that are still dispatchable in the freshly read state; an
unknown id stays in so that it is reported. -/
def waveReady (steps : List Step) (readyIds : List String) : List String :=
  readyIds.filter fun stepId =>
    match byId steps stepId with
    | none => true
    | some step => stepStatus step == .ready && !step.hasChild && depsSatisfied step steps

/-- The outcome of one spawn of a batch: the id, its child key or failure text,
and the judge feedback that went into the task. -/
structure BatchSpawn where
  stepId : String
  outcome : Except String String
  feedback : String := ""

def BatchSpawn.key (spawned : BatchSpawn) : Option String :=
  match spawned.outcome with
  | .ok key => some key
  | .error _ => none

/-- `_spawn_one`, shared by the wave and the manual batch up to the site. -/
def spawnOne (env : Env) (site : SpawnSite) (flow : Flow) (stepId : String) : Tool BatchSpawn :=
  match byId flow.state.steps stepId with
  | none => pure { stepId, outcome := .error s!"{stepId}: unknown step" }
  | some step => do
    let feedback := PyText.strip (step.judgeFeedback.getD "")
    let outcome ← dispatchChild
      { site
        task := step.task
        requesterSessionKey := requesterSessionKey env.sessionId
        feedback
        contract := stepSpawnKwargs step flow.flowId }
    pure { stepId, outcome, feedback }

/-- The record of a wave's spawn: only the dispatch fields of the step. -/
def waveRecord (spawned : BatchSpawn) : Option Step :=
  spawned.key.map fun key =>
    { stepId := spawned.stepId, status := some .dispatched, childSessionKey := some key }

/-- The steps read by the wave after its in-place changes: a spawned step has
lost its judge feedback. -/
def waveSteps (steps : List Step) (batch : List BatchSpawn) : List Step :=
  batch.foldl (fun steps spawned =>
    if spawned.key.isSome && spawned.feedback != "" then
      modifyLast (·.stepId == spawned.stepId) (fun step => { step with judgeFeedback := none }) steps
    else steps) steps

def BatchSpawn.failure (spawned : BatchSpawn) : Option String :=
  match spawned.outcome with
  | .ok _ => none
  | .error text => some text

/-- `_auto_dispatch_ready_locked`: the dispatched ids and the failures. -/
def autoDispatchReadyLocked (env : Env) (readyIds : List String) :
    Tool (List String × List String) := do
  match ← getFlow (.wave readyIds) with
  | none => pure ([], readyIds.map fun stepId => s!"{stepId}: flow vanished")
  | some flow =>
    let batch ← (waveReady flow.state.steps readyIds).mapM (spawnOne env .wave flow)
    let records := batch.filterMap waveRecord
    let dispatched := records.map (·.stepId)
    let failures := batch.filterMap (·.failure)
    if records.isEmpty then pure (dispatched, failures)
    else
      let persisted ← updateFlowWithConflictRetry env flow.flowId flow.expectedRevision
        (flow.withSteps (waveSteps flow.state.steps batch)) (.dispatched records)
        (batch.filterMap (·.key))
      match persisted with
      | .ok _ => pure (dispatched, failures)
      | .error text => pure (dispatched, failures ++ [text])

/-- `_auto_dispatch_ready`: the wave under the flow-local dispatch lock. -/
def autoDispatchReady (env : Env) (readyIds : List String) :
    Tool (List String × List String) := do
  Prog.perform (E := effects) .acquireDispatchLock
  let outcome ← autoDispatchReadyLocked env readyIds
  Prog.perform (E := effects) .releaseDispatchLock
  pure outcome

/-! ## The tool -/

/-- The steps of `updated` that are ready and were never dispatched. -/
def allReady (steps : List Step) : List String :=
  (steps.filter fun step =>
    stepStatus step == .ready && !step.hasChild && depsSatisfied step steps).map (·.stepId)

/-- The ids the last run of the settling callback unlocked. -/
def unlockedBy (build : BuildState) (base : Flow) : List String :=
  match build with
  | .settle _ stepId decided =>
    let updated := match stepId with
      | none => base.state.steps
      | some id => modifyFirst (·.stepId == id) decided.apply base.state.steps
    newlyReady updated (unlockDependents updated)
  | _ => []

/-- The write of a resume: the callback, and the row its first attempt runs on. -/
def resumeWrite (record : ResultRecord) (flow : Flow) (child : String) (decision : Option Decision) :
    BuildState × Flow :=
  match decision with
  | none => (.settle record none {}, flow)
  | some decision =>
    let origin := flow.withSteps <|
      modifyFirst (·.childSessionKey == some child) (fun _ => decision.step) flow.state.steps
    match decision.redispatched with
    | some (key, count) =>
      let feedback := decision.step.judgeFeedback.filter (· != "")
      (.redispatch record decision.step.stepId key count feedback, origin)
    | none =>
      (.settle record (some decision.step.stepId) (.ofStep decision.step), origin)

/-- The columns a resume writes besides the state. The token total is computed
from the first read. -/
def resumeKwargs (flow : Flow) (tokenUsage : Option TokenUsage) : UpdateKwargs :=
  { wait := some none
    status := if flow.status = .waiting then some .running else none
    totalTokens := tokenUsage.map fun usage =>
      flow.totalTokens + usage.inputTokens + usage.outputTokens }

def resumeChildKeys (child : String) : BuildState → List String
  | .redispatch _ _ newKey _ _ => [newKey]
  | _ => if child != "" then [child] else []

/-- `to_dispatch`: the unlocked steps first, each id once. -/
def waveIds (env : Env) (newlyReady : List String) (steps : List Step) : List String :=
  if env.infra.autoDispatchAllReadyOnResume then (newlyReady ++ allReady steps).eraseDups
  else newlyReady.eraseDups

/-- The wave after a persisted resume, and the reply. -/
def resumeWave (env : Env) (args : ResumeArgs) (stepId : Option String) (build : BuildState)
    (updated base : Flow) : Tool Reply :=
  let toDispatch := waveIds env (unlockedBy build base) updated.state.steps
  if args.autoDispatch && !isTerminal updated.status && !toDispatch.isEmpty then do
    let (dispatched, failures) ← autoDispatchReady env toDispatch
    let latest ← getFlow .updated
    pure (.resumed (latest.getD updated).expectedRevision stepId dispatched failures)
  else pure (.resumed updated.expectedRevision stepId [] [])

/-- The decision and the write, once the duplicate check has passed. -/
def resumeFlow (env : Env) (args : ResumeArgs) (child : String) (declared : Option StepOutcome)
    (flow : Flow) : Tool Reply := do
  let step := firstByChild flow.state.steps child
  let gate := structuralGate env args step
  let record := resumeRecord env args child declared step gate
  let decision ← decideMatched env flow args declared gate step
  let (build, origin) := resumeWrite record flow child decision
  let persisted ← updateFlowWithConflictRetry env flow.flowId
    (args.expectedRevision.getD flow.expectedRevision) origin build (resumeChildKeys child build)
    (resumeKwargs flow args.tokenUsage)
  match persisted with
  | .error text => pure (.error text)
  | .ok (updated, base) => resumeWave env args (step.map (·.stepId)) build updated base

def taskflowResume (env : Env) (args : ResumeArgs) : Tool Reply :=
  let child := PyText.strip args.childSessionKey
  match declaredOutcome args.stepOutcome with
  | .error text => pure (.error text)
  | .ok declared =>
    if child == "" && args.result == "" then
      pure (.error "Error: taskflow_step(action='resume') requires child_session_key or result")
    else do
      match ← getFlow (.resume child) with
      | none => pure (.error (notFoundError env.flowId))
      | some flow =>
        if isTerminal flow.status then pure (.error (terminalError flow.flowId flow.status))
        else if hasResult flow.state.results (resultHash env child args.result) then
          pure (.resumeSkipped (resultHash env child args.result) flow.state.results.length)
        else resumeFlow env args child declared flow

end SherryAgent.Source.Taskflow
