import SherryAgent.Source.Taskflow.Tools.Planning

/-!
# Tools that move the flow as a whole, and the system of all calls

`taskflow_cancel.py`, `taskflow_fail.py`, `taskflow_set_waiting.py`,
`taskflow_budget.py` and `taskflow_finish.py`.
-/

namespace SherryAgent.Source.Taskflow

open SherryAgent.Library.Resumption

/-- The shape of the four tools that read, check and write once. -/
def writeOnce (env : Env) (expectedRevision : Option Int) (write : Flow → BuildState × UpdateKwargs) :
    Tool Reply := do
  match ← getFlow .tool with
  | none => pure (.error (notFoundError env.flowId))
  | some flow =>
    if isTerminal flow.status then pure (.error (terminalError flow.flowId flow.status))
    else
      let revision := expectedRevision.getD flow.expectedRevision
      match ← updateFlow { expectedRevision := revision, build := (write flow).1, current := flow
                           kwargs := (write flow).2 } with
      | .updated updated => pure (.ok updated.expectedRevision)
      | .conflict latest => pure (.error (conflictError env.flowId revision latest))
      | .notFound => pure (.error (notFoundError env.flowId))

def taskflowCancel (env : Env) (reason : String) (expectedRevision : Option Int) : Tool Reply :=
  writeOnce env expectedRevision fun _ =>
    (.cancel reason, { wait := some none, status := some .cancelled
                       terminalReason := some (some "cancelled") })

def taskflowFail (env : Env) (reason : String) (expectedRevision : Option Int) : Tool Reply :=
  writeOnce env expectedRevision fun _ =>
    (.fail reason, { wait := some none, status := some .failed
                     terminalReason := some (some "failed") })

def taskflowSetWaiting (env : Env) (waitReason : String) (expectedRevision : Option Int) :
    Tool Reply :=
  writeOnce env expectedRevision fun _ =>
    (.keep, { wait := some (some waitReason), status := some .waiting })

/-- `taskflow_budget` with action `set`; `query` only reads. -/
def taskflowBudgetSet (env : Env) (tokenBudget : Int) (expectedRevision : Option Int) :
    Tool Reply :=
  if tokenBudget ≤ 0 then
    pure (.error "Error: token_budget must be a positive integer for 'set' action.")
  else writeOnce env expectedRevision fun _ => (.keep, { tokenBudget := some tokenBudget })

/-! ## `taskflow_finish` -/

/-- `_persist_finish_state`: the error text on a lost write. -/
def persistFinishState (env : Env) (revision : Int) (flow : Flow) (state : FlowState) :
    Tool (Option String) := do
  match ← updateFlow { expectedRevision := revision, build := .put state, current := flow } with
  | .updated _ => pure none
  | .conflict latest => pure (some (conflictError env.flowId revision latest))
  | .notFound => pure (some (notFoundError env.flowId))

/-- `_auto_fail_finish`. -/
def autoFailFinish (env : Env) (revision : Int) (flow : Flow) (state : FlowState)
    (reason terminalReason : String) : Tool Reply := do
  let detached := detachedChildKeys state.steps
  let failed := { state with
    failureReason := some reason
    detachedChildSessionKeys :=
      if detached.isEmpty then state.detachedChildSessionKeys else detached
    steps := state.steps.map (autoFailStep reason) }
  match ← updateFlow { expectedRevision := revision, build := .put failed, current := flow
                       kwargs := { wait := some none, status := some .failed
                                   terminalReason := some (some terminalReason) } } with
  | .updated updated => pure (.ok updated.expectedRevision)
  | .conflict latest => pure (.error (conflictError env.flowId revision latest))
  | .notFound => pure (.error (notFoundError env.flowId))

/-- `_reject`: count one real finish failure; fail the flow at the limit. -/
def rejectFinish (env : Env) (revision : Int) (flow : Flow) (state : FlowState)
    (message : String) : Tool Reply :=
  let count := state.consecutiveFailures + 1
  let state := { state with consecutiveFailures := count }
  let limit := env.infra.finishFailureLimit
  if 0 < limit ∧ limit ≤ count then
    autoFailFinish env revision flow state
      s!"finish gates rejected {count} consecutive time(s): {message}" "finish_gates_exhausted"
  else do
    match ← persistFinishState env revision flow state with
    | some text => pure (.error text)
    | none =>
      pure (.error (if 0 < limit then s!"{message} (finish rejection {count}/{limit})" else message))

/-- Gate A: work that has not settled. An undispatched step is a protocol
violation, a running one a nudge. -/
def gatePending (env : Env) (revision : Int) (flow : Flow) (pending : List Step) :
    Tool Reply :=
  let state := flow.state
  let undispatched := pending.filter fun step => stepStatus step == .ready && !step.hasChild
  let count := pending.length
  if !undispatched.isEmpty then
    let streak := state.protocolViolationStreak + 1
    let state := { state with protocolViolationStreak := streak }
    let limit := env.infra.finishProtocolViolationLimit
    if 0 < limit ∧ limit ≤ streak then
      autoFailFinish env revision flow state
        (s!"protocol violation streak {streak}: finish called before " ++
          "any pending step was dispatched") "protocol_violation_exhausted"
    else do
      match ← persistFinishState env revision flow state with
      | some text => pure (.error text)
      | none =>
        let waiting := undispatched.length
        let ids := pyList (undispatched.map (·.stepId))
        let bound := if limit = 0 then "∞" else toString limit
        pure (.error (s!"Error: Cannot finish: {waiting} step(s) have not started: {ids}. " ++
          s!"Dispatch them first (protocol violation {streak}/{bound})."))
  else
    let nudge := state.finishNudgeCount + 1
    let state := { state with finishNudgeCount := nudge }
    let nudgeMax := env.infra.finishNudgeMax
    let ids := pyList (pending.map (·.stepId))
    if nudge ≤ nudgeMax then do
      match ← persistFinishState env revision flow state with
      | some text => pure (.error text)
      | none =>
        pure (.error (s!"Error: Cannot finish: {count} step(s) not done/blocked: {ids}. " ++
          "Use taskflow_step(action='wait_all'), then taskflow_step(action='resume') for " ++
          s!"settled children (nudge {nudge}/{nudgeMax})."))
    else
      rejectFinish env revision flow state
        s!"Error: Cannot finish: {count} step(s) not done/blocked: {ids}"

/-- `fail_reason or skip_reason or 'no reason recorded'`. -/
def unresolvedReason (step : Step) : String :=
  let reasons := [step.failReason, step.skipReason].filterMap fun reason =>
    reason.filter (· != "")
  reasons.head?.getD "no reason recorded"

/-- The rejection of Gate B, when a step still needs a decision. -/
def gateUnresolved (steps : List Step) : Option String :=
  let failed := steps.filter fun step =>
    match stepStatus step with
    | .failed | .skipped | .cancelled => true
    | _ => false
  let blocked := steps.filter fun step => stepStatus step == .blocked
  if !failed.isEmpty then
    let count := failed.length
    let details := pyList (failed.map fun step =>
      let stepId := step.stepId
      let status := (stepStatus step).value
      let reason := unresolvedReason step
      s!"{stepId}={status}({reason})")
    some (s!"Error: Cannot finish: {count} step(s) unresolved: {details}. " ++
      "Resume, retry or cancel them, or cancel the flow.")
  else if !blocked.isEmpty then
    let count := blocked.length
    let reasons := pyList (blocked.map fun step => step.blockReason.getD "unknown")
    some s!"Error: Cannot finish: {count} step(s) are blocked: {reasons}"
  else none

/-- The completion write behind the gates. -/
def completeFinish (env : Env) (summary : String) (revision : Int) (flow : Flow) : Tool Reply := do
  let state := { flow.state with
    summary := if summary != "" then some summary else flow.state.summary }
  match ← updateFlow { expectedRevision := revision, build := .put state, current := flow
                       kwargs := { wait := some none, status := some .done
                                   terminalReason := some (some "completed") } } with
  | .updated updated => pure (.ok updated.expectedRevision)
  | .conflict latest => pure (.error (conflictError env.flowId revision latest))
  | .notFound => pure (.error (notFoundError env.flowId))

def taskflowFinish (env : Env) (summary : String) (expectedRevision : Option Int) :
    Tool Reply := do
  match ← getFlow .tool with
  | none => pure (.error (notFoundError env.flowId))
  | some flow =>
    if isTerminal flow.status then pure (.error (terminalError flow.flowId flow.status))
    else
      let revision := expectedRevision.getD flow.expectedRevision
      let pending := flow.state.steps.filter fun step =>
        stepStatus step == .ready || stepStatus step == .dispatched
      if !pending.isEmpty then gatePending env revision flow pending
      else
        match gateUnresolved flow.state.steps with
        | some text => rejectFinish env revision flow flow.state text
        | none =>
          match ← Prog.perform (E := effects) .evidenceGate with
          | some text => rejectFinish env revision flow flow.state text
          | none =>
            match ← Prog.perform (E := effects) .goalGate with
            | some text => rejectFinish env revision flow flow.state text
            | none => completeFinish env summary revision flow

/-! ## The system -/

/-- A call of the tool family on the flow. `supersede` is the predecessor's side
of a `taskflow_create` that resumes from it. -/
inductive Call where
  | create (args : CreateArgs)
  | plan (goal : String) (maxSteps : Nat)
  | runTask (args : RunTaskArgs)
  | updateSteps (steps : List Json) (expectedRevision : Option Int)
  | replan (reason : String) (keepDone : Bool)
  | dispatch (stepIds : List String) (expectedRevision : Option Int)
  | resume (args : ResumeArgs)
  | waitAll
  | setWaiting (waitReason : String) (expectedRevision : Option Int)
  | budgetSet (tokenBudget : Int) (expectedRevision : Option Int)
  | cancel (reason : String) (expectedRevision : Option Int)
  | fail (reason : String) (expectedRevision : Option Int)
  | finish (summary : String) (expectedRevision : Option Int)
  | supersede (successor : String)

def supersedeFlow (env : Env) (successor : String) : Tool Reply := do
  let marked : Bool ← Prog.perform (E := effects) (.markFlowSuperseded successor)
  pure (if marked then .report "superseded" else .error (notFoundError env.flowId))

def code (env : Env) : Call → Tool Reply
  | .create args => taskflowCreate env args
  | .plan goal maxSteps => taskflowPlan env goal maxSteps
  | .runTask args => taskflowRunTask env args
  | .updateSteps steps revision => taskflowUpdateSteps env steps revision
  | .replan reason keepDone => taskflowReplan env reason keepDone
  | .dispatch stepIds revision => taskflowDispatch env stepIds revision
  | .resume args => taskflowResume env args
  | .waitAll => taskflowWaitAll env
  | .setWaiting reason revision => taskflowSetWaiting env reason revision
  | .budgetSet budget revision => taskflowBudgetSet env budget revision
  | .cancel reason revision => taskflowCancel env reason revision
  | .fail reason revision => taskflowFail env reason revision
  | .finish summary revision => taskflowFinish env summary revision
  | .supersede successor => supersedeFlow env successor

/-- Any number of in-progress calls on the flow, interleaved at their operations. -/
def system (env : Env) : System effects Store Input Call Reply := ⟨exec, code env⟩

abbrev FlowWorld := World effects Store Call Reply

/-- A stored flow with no call in progress. -/
def initialWorld (row : Option Flow) : FlowWorld := ⟨{ row }, []⟩

end SherryAgent.Source.Taskflow
