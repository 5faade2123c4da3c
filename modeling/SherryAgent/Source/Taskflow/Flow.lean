import SherryAgent.Source.PyText
import SherryAgent.Source.Taskflow.Step

/-!
# The stored flow row and the retry policy of its steps

`agent/tools/taskflow/registry/store_sqlite.py`: one row of `task_flows`, with its parsed
`state_json`. `total_cost` (a float derived from the same token counts), `deadline_ts` and
`updated_at` are left out. `agent/tools/taskflow/tools/_retry.py`: the retries of a step.
-/

namespace SherryAgent.Source.Taskflow

open SherryAgent.Source

/-- An entry of `state["results"]`. -/
structure ResultRecord where
  childSessionKey : String
  result : String
  resultHash : String
  structuredResult : Option Json := none
  stepId : Option String := none
  schemaValidated : Option Bool := none
  stepOutcome : Option StepOutcome := none
  retryExhausted : Bool := false

structure FlowState where
  description : String := ""
  steps : List Step := []
  results : List ResultRecord := []
  creatorSessionKey : String := ""
  finishNudgeCount : Int := 0
  consecutiveFailures : Int := 0
  protocolViolationStreak : Int := 0
  replanCount : Int := 0
  replanReason : String := ""
  cancelReason : Option String := none
  failureReason : Option String := none
  summary : Option String := none
  detachedChildSessionKeys : List String := []

structure Flow where
  flowId : String
  state : FlowState
  wait : Option String := none
  expectedRevision : Int := initialRevision
  status : TaskFlowStatus := .running
  childSessionKey : Option String := none
  totalTokens : Int := 0
  tokenBudget : Int := 0
  resumedFrom : Option String := none
  supersededBy : Option String := none
  terminalReason : Option String := none

/-- `any(r.get("result_hash") == hash for r in results)`. -/
def hasResult (results : List ResultRecord) (hash : String) : Bool :=
  results.any (·.resultHash == hash)

/-- The conflict branch shared by every resume callback: append the record
unless its hash is already there. -/
def addResult (results : List ResultRecord) (record : ResultRecord) : List ResultRecord :=
  if hasResult results record.resultHash then results else results ++ [record]

/-- `requester_session_key`. -/
def requesterSessionKey (sessionId : String) : String :=
  s!"agent:main:session:{sessionId}"

/-- `default_state`. -/
def defaultState (description : String) (initialState : Option FlowState)
    (creatorSessionKey : String) : FlowState :=
  let state := initialState.getD {}
  { state with
    description := if description != "" then description else state.description
    creatorSessionKey := if creatorSessionKey != "" then creatorSessionKey
      else state.creatorSessionKey }

/-- `detached_child_keys`: the child keys of unresolved steps, in step order. -/
def detachedChildKeys (steps : List Step) : List String :=
  steps.foldl (fun keys step =>
    match stepStatus step with
    | .done | .failed | .skipped | .cancelled => keys
    | _ =>
      match step.childSessionKey with
      | none => keys
      | some key => if key == "" || keys.contains key then keys else keys ++ [key]) []

/-! ## Error texts -/

def notFoundError (flowId : String) : String := s!"Error: TaskFlow '{flowId}' not found"

def terminalError (flowId : String) (status : TaskFlowStatus) : String :=
  let status := status.value
  s!"Error: TaskFlow '{flowId}' is terminal (status={status}); no further mutations allowed"

/-- The text of `FlowConflictError` as `conflict_error` returns it. -/
def conflictError (flowId : String) (expected latest : Int) : String :=
  s!"Error: TaskFlow '{flowId}' revision conflict: expected_revision={expected} " ++
  s!"but latest revision={latest}; re-read with taskflow_inspect(action='summary') and " ++
  s!"retry with expected_revision={latest}"

/-- `record_unpersisted_children_error`. -/
def recordUnpersistedChildrenError (flowId : String) (childKeys : List String)
    (attempts : Nat) : String :=
  let keys := ", ".intercalate (childKeys.filter (· != ""))
  s!"Error: TaskFlow '{flowId}': spawned child session(s) could not be recorded " ++
  s!"after {attempts} optimistic-lock attempt(s): child_session_key(s)=[{keys}]. " ++
  "The child session(s) are already running - do NOT dispatch them again; " ++
  "recover using the key(s) above."

/-! ## Retries -/

/-- Python library functions and collaborators outside the task-flow package:
`sha256(...).hexdigest()[:16]`, `json.loads` (an error text on failure) and the
swarm collector's schema validation (an error text on failure). The flow the
calls address, its session and the configuration come with them. -/
structure Env where
  digest : String → String
  loads : String → Except String Json
  validate : Json → Json → Except String Unit
  flowId : String := ""
  sessionId : String := ""
  infra : Infra := {}

/-- `result_hash`. -/
def resultHash (env : Env) (childSessionKey result : String) : String :=
  env.digest (childSessionKey ++ "\x1f" ++ result)

def failurePatterns : List (String × List String) :=
  [("timeout", ["timeout", "timed out", "time limit"]),
   ("rate_limit", ["rate limit", "rate_limit", "429", "too many requests"]),
   ("error", ["error", "failed", "failure", "exception", "traceback", "aborted", "crashed"])]

def negatedFailurePhrases : List String :=
  ["no error", "0 errors", "zero errors", "error-free", "error free", "without error",
   "no failure", "no exception", "no problem"]

/-- `classify_failure`: the failure type of a result text, `none` when it looks clean. -/
def classifyFailure (result : String) : Option String :=
  let text := negatedFailurePhrases.foldl (fun text phrase => PyText.replace phrase " " text)
    (PyText.lower result)
  (failurePatterns.find? fun pattern => pattern.2.any (PyText.contains · text)).map (·.1)

def defaultRetryDelaySeconds : Int := 60

/-- A policy with its defaults filled in. -/
structure NormalPolicy where
  maxRetries : Int
  retryDelaySeconds : Int
  retryOn : List String

/-- `normalize_policy`. -/
def normalizePolicy (step : Step) : Option NormalPolicy :=
  step.retryPolicy.map fun raw =>
    { maxRetries := max 0 raw.maxRetries
      retryDelaySeconds := match raw.retryDelaySeconds with
        | none => defaultRetryDelaySeconds
        | some delay => max 0 delay
      retryOn := raw.retryOn }

/-- `step_retry_count`. -/
def stepRetryCount (step : Step) : Int := max 0 step.retryCount

/-- `retries_remaining`. -/
def retriesRemaining (step : Step) : Int :=
  match normalizePolicy step with
  | none => 0
  | some policy => max 0 (policy.maxRetries - stepRetryCount step)

/-- `should_retry_failure`. -/
def shouldRetryFailure (step : Step) (result : String) (schemaValidated : Option Bool) : Bool :=
  match normalizePolicy step with
  | none => false
  | some policy =>
    if retriesRemaining step ≤ 0 then false
    else if schemaValidated == some false then
      policy.retryOn.isEmpty || policy.retryOn.contains "schema_error"
    else
      match classifyFailure result with
      | none => false
      | some failureType => policy.retryOn.isEmpty || policy.retryOn.contains failureType

/-- `is_redispatch`. -/
def isRedispatch (step : Step) : Bool :=
  step.hasChild || decide (0 < stepRetryCount step)

/-- `requester_key_for_retry`. -/
def requesterKeyForRetry (state : FlowState) (sessionId : String) : String :=
  let creator := PyText.strip state.creatorSessionKey
  if creator != "" then creator
  else if sessionId != "" then requesterSessionKey sessionId else ""

/-- `validate_policy` for a policy object: the one field that can still be malformed. -/
def validatePolicy : Option RetryPolicy → Option String
  | none => none
  | some raw =>
    if raw.maxRetries < 0 then
      some "Error: retry_policy.max_retries must be a non-negative integer"
    else if raw.retryDelaySeconds.any (· < 0) then
      some "Error: retry_policy.retry_delay_seconds must be a non-negative number"
    else none

/-- `apply_redispatch`. -/
def applyRedispatch (step : Step) (newChildKey : String) (retryCount : Int) : Step :=
  { step with
    retryCount
    childSessionKey := some newChildKey
    status := some .dispatched }

/-- What a spawn passes on from the step (`step_spawn_kwargs`), the part the
child's contract is made of; `none` throughout for a bare `spawn_replacement`. -/
structure SpawnContract where
  outputSchema : Option Json := none
  functionalRole : Option String := none
  stepModel : Option String := none
  stepTimeoutSeconds : Option Int := none
  flowId : Option String := none
  stepId : Option String := none

def stepSpawnKwargs (step : Step) (flowId : String) : SpawnContract :=
  { outputSchema := step.responseSchema
    functionalRole := step.functionalRole
    stepModel := step.stepModel
    stepTimeoutSeconds := step.stepTimeoutSeconds
    flowId := some flowId
    stepId := some step.stepId }

/-- `exhausted_note`. -/
def exhaustedNote (step : Step) (retryCount maxRetries : Int) : String :=
  let stepId := step.stepId
  let childKey := match step.childSessionKey with
    | none => "<none>"
    | some key => if key == "" then "<none>" else key
  s!"retry budget exhausted: step {stepId} child " ++
  s!"{childKey} settled without a result after {retryCount} " ++
  s!"retry/retries (max_retries={maxRetries}); marked done by taskflow_step(action='wait_all')"

/-- `failure_result_record`. -/
def failureResultRecord (env : Env) (childSessionKey note : String) : ResultRecord :=
  { childSessionKey
    result := note
    resultHash := resultHash env childSessionKey note
    retryExhausted := true }

/-- One decision of `plan_settled_retries`. -/
inductive RetryAction where
  | redispatch (step : Step) (childSessionKey : String) (retryCount : Int) (policy : NormalPolicy)
  | exhausted (stepId childSessionKey : String) (retryCount maxRetries : Int)
      (record : ResultRecord)

/-- `plan_settled_retries`, on the `(step_id, child_session_key)` pairs the poll
waited for. Steps without a policy and children whose result was injected are
left alone. -/
def planSettledRetries (env : Env) (steps : List Step) (results : List ResultRecord)
    (settledPairs : List (String × String)) : List RetryAction :=
  settledPairs.filterMap fun (stepId, childKey) =>
    match byId steps stepId with
    | none => none
    | some step =>
      match normalizePolicy step with
      | none => none
      | some policy =>
        if results.any (·.childSessionKey == childKey) then none
        else
          let count := stepRetryCount step
          if count < policy.maxRetries then
            some (.redispatch step childKey (count + 1) policy)
          else
            let note := exhaustedNote step count policy.maxRetries
            some (.exhausted stepId childKey count policy.maxRetries
              (failureResultRecord env childKey note))

end SherryAgent.Source.Taskflow
