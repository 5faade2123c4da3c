import SherryAgent.Source.Taskflow.StepsList
import SherryAgent.Source.Taskflow.Tools.Dispatch

/-!
# Tools that create a flow or shape its step list

`taskflow_run_task.py`, `taskflow_update_steps.py`, `taskflow_replan.py`,
`taskflow_plan.py` and `taskflow_create.py`.
-/

namespace SherryAgent.Source.Taskflow

open SherryAgent.Library.KeyedList SherryAgent.Library.Resumption

/-! ## `taskflow_run_task` -/

structure RunTaskArgs where
  task : String
  expectedRevision : Option Int := none
  dependsOn : List String := []
  validationCriteria : String := ""
  retryPolicy : Option RetryPolicy := none
  responseSchema : Option Json := none
  fileDeps : Option (List String) := none
  judgeCriteria : String := ""
  functionalRole : String := ""
  stepModel : String := ""
  stepTimeoutSeconds : Option Int := none

/-- `(text or "").strip() or None`. -/
def textOrNone (text : String) : Option String :=
  if PyText.strip text == "" then none else some (PyText.strip text)

/-- `new_step(step_id, task, depends_on, status, **optional_fields)`. -/
def RunTaskArgs.step (args : RunTaskArgs) (stepId : String) (status : StepStatus) : Step :=
  { newStep stepId (PyText.strip args.task) args.dependsOn status with
    validationCriteria := textOrNone args.validationCriteria
    retryPolicy := args.retryPolicy
    responseSchema := args.responseSchema
    fileDeps := args.fileDeps
    judgeCriteria := textOrNone args.judgeCriteria
    functionalRole := textOrNone args.functionalRole
    stepModel := textOrNone args.stepModel
    stepTimeoutSeconds := args.stepTimeoutSeconds }

/-- The direct write of `taskflow_run_task` for a step whose dependencies are open. -/
def registerBlocked (env : Env) (args : RunTaskArgs) (flow : Flow) (stepId : String) :
    Tool Reply := do
  let candidate := args.step stepId .blocked
  match ← updateFlow { expectedRevision := args.expectedRevision.getD flow.expectedRevision
                       build := .register candidate, current := flow } with
  | .updated blocked => pure (.ok blocked.expectedRevision)
  | .conflict latest =>
    pure (.error (conflictError env.flowId
      (args.expectedRevision.getD flow.expectedRevision) latest))
  | .notFound => pure (.error (notFoundError env.flowId))

/-- The spawn and its record for a step whose dependencies are done. -/
def runSpawned (env : Env) (args : RunTaskArgs) (flow : Flow) (stepId : String) :
    Tool Reply := do
  let spawned ← dispatchChild
    { site := .runTask
      task := PyText.strip args.task
      requesterSessionKey := requesterSessionKey env.sessionId
      contract := stepSpawnKwargs (args.step stepId .ready) env.flowId }
  match spawned with
  | .error text => pure (.error text)
  | .ok key =>
    let template := { args.step stepId .dispatched with childSessionKey := some key }
    let persisted ← updateFlowWithConflictRetry env env.flowId
      (args.expectedRevision.getD flow.expectedRevision) flow (.runTask template) [key]
      { childSessionKey := some (some key) }
    match persisted with
    | .error text => pure (.error text)
    | .ok (updated, _) => pure (.ok updated.expectedRevision)

def taskflowRunTask (env : Env) (args : RunTaskArgs) : Tool Reply :=
  if PyText.strip args.task == "" then pure (.error "Error: task is required")
  else
    match validatePolicy args.retryPolicy with
    | some text => pure (.error text)
    | none =>
      if args.fileDeps.any (·.any (PyText.strip · == "")) then
        pure (.error "Error: file_deps must be a list of non-empty strings")
      else do
        match ← getFlow .tool with
        | none => pure (.error (notFoundError env.flowId))
        | some flow =>
          if isTerminal flow.status then pure (.error (terminalError flow.flowId flow.status))
          else
            let steps := flow.state.steps
            let unknown := args.dependsOn.filter fun dep => !steps.any (·.stepId == dep)
            if !unknown.isEmpty then
              let text := ", ".intercalate unknown
              pure (.error s!"Error: unknown depends_on step id(s): {text}")
            else
              let stepId := nextStepId steps
              if depsSatisfied (args.step stepId .ready) steps then runSpawned env args flow stepId
              else registerBlocked env args flow stepId

/-! ## `taskflow_update_steps` -/

def taskflowUpdateSteps (env : Env) (steps : List Json) (expectedRevision : Option Int) :
    Tool Reply :=
  match validateStepsList steps with
  | some text => pure (.error text)
  | none => do
    match ← getFlow .tool with
    | none => pure (.error (notFoundError env.flowId))
    | some flow =>
      if isTerminal flow.status then pure (.error (terminalError flow.flowId flow.status))
      else
        match mergeSteps flow.state.steps (steps.map normalizeStep) with
        | .error text => pure (.error text)
        | .ok merged =>
          let revision := expectedRevision.getD flow.expectedRevision
          match ← updateFlow { expectedRevision := revision, build := .updateSteps merged
                               current := flow } with
          | .updated updated => pure (.ok updated.expectedRevision)
          | .conflict latest => pure (.error (conflictError env.flowId revision latest))
          | .notFound => pure (.error (notFoundError env.flowId))

/-! ## Planner output -/

/-- The JSON array inside a planner answer: a fence is stripped, then the text
from the first `[` to the last `]` is parsed. -/
def plannerArray (env : Env) (raw : String) : Except String (List Json) :=
  let text := (PyText.strip raw).toList
  let fence := ['`', '`', '`']
  let text :=
    if fence.isPrefixOf text then
      let inner := PyText.stripChars (· == '`') text
      if inner.contains '\n' then (inner.dropWhile (· != '\n')).drop 1 else inner
    else text
  match PyText.sliceBetween '[' ']' text with
  | none => .error "ValueError: planner returned no JSON array"
  | some slice =>
    match env.loads (String.ofList slice) with
    | .error text => .error text
    | .ok (.arr entries) => .ok entries
    | .ok _ => .error "ValueError: planner returned a non-list"

/-- `str(entry.get("step_id") or "").strip()`. -/
def entryId (entry : Json) : String := PyText.strip (entry.getText "step_id")

def entryTask (entry : Json) : String := PyText.strip (entry.getText "task")

/-- The entries both parsers keep: objects with an id and a task. -/
def usableEntries (entries : List Json) : List Json :=
  entries.filter fun entry => entry.isObject && entryId entry != "" && entryTask entry != ""

/-! ## `taskflow_replan` -/

/-- `_parse_steps`. -/
def parseSteps (env : Env) (raw : String) : Except String (List Json) :=
  match plannerArray env raw with
  | .error text => .error text
  | .ok entries =>
    if (usableEntries entries).isEmpty then .error "ValueError: planner returned no usable steps"
    else .ok (usableEntries entries)

/-- One level of `_transitive_dependents`. -/
def dependentsOf (steps : List Step) (invalidated frontier : List String) : List String :=
  ((steps.filter fun step =>
    step.stepId != "" && !invalidated.contains step.stepId && !frontier.contains step.stepId &&
      step.dependsOn.any frontier.contains).map (·.stepId)).eraseDups

/-- The `while frontier` loop; a level adds a new id, so the number of steps
bounds it. -/
def invalidate (steps : List Step) : (fuel : Nat) → List String → List String → List String
  | 0, invalidated, _ => invalidated
  | fuel + 1, invalidated, frontier =>
    if frontier.isEmpty then invalidated
    else
      let next := dependentsOf steps invalidated frontier
      invalidate steps fuel (invalidated ++ next) next

/-- `_transitive_dependents`. -/
def transitiveDependents (steps : List Step) (changed : List String) : List String :=
  invalidate steps (steps.length + 2) [] changed

/-- The `TypeError` of `for dep in entry.get("depends_on")`. -/
def notIterable (entry : Json) : String :=
  let kind := match entry.get "depends_on" with
    | .bool _ => "bool"
    | .int _ => "int"
    | _ => "float"
  s!"TypeError: '{kind}' object is not iterable"

/-- Why `_taskflow_replan_async` makes no list; a `TypeError` is raised out of the tool. -/
inductive ReplanError where
  | raised (text : String)
  | unknownSteps (stepId : String) (unknown : List String)
  | noNewSteps

def ReplanError.text (flowId : String) : ReplanError → String
  | .raised text => text
  | .unknownSteps stepId unknown =>
    let listed := pyList unknown
    s!"Error: replanned step '{stepId}' depends on unknown step(s): {listed}"
  | .noNewSteps => s!"Error: replan produced no new steps for flow_id '{flowId}'"

/-- The dependency ids of a planned entry, unstripped; `none` is a `TypeError`. -/
def replanDeps (entry : Json) : Option (List String) :=
  (entry.getIter "depends_on").map fun deps =>
    (deps.map Json.pyStr).filter fun dep => PyText.strip dep != ""

/-- The new step of one planned entry, unless its id is kept. -/
def replanStep (keptIds plannedIds : List String) (entry : Json) :
    Except ReplanError (Option Step) :=
  let stepId := entryId entry
  if keptIds.contains stepId then .ok none
  else
    match replanDeps entry with
    | none => .error (.raised (notIterable entry))
    | some deps =>
      let unknown := deps.filter fun dep => !keptIds.contains dep && !plannedIds.contains dep
      if !unknown.isEmpty then .error (.unknownSteps stepId unknown)
      else
        .ok (some { newStep stepId (entryTask entry) deps (if deps.isEmpty then .ready else .blocked) with
          responseSchema := entry.getOption "response_schema"
          judgeCriteria := Json.textField entry "judge_criteria" })

/-- A new step downstream of a changed one goes back to blocked. -/
def invalidateStep (invalidated : List String) (step : Step) : Step :=
  if invalidated.contains step.stepId && stepStatus step != .ready then
    { step with
      status := some .blocked
      blockReason := some "replan: an upstream step's task changed" }
  else step

/-- The steps a replan leaves as they are: done ones and in-flight ones. -/
def replanKept (keepDone : Bool) (steps : List Step) : List Step :=
  (steps.filter fun step => keepDone && stepStatus step == .done) ++
    steps.filter fun step => stepStatus step == .dispatched

/-- The precomputed list of `_taskflow_replan_async`. -/
def replanMerged (keepDone : Bool) (steps : List Step) (planned : List Json) :
    Except ReplanError (List Step) :=
  let kept := replanKept keepDone steps
  let keptIds := kept.map (·.stepId)
  match planned.mapM (replanStep keptIds (planned.map entryId)) with
  | .error refused => .error refused
  | .ok entries =>
    let newSteps := entries.filterMap id
    if newSteps.isEmpty then .error .noNewSteps
    else
      let rejected := steps.filter fun step =>
        stepStatus step != .done && stepStatus step != .dispatched
      let changed := (rejected.map (·.stepId)).filter fun stepId =>
        newSteps.any (·.stepId == stepId)
      let invalidated := transitiveDependents (newSteps ++ kept) changed
      .ok (kept ++ newSteps.map (invalidateStep invalidated))

def taskflowReplan (env : Env) (reason : String) (keepDone : Bool) : Tool Reply := do
  match ← getFlow .tool with
  | none => pure (.error (notFoundError env.flowId))
  | some flow =>
    let flowId := env.flowId
    if isTerminal flow.status then pure (.error (terminalError flow.flowId flow.status))
    else if replanMax ≤ flow.state.replanCount then
      let count := flow.state.replanCount
      let budget := replanMax
      pure (.error (s!"Error: flow_id '{flowId}' already spent {count} replan(s) " ++
        s!"(max {budget}); use taskflow_flow(action='fail') or a new flow"))
    else if flow.state.steps.isEmpty then
      pure (.error s!"Error: flow_id '{flowId}' has no steps to replan")
    else
      match ← Prog.perform (E := effects) (.planner reason) with
      | .error text => pure (.error s!"Error: replan planning failed ({text})")
      | .ok raw =>
        match parseSteps env raw with
        | .error text => pure (.error s!"Error: replan planning failed ({text})")
        | .ok planned =>
          match replanMerged keepDone flow.state.steps planned with
          | .error refused => pure (.error (refused.text flowId))
          | .ok merged =>
            let persisted ← updateFlowWithConflictRetry env env.flowId flow.expectedRevision flow
              (.replan merged flow.state.replanCount reason) [] { status := some .running }
            match persisted with
            | .error text => pure (.error text)
            | .ok (updated, _) => pure (.ok updated.expectedRevision)

/-! ## `taskflow_create` and `taskflow_plan` -/

/-- `bind_flow_todo`, and the compensating failure of a flow without a root. -/
def bindOrCompensate (content : String) (flow : Flow) : Tool (Except String Unit) := do
  match ← Prog.perform (E := effects) (.bindFlowTodo content) with
  | .ok () => pure (.ok ())
  | .error text =>
    let reason := "todo_bind_failed"
    let _ ← updateFlow
      { expectedRevision := flow.expectedRevision, build := .collect reason, current := flow
        kwargs := { wait := some none, status := some .failed, terminalReason := some (some reason) } }
    pure (.error text)

/-- What a tool that creates a flow answers where no rooted flow comes of it: for a flow id that
is taken, one that was taken and is gone, and a todo that could not be bound. -/
structure CreationTexts where
  taken : Flow → Reply
  gone : String
  unbound : String → String

/-- The answer for a taken flow id: an error if the flow is over. -/
def existingReply (flow : Flow) (ended going : String) : Reply :=
  if isTerminal flow.status then .error ended else .report going

def createTaken (flow : Flow) : Reply :=
  let flowId := flow.flowId
  let status := flow.status.value
  let revision := flow.expectedRevision
  existingReply flow
    (s!"Error: TaskFlow '{flowId}' already exists and is terminal (status={status}); pass a " ++
      s!"different flow_id, or create the successor with resumed_from='{flowId}'.")
    (s!"TaskFlow already exists (idempotent): flow_id={flowId}, revision={revision}, " ++
      s!"status={status}; nothing new was created. Re-read it with " ++
      "taskflow_inspect(action='summary'), or continue it with taskflow_step(action='resume').")

def planTaken (flow : Flow) : Reply :=
  let flowId := flow.flowId
  let status := flow.status.value
  let revision := flow.expectedRevision
  existingReply flow
    (s!"Error: flow_id '{flowId}' already exists and is terminal (status={status}); pass " ++
      "another flow_id to plan new work")
    (s!"TaskFlow already planned (idempotent): flow_id={flowId}, revision={revision}, " ++
      s!"status={status}; nothing new was created. Inspect with " ++
      "taskflow_inspect(action='summary'); dispatch any step that is still ready with " ++
      "taskflow_step(action='dispatch').")

/-- The texts of `taskflow_create`. -/
def createTexts (flowId : String) : CreationTexts where
  taken := createTaken
  gone := s!"Error: TaskFlow '{flowId}' already exists; choose a different flow_id."
  unbound := fun text => s!"Error: TaskFlow '{flowId}' was created but its todo could not be " ++
    s!"bound ({text}); the flow was failed so it cannot outlive its root. Retry the create."

/-- The texts of `taskflow_plan`. -/
def planTexts (flowId : String) : CreationTexts where
  taken := planTaken
  gone := s!"Error: flow_id '{flowId}' already exists; pass another flow_id"
  unbound := fun text => s!"Error: TaskFlow '{flowId}' was planned but its todo could not be " ++
    s!"bound ({text}); the flow was failed so it cannot outlive its root. Retry the plan."

structure CreateArgs where
  description : String := ""
  initialState : Option FlowState := none
  todoContent : String := ""

/-- `create_flow` with its read-back, then the todo that roots the flow. -/
def createRooted (env : Env) (texts : CreationTexts) (state : FlowState) (todo : String) :
    Tool (Except Reply Flow) := do
  let created : Bool ← Prog.perform (E := effects) (.createFlow { flowId := env.flowId, state })
  if created then
    match ← getFlow .updated with
    | none => pure (.error (.error (notFoundError env.flowId)))
    | some flow =>
      match ← bindOrCompensate todo flow with
      | .error text => pure (.error (.error (texts.unbound text)))
      | .ok () => pure (.ok flow)
  else
    match ← getFlow .tool with
    | none => pure (.error (.error texts.gone))
    | some flow => pure (.error (texts.taken flow))

/-- The checks for a duplicate and for the open flows are one operation, in front of the count of
the steps, which the source makes between them. -/
def taskflowCreate (env : Env) (args : CreateArgs) : Tool Reply := do
  match ← Prog.perform (E := effects) .admission with
  | some text => pure (.error text)
  | none =>
    let state := defaultState args.description args.initialState
      (requesterSessionKey env.sessionId)
    if env.infra.maxStepsPerFlow < state.steps.length then
      let count := state.steps.length
      let budget := env.infra.maxStepsPerFlow
      pure (.error (s!"Error: flow has {count} steps, max is {budget}. Use " ++
        "taskflow_flow(action='plan') to decompose the goal into fewer steps."))
    else
      let flowId := env.flowId
      let todo := if args.todoContent != "" then args.todoContent
        else if args.description != "" then args.description
        else s!"TaskFlow {flowId}"
      match ← createRooted env (createTexts flowId) state (PyText.strip todo) with
      | .error reply => pure reply
      | .ok flow => pure (.ok flow.expectedRevision)

/-- The dependencies of a plan entry: stripped, and only on earlier entries. -/
def planDeps (seen : List String) (entry : Json) : Option (List String) :=
  (entry.getIter "depends_on").map fun deps =>
    ((deps.map fun dep => PyText.strip dep.pyStr).filter (· != "")).filter seen.contains

/-- The step registered for one plan entry. -/
def planStep (stepId : String) (deps : List String) (entry : Json) : Step :=
  { newStep stepId (entryTask entry) deps (if deps.isEmpty then .ready else .blocked) with
    responseSchema := entry.getOption "response_schema"
    judgeCriteria := Json.textField entry "judge_criteria"
    fileDeps := match entry.get "file_deps" with
      | .arr files =>
        let kept := files.filterMap Json.nonBlank
        if kept.isEmpty then none else some kept
      | _ => none }

/-- The loop of `_parse_plan`: an id seen before is skipped. -/
def planSteps : (seen : List String) → List Json → Except String (List Step)
  | _, [] => .ok []
  | seen, entry :: rest =>
    if !entry.isObject || entryId entry == "" || entryTask entry == "" ||
        seen.contains (entryId entry) then planSteps seen rest
    else
      match planDeps seen entry with
      | none => .error (notIterable entry)
      | some deps =>
        match planSteps (seen ++ [entryId entry]) rest with
        | .error text => .error text
        | .ok steps => .ok (planStep (entryId entry) deps entry :: steps)

/-- `_parse_plan` and the step list built from it. -/
def parsePlan (env : Env) (raw : String) : Except String (List Step) :=
  match plannerArray env raw with
  | .error text => .error text
  | .ok entries =>
    match planSteps [] entries with
    | .error text => .error text
    | .ok [] => .error "ValueError: planner returned no usable steps"
    | .ok steps => .ok steps

/-- `max(1, min(int(max_steps or 8), PLAN_MAX_STEPS))`. -/
def planLimit (maxSteps : Nat) : Nat :=
  max 1 (min (if maxSteps = 0 then 8 else maxSteps) planMaxSteps)

/-- The automatic dispatch of the plan's ready set. -/
def dispatchPlanned (env : Env) (steps : List Step) (flow : Flow) : Tool Reply := do
  let readyIds := (steps.filter fun step => stepStatus step == .ready).map (·.stepId)
  if env.infra.autoDispatchInitialReady && !readyIds.isEmpty then
    let _ ← dispatchBatch env readyIds none
    let fresh ← getFlow .updated
    pure (.ok (fresh.getD flow).expectedRevision)
  else pure (.ok flow.expectedRevision)

def taskflowPlan (env : Env) (goal : String) (maxSteps : Nat) : Tool Reply :=
  let goal := PyText.strip goal
  if goal == "" then pure (.error "Error: goal is required")
  else do
    match ← getFlow .tool with
    | some existing => pure (planTaken existing)
    | none =>
      match ← Prog.perform (E := effects) .admission with
      | some text => pure (.error text)
      | none =>
        match ← Prog.perform (E := effects) (.planner goal) with
        | .error text => pure (.error s!"Error: plan generation failed ({text})")
        | .ok raw =>
          match parsePlan env raw with
          | .error text => pure (.error s!"Error: plan generation failed ({text})")
          | .ok plan =>
            let steps := plan.take (planLimit maxSteps)
            let state := { defaultState goal none (requesterSessionKey env.sessionId) with steps }
            match ← createRooted env (planTexts env.flowId) state goal with
            | .error reply => pure reply
            | .ok flow => dispatchPlanned env steps flow

end SherryAgent.Source.Taskflow
