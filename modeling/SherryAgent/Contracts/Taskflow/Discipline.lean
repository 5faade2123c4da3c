import SherryAgent.Source.Taskflow.Tools.Lifecycle

/-!
# What a tool call has seen and may do

Views of a call's own history: the rows it read, the row it may still rely on,
the writes it stored, the children it started and the answers it was given. The requirements every
call of the family keeps at its writes and spawns, stated
over that history: which read a write was decided on, which changes the
call made to that row in place, and that a replayed write runs on a fresh row.
-/

namespace SherryAgent.Contracts.Taskflow

open SherryAgent.Source SherryAgent.Source.Taskflow SherryAgent.Library.KeyedList
  SherryAgent.Library.Resumption

/-! ## History -/

def reading : (op : Op) → op.Ans → Option (ReadSite × Flow)
  | .getFlow site, some flow => some (site, flow)
  | _, _ => none

def storing : (op : Op) → op.Ans → Option Write
  | .updateFlow w, .stored => some w
  | _, _ => none

def starting : (op : Op) → op.Ans → Option SpawnRequest
  | .spawn request, result =>
    if result.accepted && result.childSessionKey != "" then some request else none
  | _, _ => none

/-- An accepted spawn with the key of its child. -/
def answering : (op : Op) → op.Ans → Option (SpawnRequest × String)
  | .spawn request, result =>
    if result.accepted && result.childSessionKey != "" then some (request, result.childSessionKey)
    else none
  | _, _ => none

def judging : (op : Op) → op.Ans → Option JudgeResult
  | .judge _ _ _, result => some result
  | _, _ => none

def planning : (op : Op) → op.Ans → Option String
  | .planner _, .ok text => some text
  | _, _ => none

/-- The rows read, with the call of `get_flow` that read them. -/
abbrev reads (h : History) : List (ReadSite × Flow) := seen (E := effects) reading h

abbrev storedWrites (h : History) : List Write := seen (E := effects) storing h

abbrev spawns (h : History) : List SpawnRequest := seen (E := effects) starting h

/-- The children started, each with the request it was started by. -/
abbrev children (h : History) : List (SpawnRequest × String) := seen (E := effects) answering h

abbrev verdicts (h : History) : List JudgeResult := seen (E := effects) judging h

abbrev planTexts (h : History) : List String := seen (E := effects) planning h

theorem reading_eq_some {op : Op} {ans : op.Ans} {site : ReadSite} {flow : Flow}
    (read : reading op ans = some (site, flow)) :
    (⟨op, ans⟩ : Event effects) = ⟨.getFlow site, some flow⟩ := by
  cases op with
  | getFlow site' =>
    cases ans with
    | none => cases read
    | some flow' =>
      cases read
      rfl
  | _ => cases read

theorem starting_eq_some {op : Op} {ans : op.Ans} {request : SpawnRequest}
    (started : starting op ans = some request) :
    ∃ result : SpawnResult, (⟨op, ans⟩ : Event effects) = ⟨.spawn request, result⟩ := by
  cases op with
  | spawn request' =>
    simp only [starting] at started
    split at started
    · cases started
      exact ⟨ans, rfl⟩
    · cases started
  | _ => cases started

/-- The row after an answer, as far as the call can tell. -/
def observe (latest : Option Flow) : (op : Op) → op.Ans → Option Flow
  | .getFlow _, row => row
  | .updateFlow _, .stored => none
  | .createFlow _, _ => none
  | .markFlowSuperseded _, _ => none
  | _, _ => latest

/-- The row as last read, unless the call has changed it since. -/
def known (h : History) : Option Flow :=
  h.foldl (fun latest event => observe latest event.op event.ans) none

@[simp] theorem known_append (h : History) (event : Event effects) :
    known (h ++ [event]) = observe (known h) event.op event.ans := by
  simp [known]

theorem known_read (h : History) (site : ReadSite) (row : Option Flow) :
    known (h ++ [⟨.getFlow site, row⟩]) = row := by
  rw [known_append]
  rfl

theorem mem_reads_read (h : History) (site : ReadSite) (flow : Flow) :
    (site, flow) ∈ reads (h ++ [⟨.getFlow site, some flow⟩]) := by
  rw [reads, seen_append]
  exact List.mem_append_right _ (by simp [reading])

theorem mem_storedWrites (h : History) (w : Write) :
    w ∈ storedWrites (h ++ [⟨.updateFlow w, .stored⟩]) := by
  rw [storedWrites, seen_append]
  exact List.mem_append_right _ (by simp [storing])

theorem answering_of_starting {request : SpawnRequest} {result : SpawnResult}
    (started : starting (.spawn request) result = some request) :
    answering (.spawn request) result = some (request, result.childSessionKey) := by
  simp only [starting] at started
  split at started
  · rename_i accepted
    exact if_pos accepted
  · cases started

theorem children_first {h : History} {request : SpawnRequest} {result : SpawnResult}
    (started : starting (.spawn request) result = some request) (unstarted : children h = []) :
    children (h ++ [⟨.spawn request, result⟩]) = [(request, result.childSessionKey)] := by
  rw [children, seen_append, answering_of_starting started]
  exact congrArg (· ++ [(request, result.childSessionKey)]) unstarted

/-- What was seen stays in the history. -/
theorem seen_mono {β : Type} {view : (op : Op) → op.Ans → Option β} {h h' : History}
    (earlier : h <+: h') {value : β} (member : value ∈ seen (E := effects) view h) :
    value ∈ seen (E := effects) view h' := by
  obtain ⟨tail, rfl⟩ := earlier
  simp only [seen, List.filterMap_append, List.mem_append] at member ⊢
  exact .inl member

/-- A child with the key was started under the contract. -/
def Started (h : History) (key : String) (contract : SpawnContract) : Prop :=
  ∃ request, (request, key) ∈ children h ∧ request.contract = contract

theorem Started.mono {h h' : History} {key : String} {contract : SpawnContract}
    (started : Started h key contract) (earlier : h <+: h') : Started h' key contract :=
  started.imp fun _ => .imp_left (seen_mono earlier)

theorem Started.now {h : History} {request : SpawnRequest} {result : SpawnResult}
    (started : starting (.spawn request) result = some request) :
    Started (h ++ [⟨.spawn request, result⟩]) result.childSessionKey request.contract := by
  refine ⟨request, ?_, rfl⟩
  rw [children, seen_append, answering_of_starting started]
  exact List.mem_append_right _ List.mem_cons_self

/-! ## Discipline -/

/-- The `expected_revision` argument of a call. -/
def Call.expectedRevision : Call → Option Int
  | .runTask args => args.expectedRevision
  | .updateSteps _ revision => revision
  | .dispatch _ revision => revision
  | .resume args => args.expectedRevision
  | .setWaiting _ revision => revision
  | .budgetSet _ revision => revision
  | .cancel _ revision => revision
  | .fail _ revision => revision
  | .finish _ revision => revision
  | _ => none

/-- Callbacks that `update_flow_with_conflict_retry` replays; the other writes are
tried once. -/
def BuildState.replayed : BuildState → Bool
  | .redispatch .. | .settle .. | .dispatched .. | .retryPlan .. | .replan .. | .runTask .. => true
  | _ => false

/-- The two callbacks of `taskflow_resume`. -/
def BuildState.resumes : BuildState → Bool
  | .redispatch .. | .settle .. => true
  | _ => false

/-- A write a call has decided on: the row it read, that row's steps after the
call's in-place changes, the callback, the revision of the first attempt and the
other columns. -/
structure Plan where
  read : Flow
  steps : List Step
  build : BuildState
  revision : Int
  kwargs : UpdateKwargs := {}

def Plan.origin (plan : Plan) : Flow := plan.read.withSteps plan.steps

/-- Nothing but reads and lost writes happened since `h`. -/
structure Quiet (h h' : History) : Prop where
  earlier : h <+: h'
  stored : storedWrites h' = storedWrites h
  spawned : spawns h' = spawns h
  children : children h' = children h
  judged : verdicts h' = verdicts h
  planned : planTexts h' = planTexts h

/-- The attempts of a planned write: the first on the row as changed in place,
every later one on a row read again after a conflict, and nothing else in between. -/
inductive Attempt (h : History) (plan : Plan) : Write → Prop
  | first (unchanged : known h = some plan.read) :
    Attempt h plan ⟨plan.revision, plan.build, plan.origin, 1, plan.kwargs⟩
  | replay {attempt : Nat} {fresh : Flow} (later : 2 ≤ attempt) (unchanged : known h = some fresh)
      (reread : (.conflict, fresh) ∈ reads h) (live : isTerminal fresh.status = false)
      (replayed : BuildState.replayed plan.build = true)
      (decided : ∃ h₀, Quiet h₀ h ∧ known h₀ = some plan.read) :
    Attempt h plan ⟨fresh.expectedRevision, plan.build, fresh, attempt, plan.kwargs⟩

/-! ## Resumes -/

/-- A resume past its duplicate check: the row it read was live and did not hold
the result yet. -/
structure Accepted (env : Env) (args : ResumeArgs) (h : History) (flow : Flow) : Prop where
  read : (.resume (PyText.strip args.childSessionKey), flow) ∈ reads h
  live : isTerminal flow.status = false
  fresh : hasResult flow.state.results
    (resultHash env (PyText.strip args.childSessionKey) args.result) = false

/-- The step a resume is about. -/
def matched (args : ResumeArgs) (flow : Flow) : Option Step :=
  firstByChild flow.state.steps (PyText.strip args.childSessionKey)

/-- The step has criteria to be judged by. -/
def hasCriteria (step : Step) : Bool :=
  PyText.strip (step.judgeCriteria.getD "") != "" ||
    PyText.strip (step.validationCriteria.getD "") != ""

/-- The result may call for a replacement of the matched step: its failure may be retried, or it
goes to the judge, who may ask for a retry. -/
def mayReplace (env : Env) (args : ResumeArgs) (step : Step) : Bool :=
  match declaredOutcome args.stepOutcome with
  | .error _ => false
  | .ok declared =>
    let gate := structuralGate env args (some step)
    shouldRetryFailure step args.result gate.schemaValidated ||
      (gate.schemaValidated != some false && declared != some .failure &&
        declared != some .skipped && hasCriteria (withCriteria args step) &&
        decide (stepRetryCount step < env.infra.judgeMaxRetries))

/-- The judge's verdict leaves the step blocked. -/
def blocking (env : Env) (step : Step) (verdict : JudgeResult) : Prop :=
  verdict.verdict = .block ∨
    (verdict.verdict = .retry ∧ env.infra.judgeMaxRetries ≤ stepRetryCount step)

instance (env : Env) (step : Step) (verdict : JudgeResult) : Decidable (blocking env step verdict) :=
  inferInstanceAs (Decidable (_ ∨ _))

/-- What a resume can make of the matched step. -/
structure Decides (env : Env) (h : History) (flow : Flow) (step : Step) (decision : Decision) :
    Prop where
  stepId : decision.step.stepId = step.stepId
  dependsOn : decision.step.dependsOn = step.dependsOn
  retryPolicy : decision.step.retryPolicy = step.retryPolicy
  redispatched : ∀ key count, decision.redispatched = some (key, count) →
    decision.step.status = some .dispatched ∧ decision.step.childSessionKey = some key
  counted : ∀ key count, decision.redispatched = some (key, count) →
    count = stepRetryCount step + 1 ∧ decision.step.retryCount = count ∧
      (0 < retriesRemaining step ∨ stepRetryCount step < env.infra.judgeMaxRetries)
  started : ∀ key count, decision.redispatched = some (key, count) →
    Started h key (stepSpawnKwargs step flow.flowId)
  uncounted : decision.redispatched = none → decision.step.retryCount = step.retryCount
  settled : decision.redispatched = none →
    decision.step.status = some .done ∨ decision.step.status = some .failed ∨
      decision.step.status = some .skipped ∨ decision.step.status = some .blocked
  judged : ∀ verdict ∈ verdicts h, blocking env step verdict →
    decision.redispatched = none ∧ decision.step.status = some .blocked

/-- The steps of the row a resume read, with the matched step as decided. -/
def decidedSteps (args : ResumeArgs) (flow : Flow) (decision : Decision) : List Step :=
  modifyFirst (·.childSessionKey == some (PyText.strip args.childSessionKey))
    (fun _ => decision.step) flow.state.steps

/-! ## Batches -/

/-- The outcome of spawning `ids` on the row `flow`. -/
structure Batched (flow : Flow) (ids : List String) (batch : List BatchSpawn) : Prop where
  ids_eq : batch.map (·.stepId) = ids
  distinct : ids.Nodup
  found : ∀ spawned ∈ batch, spawned.key.isSome = true →
    ∃ step, byId flow.state.steps spawned.stepId = some step

/-- Every child of the batch was started under the contract of its step. -/
def BatchStarted (h : History) (flow : Flow) (batch : List BatchSpawn) : Prop :=
  ∀ spawned ∈ batch, ∀ key, spawned.key = some key →
    ∃ step, byId flow.state.steps spawned.stepId = some step ∧
      Started h key (stepSpawnKwargs step flow.flowId)

/-- The replacements of `taskflow_wait_all` that were started on the row `flow`: each as
planned, with the count planned for it, in the order of the pairs. -/
structure Respawned (env : Env) (flow : Flow) (pairs : List (String × String))
    (redispatches : List (String × String × Int)) : Prop where
  planned : ∀ entry ∈ redispatches, ∃ step key policy,
    .redispatch step key entry.2.2 policy ∈
      planSettledRetries env flow.state.steps flow.state.results pairs ∧
    entry.1 = step.stepId
  among : (redispatches.map (·.1)).Sublist (pairs.map (·.1))

def Call.dispatches : Call → Prop
  | .dispatch .. | .plan .. => True
  | _ => False

def Call.creates : Call → Prop
  | .create .. | .plan .. => True
  | _ => False

/-- The write of the calls that read once, check and write once. -/
def Call.single : Call → Option (BuildState × UpdateKwargs)
  | .cancel reason _ => some (.cancel reason,
      { wait := some none, status := some .cancelled, terminalReason := some (some "cancelled") })
  | .fail reason _ => some (.fail reason,
      { wait := some none, status := some .failed, terminalReason := some (some "failed") })
  | .setWaiting waitReason _ => some (.keep,
      { wait := some (some waitReason), status := some .waiting })
  | .budgetSet budget _ => some (.keep, { tokenBudget := some budget })
  | _ => none

/-- The states `taskflow_finish` writes: the steps change only when the flow fails, and the
flow completes only behind its gates. -/
structure FinishState (flow : Flow) (state : FlowState) (kwargs : UpdateKwargs) : Prop where
  results : state.results = flow.state.results
  steps : state.steps = flow.state.steps ∨ (kwargs.status = some .failed ∧
    ∃ reason, state.steps = flow.state.steps.map (autoFailStep reason))
  gated : kwargs.status = some .done → ∀ step ∈ flow.state.steps,
    stepStatus step = .done ∨ (stepStatus step).isMember = false

/-! ## Writes and spawns -/

/-- The writes a call may decide on. -/
inductive Planned (env : Env) : Call → History → Plan → Prop
  | unmatched {args h flow record} (accepted : Accepted env args h flow)
      (none_matched : matched args flow = none)
      (hash : record.resultHash =
        resultHash env (PyText.strip args.childSessionKey) args.result) :
    Planned env (.resume args) h
      ⟨flow, flow.state.steps, .settle record none {},
        args.expectedRevision.getD flow.expectedRevision, resumeKwargs flow args.tokenUsage⟩
  | redispatch {args h flow record step decision key count feedback}
      (accepted : Accepted env args h flow) (found : matched args flow = some step)
      (decides : Decides env h flow step decision)
      (respawned : decision.redispatched = some (key, count))
      (hash : record.resultHash =
        resultHash env (PyText.strip args.childSessionKey) args.result) :
    Planned env (.resume args) h
      ⟨flow, decidedSteps args flow decision, .redispatch record step.stepId key count feedback,
        args.expectedRevision.getD flow.expectedRevision, resumeKwargs flow args.tokenUsage⟩
  | settle {args h flow record step decision}
      (accepted : Accepted env args h flow) (found : matched args flow = some step)
      (decides : Decides env h flow step decision) (settled : decision.redispatched = none)
      (hash : record.resultHash =
        resultHash env (PyText.strip args.childSessionKey) args.result) :
    Planned env (.resume args) h
      ⟨flow, decidedSteps args flow decision,
        .settle record (some step.stepId) (.ofStep decision.step),
        args.expectedRevision.getD flow.expectedRevision, resumeKwargs flow args.tokenUsage⟩
  | wave {args h ids flow batch} (read : (.wave ids, flow) ∈ reads h) (distinct : ids.Nodup)
      (batched : Batched flow (waveReady flow.state.steps ids) batch)
      (started : BatchStarted h flow batch) :
    Planned env (.resume args) h
      ⟨flow, waveSteps flow.state.steps batch, .dispatched (batch.filterMap waveRecord),
        flow.expectedRevision, {}⟩
  | dispatch {call h ids flow batch} (dispatches : Call.dispatches call)
      (read : (.dispatch ids, flow) ∈ reads h) (live : isTerminal flow.status = false)
      (batched : Batched flow ids batch)
      (valid : ∀ id ∈ ids, dispatchError flow.state.steps id = none)
      (started : BatchStarted h flow batch) :
    Planned env call h
      ⟨flow, dispatchedSteps flow.state.steps batch,
        .dispatched (dispatchRecords flow.state.steps batch),
        (Call.expectedRevision call).getD flow.expectedRevision, {}⟩
  | settled {h pairs flow redispatches exhausted}
      (read : (.settled pairs, flow) ∈ reads h)
      (busy : planSettledRetries env flow.state.steps flow.state.results pairs ≠ [])
      (respawned : Respawned env flow pairs redispatches)
      (waited : ∃ polled, (.waitAll, polled) ∈ reads h ∧ pairs = waitTargets polled.state.steps)
      (bare : ∀ child ∈ children h, child.1.contract = {}) :
    Planned env .waitAll h
      ⟨flow, flow.state.steps, .retryPlan redispatches exhausted, flow.expectedRevision, {}⟩
  | replan {reason keepDone h flow raw planned merged} (read : (.tool, flow) ∈ reads h)
      (live : isTerminal flow.status = false) (text : raw ∈ planTexts h)
      (parsed : parseSteps env raw = .ok planned)
      (merges : replanMerged keepDone flow.state.steps planned = .ok merged) :
    Planned env (.replan reason keepDone) h
      ⟨flow, flow.state.steps, .replan merged flow.state.replanCount reason,
        flow.expectedRevision, { status := some .running }⟩
  | runTask {args h flow key} (read : (.tool, flow) ∈ reads h)
      (live : isTerminal flow.status = false)
      (satisfied : depsSatisfied (args.step (nextStepId flow.state.steps) .ready)
        flow.state.steps = true)
      (only : ∃ request, children h = [(request, key)] ∧ request.contract =
        stepSpawnKwargs (args.step (nextStepId flow.state.steps) .ready) env.flowId) :
    Planned env (.runTask args) h
      ⟨flow, flow.state.steps,
        .runTask { args.step (nextStepId flow.state.steps) .dispatched with
          childSessionKey := some key },
        args.expectedRevision.getD flow.expectedRevision, { childSessionKey := some (some key) }⟩
  | register {args h flow} (read : (.tool, flow) ∈ reads h)
      (live : isTerminal flow.status = false) :
    Planned env (.runTask args) h
      ⟨flow, flow.state.steps, .register (args.step (nextStepId flow.state.steps) .blocked),
        args.expectedRevision.getD flow.expectedRevision, {}⟩
  | updateSteps {steps revision h flow merged} (read : (.tool, flow) ∈ reads h)
      (live : isTerminal flow.status = false) (valid : validateStepsList steps = none)
      (merges : mergeSteps flow.state.steps (steps.map normalizeStep) = .ok merged) :
    Planned env (.updateSteps steps revision) h
      ⟨flow, flow.state.steps, .updateSteps merged, revision.getD flow.expectedRevision, {}⟩
  | single {call h flow build kwargs} (read : (.tool, flow) ∈ reads h)
      (live : isTerminal flow.status = false) (writes : Call.single call = some (build, kwargs)) :
    Planned env call h
      ⟨flow, flow.state.steps, build,
        (Call.expectedRevision call).getD flow.expectedRevision, kwargs⟩
  | finish {summary revision h flow state kwargs} (read : (.tool, flow) ∈ reads h)
      (live : isTerminal flow.status = false) (finishes : FinishState flow state kwargs)
      (tokens : kwargs.totalTokens = none) :
    Planned env (.finish summary revision) h
      ⟨flow, flow.state.steps, .put state, revision.getD flow.expectedRevision, kwargs⟩
  | compensate {call h flow reason} (creates : Call.creates call)
      (read : (.updated, flow) ∈ reads h) :
    Planned env call h
      ⟨flow, flow.state.steps, .collect reason, flow.expectedRevision,
        { wait := some none, status := some .failed, terminalReason := some (some reason) }⟩

/-- A write a call may perform: an attempt of a planned one; a resume records its
result with its first stored write. -/
def MayWrite (env : Env) (call : Call) (h : History) (w : Write) : Prop :=
  ∃ plan, Planned env call h plan ∧ Attempt h plan w ∧
    (BuildState.resumes plan.build = true → storedWrites h = [])

/-- The children a call may start, each decided on the row the call still knows. -/
inductive MaySpawn (env : Env) : Call → History → SpawnRequest → Prop
  | retry {args h flow step request} (accepted : Accepted env args h flow)
      (unchanged : known h = some flow) (found : matched args flow = some step)
      (calls : mayReplace env args step = true)
      (site : request.site = .resumeRetry ∨ request.site = .judgeRetry)
      (first : storedWrites h = [] ∧ spawns h = [])
      (contract : request.contract = stepSpawnKwargs step flow.flowId) : MaySpawn env (.resume args) h request
  | wave {args h ids flow id step request} (read : (.wave ids, flow) ∈ reads h)
      (unchanged : known h = some flow) (dispatchable : id ∈ waveReady flow.state.steps ids)
      (found : byId flow.state.steps id = some step) (site : request.site = .wave)
      (contract : request.contract = stepSpawnKwargs step flow.flowId) :
    MaySpawn env (.resume args) h request
  | dispatch {call h ids flow id step request} (dispatches : Call.dispatches call)
      (read : (.dispatch ids, flow) ∈ reads h) (unchanged : known h = some flow)
      (live : isTerminal flow.status = false) (requested : id ∈ ids)
      (found : byId flow.state.steps id = some step)
      (valid : dispatchError flow.state.steps id = none) (site : request.site = .dispatch)
      (contract : request.contract = stepSpawnKwargs step flow.flowId) :
    MaySpawn env call h request
  | runTask {args h flow request} (read : (.tool, flow) ∈ reads h)
      (unchanged : known h = some flow) (live : isTerminal flow.status = false)
      (satisfied : depsSatisfied (args.step (nextStepId flow.state.steps) .ready)
        flow.state.steps = true) (site : request.site = .runTask)
      (contract : request.contract =
        stepSpawnKwargs (args.step (nextStepId flow.state.steps) .ready) env.flowId) :
    MaySpawn env (.runTask args) h request
  | settled {h pairs flow request} (read : (.settled pairs, flow) ∈ reads h)
      (unchanged : known h = some flow)
      (busy : planSettledRetries env flow.state.steps flow.state.results pairs ≠ [])
      (site : request.site = .waitAll) (bare : request.contract = {}) : MaySpawn env .waitAll h request

/-- The rows a call may create. -/
inductive MayCreate (env : Env) : Call → Flow → Prop
  | create {args} : MayCreate env (.create args)
      { flowId := env.flowId, state := defaultState args.description args.initialState
          (requesterSessionKey env.sessionId) }
  | plan {goal maxSteps raw plan count} (parsed : parsePlan env raw = .ok plan) :
      MayCreate env (.plan goal maxSteps)
        { flowId := env.flowId, state := { defaultState (PyText.strip goal) none
            (requesterSessionKey env.sessionId) with steps := plan.take count } }

def MayPerform (env : Env) (call : Call) (h : History) : Op → Prop
  | .updateFlow w => MayWrite env call h w
  | .spawn request => MaySpawn env call h request
  | .createFlow flow => MayCreate env call flow
  | .markFlowSuperseded _ => ∃ successor, call = .supersede successor
  | .getFlow (.resume child) =>
    h = [] ∧ ∃ args, call = .resume args ∧ child = PyText.strip args.childSessionKey
  | _ => True

def Reply.isResumed : Reply → Bool
  | .resumed .. => true
  | _ => false

/-- A call that reports a resume has stored it. -/
def MayReturn (h : History) (reply : Reply) : Prop :=
  Reply.isResumed reply = true → ∃ w ∈ storedWrites h, BuildState.resumes w.build = true

/-- The specification of a call, from its first operation to its reply. -/
structure Disciplined (env : Env) (call : Call) : Prop where
  issues : (code env call).Issues (E := effects) (MayPerform env call) MayReturn []

end SherryAgent.Contracts.Taskflow
