import SherryAgent.Contracts.Taskflow.Rows

/-!
# The contract of a spawned child

Six paths start a child for a step and record it in the step list. `taskflow_wait_all` starts
its replacements without a contract, and `taskflow_run_task` numbers its step again for every
attempt of the write, after the child was started under the first number.

* `spawn_contract_iff` — the children started and recorded under their step's contract.
* `wait_all_starts_bare` — a replacement that knows neither the schema nor the flow of its step.
-/

namespace SherryAgent.Guarantees.SpawnContracts

open SherryAgent.Source SherryAgent.Source.Taskflow SherryAgent.Contracts.Taskflow
  SherryAgent.Library.Resumption

/-! ## Children and records -/

/-- A step the call starts children for, with the flow it belongs to: one of a list the call
has read, or the one its own arguments make. -/
def Knows (env : Env) (call : Call) (h : History) (step : Step) (flowId : String) : Prop :=
  (∃ site flow, (site, flow) ∈ reads h ∧ step ∈ flow.state.steps ∧ flowId = flow.flowId) ∨
    ∃ args, call = .runTask args ∧ step = args.step step.stepId .ready ∧ flowId = env.flowId

/-- The request carries the contract of a step the call knows. -/
def Carries (env : Env) (thread : Thread effects Call Reply) (request : SpawnRequest) : Prop :=
  ∃ step flowId, Knows env thread.request thread.history step flowId ∧
    request.contract = stepSpawnKwargs step flowId

/-- The child `key` was started under the contract of the step `id`. -/
def Carried (env : Env) (thread : Thread effects Call Reply) (id key : String) : Prop :=
  ∃ step flowId, Knows env thread.request thread.history step flowId ∧ step.stepId = id ∧
    Started thread.history key (stepSpawnKwargs step flowId)

/-- The step ids and children that a write puts together. -/
def putChildren (write : Write) : List (String × String) :=
  match write.build with
  | .redispatch _ stepId newKey _ _ => [(stepId, newKey)]
  | .dispatched records =>
    records.filterMap fun record => record.childSessionKey.map fun key => (record.stepId, key)
  | .retryPlan redispatches _ => redispatches.map fun entry => (entry.1, entry.2.1)
  | .runTask template =>
    (template.childSessionKey.map fun key => (nextStepId write.current.state.steps, key)).toList
  | _ => []

/-- The write, stored on `row`, leaves the child recorded under the step `id`. -/
def Records (write : Write) (row : Flow) (id key : String) : Prop :=
  (id, key) ∈ putChildren write ∧
    ∃ step ∈ (write.update row).state.steps, step.stepId = id ∧ step.childSessionKey = some key

instance (write : Write) (row : Flow) (id key : String) : Decidable (Records write row id key) :=
  inferInstanceAs (Decidable (_ ∧ _))

/-- The next operation of `thread` is to store `write` on `row`. -/
def Stores (w : FlowWorld) (choice : Choice Call Input) (thread : Thread effects Call Reply)
    (write : Write) (row : Flow) : Prop :=
  w.pending choice = some (thread, .updateFlow write) ∧ w.store.row = some row ∧
    row.expectedRevision = write.expectedRevision

/-- The write is no retry plan of `taskflow_wait_all`, and a step of `taskflow_run_task` has the
number its child was started under. -/
def KeepsContract (write : Write) : Prop :=
  match write.build with
  | .retryPlan .. => False
  | .runTask template => template.stepId = nextStepId write.current.state.steps
  | _ => True

/-! ## One operation -/

section Operation

variable {env : Env} {thread : Thread effects Call Reply}

theorem step_contract_ne (step : Step) (flowId : String) : stepSpawnKwargs step flowId ≠ {} := by
  intro bare
  have flow := congrArg SpawnContract.flowId bare
  cases flow

theorem carries_iff {request : SpawnRequest}
    (may : MaySpawn env thread.request thread.history request) :
    Carries env thread request ↔ request.site ≠ .waitAll := by
  generalize calls : thread.request = call at may
  generalize past : thread.history = h at may
  rw [Carries, calls, past]
  cases may with
  | retry accepted unchanged found calls site first contract =>
    refine iff_of_true ⟨_, _, .inl ⟨_, _, accepted.read, (firstByChild_mem found).1, rfl⟩, contract⟩ ?_
    rcases site with retry | judge
    · simp [retry]
    · simp [judge]
  | wave read unchanged dispatchable found site contract =>
    exact iff_of_true ⟨_, _, .inl ⟨_, _, read, (byId_mem found).1, rfl⟩, contract⟩ (by simp [site])
  | dispatch dispatches read unchanged live requested found valid site contract =>
    exact iff_of_true ⟨_, _, .inl ⟨_, _, read, (byId_mem found).1, rfl⟩, contract⟩ (by simp [site])
  | runTask read unchanged live satisfied site contract =>
    exact iff_of_true ⟨_, _, .inr ⟨_, rfl, rfl, rfl⟩, contract⟩ (by simp [site])
  | settled read unchanged busy site bare =>
    refine iff_of_false ?_ fun other => other site
    rintro ⟨step, flowId, -, contract⟩
    exact step_contract_ne step flowId (contract.symm.trans bare)

theorem mem_waveRecords {batch : List BatchSpawn} {id key : String}
    (member : (id, key) ∈ (batch.filterMap waveRecord).filterMap fun record =>
      record.childSessionKey.map fun key => (record.stepId, key)) :
    ∃ spawned ∈ batch, spawned.stepId = id ∧ spawned.key = some key := by
  obtain ⟨record, recorded, named⟩ := List.mem_filterMap.mp member
  obtain ⟨spawned, inside, made⟩ := List.mem_filterMap.mp recorded
  obtain ⟨started, answered, rfl⟩ := Option.map_eq_some_iff.mp made
  cases named
  exact ⟨spawned, inside, rfl, answered⟩

theorem mem_dispatchRecords {steps : List Step} {batch : List BatchSpawn} {id key : String}
    (member : (id, key) ∈ (dispatchRecords steps batch).filterMap fun record =>
      record.childSessionKey.map fun key => (record.stepId, key)) :
    ∃ spawned ∈ batch, spawned.key = some key ∧
      ∃ step, byId steps spawned.stepId = some step ∧ step.stepId = id := by
  obtain ⟨record, recorded, named⟩ := List.mem_filterMap.mp member
  obtain ⟨spawned, inside, made⟩ := List.mem_filterMap.mp recorded
  cases answered : spawned.key with
  | none => simp [answered] at made
  | some started =>
    cases found : byId steps spawned.stepId with
    | none => simp [answered, found] at made
    | some step =>
      simp only [answered, found, Option.some.injEq] at made
      subst made
      cases named
      exact ⟨spawned, inside, answered, step, found, rfl⟩

/-- A batch started its children under the contracts of the steps it records them for. -/
theorem carried_of_batch {site : ReadSite} {flow : Flow} {batch : List BatchSpawn}
    {spawned : BatchSpawn} {id key : String} (read : (site, flow) ∈ reads thread.history)
    (started : BatchStarted thread.history flow batch) (member : spawned ∈ batch)
    (answered : spawned.key = some key)
    (named : ∀ step, byId flow.state.steps spawned.stepId = some step → step.stepId = id) :
    Carried env thread id key := by
  obtain ⟨step, found, child⟩ := started spawned member key answered
  exact ⟨step, flow.flowId, .inl ⟨site, flow, read, (byId_mem found).1, rfl⟩, named step found, child⟩

theorem carried_iff {write : Write} {id key : String}
    (may : MayWrite env thread.request thread.history write) (put : (id, key) ∈ putChildren write) :
    Carried env thread id key ↔ KeepsContract write := by
  obtain ⟨plan, planned, attempt, -⟩ := may
  have build : write.build = plan.build := by cases attempt <;> rfl
  rw [putChildren, build] at put
  rw [KeepsContract, build]
  generalize calls : thread.request = call at planned
  generalize past : thread.history = h at planned
  cases planned with
  | redispatch accepted found decides respawned hash =>
    obtain ⟨rfl, rfl⟩ := Prod.mk.inj (List.mem_singleton.mp put)
    refine iff_of_true ⟨_, _, .inl ⟨_, _, past ▸ accepted.read, (firstByChild_mem found).1, rfl⟩, rfl,
      past ▸ decides.started _ _ respawned⟩ trivial
  | wave read distinct batched started =>
    obtain ⟨spawned, member, rfl, answered⟩ := mem_waveRecords put
    exact iff_of_true (carried_of_batch (past ▸ read) (past ▸ started) member answered
      fun step found => (byId_mem found).2) trivial
  | dispatch dispatches read live batched valid started =>
    obtain ⟨spawned, member, answered, step, found, rfl⟩ := mem_dispatchRecords put
    refine iff_of_true (carried_of_batch (past ▸ read) (past ▸ started) member answered ?_) trivial
    intro other same
    rw [Option.some.inj (same.symm.trans found)]
  | settled read busy respawned waited bare =>
    refine iff_of_false ?_ False.elim
    rintro ⟨step, flowId, -, -, request, member, contract⟩
    exact step_contract_ne step flowId (contract.symm.trans (bare _ (past ▸ member)))
  | @runTask args h flow started read live satisfied only =>
    obtain ⟨rfl, rfl⟩ := Prod.mk.inj (List.mem_singleton.mp put)
    obtain ⟨request, children_eq, contract⟩ := only
    constructor
    · rintro ⟨step, flowId, -, named, other, member, same⟩
      rw [past, children_eq, List.mem_singleton] at member
      obtain ⟨rfl, -⟩ := Prod.mk.inj member
      have ids := congrArg SpawnContract.stepId (contract.symm.trans same)
      exact (Option.some.inj ids).trans named
    · intro kept
      refine ⟨args.step (nextStepId flow.state.steps) .ready, env.flowId,
        .inr ⟨args, calls, rfl, rfl⟩, kept, request, ?_, contract⟩
      rw [past, children_eq]
      exact List.mem_singleton.mpr rfl
  | @single call h flow build kwargs read live writes =>
    cases call with
    | cancel | fail | setWaiting | budgetSet =>
      cases writes
      cases put
    | _ => cases writes
  | _ => cases put

end Operation

/-! ## All runs -/

variable {env : Env} {w : FlowWorld} {row : Option Flow} {choice : Choice Call Input}
  {thread : Thread effects Call Reply}

theorem performs (sound : Sound env w) {op : Op}
    (pending : w.pending choice = some (thread, op)) :
    MayPerform env thread.request thread.history op := by
  cases choice with
  | start call => cases pending
  | run i input =>
    obtain ⟨found, at_index, next⟩ := Option.bind_eq_some_iff.mp pending
    obtain ⟨issued, running, same⟩ := Option.map_eq_some_iff.mp next
    obtain ⟨rfl, rfl⟩ := Prod.mk.inj same
    have issues := sound.honours found (List.mem_of_getElem? at_index)
    rw [Thread.next] at running
    cases program : found.prog with
    | done reply => rw [program] at running; cases running
    | call op next =>
      rw [program] at running issues
      cases running
      exact issues.1

/-- In every run of the calls on one flow: a child is started under the contract of a step
unless `taskflow_wait_all` starts it, and the step it is recorded under is that step exactly
when the write keeps the contract. -/
theorem spawn_contract_iff
    (run : (system env).Runs (fun _ _ => True) (initialWorld row) w)
    (choice : Choice Call Input) (thread : Thread effects Call Reply) :
    (∀ request, w.pending choice = some (thread, .spawn request) →
      (Carries env thread request ↔ request.site ≠ .waitAll)) ∧
    ∀ write stored id key, Stores w choice thread write stored → Records write stored id key →
      (Carried env thread id key ↔ KeepsContract write) := by
  have sound := Runs.sound run (sound_initial row)
  constructor
  · intro request pending
    exact carries_iff (performs sound pending)
  · intro write stored id key stores records
    exact carried_iff (performs sound stores.1) records.1

/-! ## Two runs -/

/-- The next operation stores a write that passes the test. -/
def aboutToStore (choice : Choice Call Input) (w : FlowWorld)
    (test : Thread effects Call Reply → Write → Flow → Bool) : Bool :=
  match w.pending choice, w.store.row with
  | some (thread, .updateFlow write), some row =>
    row.expectedRevision == write.expectedRevision && test thread write row
  | _, _ => false

theorem stores_of_aboutToStore {test : Thread effects Call Reply → Write → Flow → Bool}
    (found : aboutToStore choice w test = true) :
    ∃ thread write stored, Stores w choice thread write stored ∧ test thread write stored = true := by
  unfold aboutToStore at found
  split at found
  · rename_i thread write stored pending stands
    obtain ⟨revision, passes⟩ := (Bool.and_eq_true _ _).mp found
    exact ⟨thread, write, stored, ⟨pending, stands, by simpa using revision⟩, passes⟩
  · cases found

/-- A flow whose child of step `a` is to answer with an object. -/
def schemaFlow : Flow :=
  { flowId := "flow"
    state := { steps := [
      { stepId := "a", task := "collect", status := some .dispatched, childSessionKey := some "k"
        responseSchema := some (.obj [("type", .str "object")])
        retryPolicy := some { maxRetries := 1, retryDelaySeconds := some 0 } }] } }

/-- `taskflow_wait_all` finds the child settled without a result and replaces it. -/
def settledChild : List (Choice Call Input) :=
  [.start .waitAll, .run 0 .tick, .run 0 (.polled .settled), .run 0 .tick,
    .run 0 (.spawned { accepted := true, childSessionKey := "k2" })]

/-- The replacement is recorded under `a`, and was told neither its schema nor its flow. -/
theorem wait_all_starts_bare : ∃ w thread write stored,
    (system (scenarioEnv [] [])).Runs (fun _ _ => True) (initialWorld (some schemaFlow)) w ∧
    Stores w (.run 0 .tick) thread write stored ∧ Records write stored "a" "k2" ∧
    ¬Carried (scenarioEnv [] []) thread "a" "k2" := by
  have played : ((system (scenarioEnv [] [])).play (fun _ _ => true) (initialWorld (some schemaFlow))
      settledChild).any (fun w => aboutToStore (.run 0 .tick) w fun thread write stored =>
        decide (Records write stored "a" "k2") &&
          (children thread.history).all fun child => child.1.contract.flowId.isNone) = true := by
    decide +kernel
  obtain ⟨w, run, holds⟩ := System.Runs.exists_of_play played
  obtain ⟨thread, write, stored, stores, passes⟩ := stores_of_aboutToStore holds
  obtain ⟨records, unset⟩ := (Bool.and_eq_true _ _).mp passes
  refine ⟨w, thread, write, stored, run.mono fun _ _ _ => trivial, stores,
    of_decide_eq_true records, ?_⟩
  rintro ⟨step, flowId, -, -, request, member, contract⟩
  have bare := List.all_eq_true.mp unset _ member
  rw [contract] at bare
  cases bare

/-- A task run beside it is started under the contract of the step it becomes. -/
theorem spawn_contract_run_task : ∃ w thread write stored,
    Stores w (.run 0 .tick) thread write stored ∧ Records write stored "step-2" "k2" ∧
    Carried (scenarioEnv [] []) thread "step-2" "k2" := by
  have played : ((system (scenarioEnv [] [])).play (fun _ _ => true) (initialWorld (some schemaFlow))
      [.start (.runTask { task := "report" }), .run 0 .tick,
        .run 0 (.spawned { accepted := true, childSessionKey := "k2" })]).any
      (fun w => aboutToStore (.run 0 .tick) w fun _ write stored =>
        decide (Records write stored "step-2" "k2") && match write.build with
          | .runTask template => template.stepId == nextStepId write.current.state.steps
          | _ => false) = true := by
    decide +kernel
  obtain ⟨w, run, holds⟩ := System.Runs.exists_of_play played
  obtain ⟨thread, write, stored, stores, passes⟩ := stores_of_aboutToStore holds
  obtain ⟨records, numbered⟩ := (Bool.and_eq_true _ _).mp passes
  have records := of_decide_eq_true records
  refine ⟨w, thread, write, stored, stores, records,
    ((spawn_contract_iff (run.mono fun _ _ _ => trivial) (.run 0 .tick) thread).2 write stored _ _
      stores records).mpr ?_⟩
  unfold KeepsContract
  cases build : write.build with
  | runTask template => simpa [build] using numbered
  | _ => simp [build] at numbered

end SherryAgent.Guarantees.SpawnContracts
