import SherryAgent.Contracts.Taskflow.Rows
import SherryAgent.Contracts.Taskflow.StepLists

/-!
# Step ids name one step

Every lookup of the family keys on `step_id`. The ids of the stored list come from the
caller's initial or full list, from a parsed plan or replan, from the length of the list
(`taskflow_run_task`) and from the append fallback of the dispatch merge.

* `run_task_repeats_id` — the id made from the length of the list is one that the list
  already has;
* `step_ids_distinct` — in every run whose generated ids and replanned ids are new
  (`freshIds`), the stored ids are pairwise distinct.
-/

namespace SherryAgent.Guarantees.StepIds

open SherryAgent.Source SherryAgent.Source.Taskflow SherryAgent.Contracts.Taskflow
  SherryAgent.Library.KeyedList SherryAgent.Library.Resumption

/-- The planner's entries that a replan would add to a list it read have distinct ids. -/
def distinctPlan (env : Env) (keepDone : Bool) (h : History) : Bool :=
  (reads h).all fun (_, flow) => (planTexts h).all fun raw =>
    match parseSteps env raw with
    | .error _ => true
    | .ok planned => decide ((planned.map entryId).filter
        (!(stepIds (replanKept keepDone flow.state.steps)).contains ·)).Nodup

/-- The ids a write adds are new: the id generated from the length of the list is not in
the list, and neither does a replan add an id twice. -/
def freshWrite (env : Env) (call : Call) (h : History) (wr : Write) : Bool :=
  match wr.build, call with
  | .runTask _, _ | .register _, _ =>
    !(stepIds wr.current.state.steps).contains (nextStepId wr.current.state.steps)
  | .replan .., .replan _ keepDone => distinctPlan env keepDone h
  | _, _ => true

/-- `taskflow_create` is given a step list with distinct ids. -/
def createsDistinct : Call → Bool
  | .create args => decide (stepIds (args.initialState.getD {}).steps).Nodup
  | _ => true

/-- The condition on a step. -/
def freshIds (env : Env) (w : FlowWorld) (choice : Choice Call Input) : Bool :=
  match choice with
  | .start call => createsDistinct call
  | .run .. =>
    match w.pending choice, w.store.row with
    | some (thread, .updateFlow wr), some row =>
      row.expectedRevision != wr.expectedRevision || freshWrite env thread.request thread.history wr
    | _, _ => true

/-- Any interleaving of the calls. -/
def anyCalls (_ : FlowWorld) (choice : Choice Call Input) : Bool :=
  match choice with
  | .start call => createsDistinct call
  | .run .. => true

variable {env : Env}

/-! ## One write -/

/-- A call's in-place changes keep the ids of the list it read. -/
theorem planned_ids {call : Call} {h : History} {plan : Plan} (planned : Planned env call h plan) :
    stepIds plan.steps = stepIds plan.read.state.steps := by
  cases planned with
  | redispatch accepted found decides respawned hash => exact stepIds_decidedSteps found decides
  | settle accepted found decides settled hash => exact stepIds_decidedSteps found decides
  | wave read distinct batched => exact stepIds_waveSteps _ _
  | dispatch dispatches read live batched valid => exact stepIds_dispatchedSteps _ _
  | _ => rfl

theorem attempt_ids {call : Call} {h : History} {plan : Plan} {wr : Write}
    (planned : Planned env call h plan) (attempt : Attempt h plan wr) :
    ∃ read ∈ reads h, stepIds wr.current.state.steps = stepIds read.2.state.steps := by
  cases attempt with
  | first unchanged =>
    obtain ⟨site, read⟩ := known_mem_reads unchanged
    exact ⟨_, read, planned_ids planned⟩
  | replay later unchanged reread live replayed => exact ⟨_, reread, rfl⟩

/-- The records of a batch have the distinct ids the batch was started for. -/
theorem records_distinct {flow : Flow} {ids : List String} {batch : List BatchSpawn}
    {record : BatchSpawn → Option Step} (batched : Batched flow ids batch)
    (named : ∀ spawned step, record spawned = some step → step.stepId = spawned.stepId) :
    (stepIds (batch.filterMap record)).Nodup := by
  have among : (stepIds (batch.filterMap record)).Sublist (batch.map (·.stepId)) := by
    clear batched
    induction batch with
    | nil => exact List.Sublist.slnil
    | cons spawned rest ih =>
      cases recorded : record spawned with
      | none =>
        rw [List.filterMap_cons_none recorded]
        exact ih.cons _
      | some step =>
        rw [List.filterMap_cons_some recorded, List.map_cons, stepIds, List.map_cons,
          named spawned step recorded]
        exact ih.cons_cons _
  rw [batched.ids_eq] at among
  exact batched.distinct.sublist among

theorem waveRecord_stepId (spawned : BatchSpawn) (step : Step)
    (recorded : waveRecord spawned = some step) : step.stepId = spawned.stepId := by
  obtain ⟨key, -, rfl⟩ := Option.map_eq_some_iff.mp recorded
  rfl

theorem dispatchRecords_distinct {flow : Flow} {ids : List String} {batch : List BatchSpawn}
    (batched : Batched flow ids batch) :
    (stepIds (dispatchRecords flow.state.steps batch)).Nodup := by
  refine records_distinct batched fun spawned step recorded => ?_
  split at recorded
  · rename_i found
    cases recorded
    exact (byId_mem found).2
  · cases recorded

/-- A generated id that is new can be appended. -/
theorem append_distinct {steps : List Step} {step : Step} (distinct : (stepIds steps).Nodup)
    (fresh : step.stepId ∉ stepIds steps) : (stepIds (steps ++ [step])).Nodup := by
  rw [stepIds_append]
  refine List.nodup_append.mpr ⟨distinct, by simp, ?_⟩
  rintro id listed other added rfl
  rw [stepIds, List.map_singleton, List.mem_singleton] at added
  exact fresh (added ▸ listed)

theorem distinctPlan_apply {keepDone : Bool} {h : History} {site : ReadSite} {flow : Flow}
    {raw : String} {planned : List Json} (distinct : distinctPlan env keepDone h = true)
    (read : (site, flow) ∈ reads h) (text : raw ∈ planTexts h)
    (parsed : parseSteps env raw = .ok planned) :
    ((planned.map entryId).filter
      (!(stepIds (replanKept keepDone flow.state.steps)).contains ·)).Nodup := by
  simp only [distinctPlan, List.all_eq_true] at distinct
  have here := distinct (site, flow) read raw text
  simpa only [parsed, decide_eq_true_eq] using here

/-- The callbacks of a resume keep the ids of the list they run on. -/
theorem resume_ids {build : BuildState} (resumes : BuildState.resumes build = true)
    (current row : Flow) :
    stepIds ((build.apply current).getD row.state).steps = stepIds current.state.steps := by
  cases build with
  | redispatch record stepId newKey retryCount judgeFeedback =>
    exact stepIds_modifyFirst fun _ _ => rfl
  | settle record stepId decided =>
    have written := update_settle_steps record stepId decided 0 current 1 {} row
    refine (congrArg stepIds written).trans ((stepIds_unlockDependents _).trans ?_)
    cases stepId with
    | none => rfl
    | some id => exact stepIds_modifyFirst fun _ _ => rfl
  | _ => cases resumes

theorem retryPlan_ids (redispatches : List (String × String × Int))
    (exhausted : List (String × ResultRecord)) (current : Flow) (state : FlowState) :
    stepIds (((BuildState.retryPlan redispatches exhausted).apply current).getD state).steps =
      stepIds current.state.steps := by
  refine (stepIds_foldl exhausted _ fun steps entry => ?_).trans
    (stepIds_foldl redispatches _ fun steps entry => ?_)
  · refine stepIds_modifyLast ?_
    exact fun _ => rfl
  · refine stepIds_modifyLast ?_
    exact fun _ => rfl

theorem cancelStep_stepId (reason : String) (step : Step) :
    (cancelStep reason step).stepId = step.stepId := by
  unfold cancelStep
  split <;> rfl

theorem collectStep_stepId (reason : String) (step : Step) :
    (collectStep reason step).stepId = step.stepId := by
  unfold collectStep
  split <;> rfl

theorem autoFailStep_stepId (reason : String) (step : Step) :
    (autoFailStep reason step).stepId = step.stepId := by
  unfold autoFailStep
  split <;> rfl

/-- Every write leaves distinct ids, when the rows its call has read have distinct ids
and the ids it adds are new. -/
theorem update_distinct {call : Call} {h : History} {wr : Write} (row : Flow)
    (may : MayWrite env call h wr)
    (read_distinct : ∀ read ∈ reads h, (stepIds read.2.state.steps).Nodup)
    (row_distinct : (stepIds row.state.steps).Nodup) (fresh : freshWrite env call h wr = true) :
    (stepIds (wr.update row).state.steps).Nodup := by
  obtain ⟨plan, planned, attempt, -⟩ := may
  obtain ⟨seen_read, member, current⟩ := attempt_ids planned attempt
  have distinct : (stepIds wr.current.state.steps).Nodup := current ▸ read_distinct _ member
  have build : wr.build = plan.build := by cases attempt <;> rfl
  have written : (wr.update row).state = (plan.build.apply wr.current).getD row.state := by
    rw [← build]
    rfl
  rw [written]
  unfold freshWrite at fresh
  rw [build] at fresh
  cases planned with
  | unmatched accepted none_matched hash =>
    rw [resume_ids rfl]
    exact distinct
  | redispatch accepted found decides respawned hash =>
    rw [resume_ids rfl]
    exact distinct
  | settle accepted found decides settled hash =>
    rw [resume_ids rfl]
    exact distinct
  | wave read unique batched =>
    exact nodup_applyDispatchedSteps distinct (records_distinct batched waveRecord_stepId)
  | dispatch dispatches read live batched valid =>
    exact nodup_applyDispatchedSteps distinct (dispatchRecords_distinct batched)
  | settled read busy respawned =>
    rw [retryPlan_ids]
    exact distinct
  | replan read live text parsed merges =>
    exact nodup_replanMerged merges (read_distinct _ read)
      (distinctPlan_apply fresh read text parsed)
  | runTask read live satisfied =>
    refine append_distinct distinct ?_
    simpa using fresh
  | @register args h flow read live =>
    -- A blocked step is registered by a direct write, whose row is the one that was read.
    have direct : wr.current.state.steps = flow.state.steps := by
      cases attempt with
      | first unchanged => rfl
      | replay later unchanged reread live replayed => cases replayed
    refine append_distinct distinct ?_
    rw [direct] at fresh ⊢
    simpa [RunTaskArgs.step, newStep] using fresh
  | @updateSteps steps revision h flow merged read live valid merges =>
    change (stepIds merged).Nodup
    rw [stepIds_mergeSteps merges]
    exact nodup_normalized valid
  | @single call h flow build kwargs read live writes =>
    cases call with
    | cancel reason revision =>
      cases writes
      change (stepIds (wr.current.state.steps.map (cancelStep reason))).Nodup
      rw [stepIds_map (cancelStep_stepId reason)]
      exact distinct
    | fail reason revision =>
      cases writes
      exact distinct
    | setWaiting reason revision =>
      cases writes
      exact row_distinct
    | budgetSet budget revision =>
      cases writes
      exact row_distinct
    | _ => cases writes
  | @finish summary revision h flow state kwargs read live finishes tokens =>
    change (stepIds state.steps).Nodup
    rcases finishes.steps with same | ⟨-, reason, failed⟩
    · rw [same]
      exact read_distinct _ read
    · rw [failed, stepIds_map (autoFailStep_stepId reason)]
      exact read_distinct _ read
  | @compensate call h flow reason creates read =>
    change (stepIds (wr.current.state.steps.map (collectStep reason))).Nodup
    rw [stepIds_map (collectStep_stepId reason)]
    exact distinct

/-! ## All calls -/

/-- The stored list and every list a call has read have distinct ids. -/
structure Distinct (env : Env) (w : FlowWorld) : Prop where
  honours : w.Honours (MayPerform env) fun _ => MayReturn
  creates : ∀ t ∈ w.threads, createsDistinct t.request = true
  row : ∀ flow, w.store.row = some flow → (stepIds flow.state.steps).Nodup
  reads : ∀ t ∈ w.threads, ∀ read ∈ reads t.history, (stepIds read.2.state.steps).Nodup

variable {w w' : FlowWorld}

theorem created_distinct {call : Call} {flow : Flow} (creates : createsDistinct call = true)
    (may : MayCreate env call flow) : (stepIds flow.state.steps).Nodup := by
  cases may with
  | create => exact of_decide_eq_true creates
  | @plan goal maxSteps raw plan count parsed =>
    exact (nodup_parsePlan parsed).sublist ((List.take_sublist count plan).map _)

theorem distinct_fires {i : Nat} {input : Input} {thread : Thread effects Call Reply} {op : Op}
    {ans : op.Ans} (before : Distinct env w) (allowed : freshIds env w (.run i input) = true)
    (fires : (system env).Fires w w' i thread op ans) (flow : Flow)
    (stands' : w'.store.row = some flow) : (stepIds flow.state.steps).Nodup := by
  have member := System.Fires.mem fires
  have issued := System.Fires.issued fires before.honours
  cases Fires.rowEffect fires with
  | kept same unstored read => exact before.row flow (same ▸ stands')
  | @stored wr row stands matching written =>
    rw [written, Option.some.injEq] at stands'
    subst stands'
    simp only [freshIds, System.Fires.pending fires input, stands, matching,
      bne_self_eq_false, Bool.false_or] at allowed
    exact update_distinct row issued (before.reads thread member) (before.row row stands) allowed
  | created absent written =>
    rw [written, Option.some.injEq] at stands'
    subst stands'
    exact created_distinct (before.creates thread member) issued
  | @superseded successor row stands written =>
    rw [written, Option.some.injEq] at stands'
    subst stands'
    exact before.row row stands

theorem distinct_step {choice : Choice Call Input} (before : Distinct env w)
    (allowed : freshIds env w choice = true) (stepped : (system env).step w choice = some w') :
    Distinct env w' := by
  have creates := System.serves_step (P := fun call => createsDistinct call = true)
    before.creates (fun _ started => by subst started; exact allowed) stepped
  have honours := System.honours_step (fun call => (code_disciplined env call).issues)
    before.honours stepped
  rcases System.step_cases _ stepped with
    ⟨call, rfl, store, threads⟩ | ⟨i, input, thread, op, ans, rfl, fires⟩
  · refine ⟨honours, creates, fun flow stands => before.row flow (store ▸ stands), ?_⟩
    intro t member read seen_read
    rw [threads] at member
    rcases List.mem_append.mp member with old | new
    · exact before.reads t old read seen_read
    · rw [List.mem_singleton.mp new] at seen_read
      cases seen_read
  · have row := distinct_fires before allowed fires
    refine ⟨honours, creates, row, ?_⟩
    intro t member read seen_read
    rcases System.Fires.thread_cases fires member with old | ⟨-, history⟩
    · exact before.reads t old read seen_read
    · rw [history, reads, seen_append] at seen_read
      rcases List.mem_append.mp seen_read with earlier | now
      · exact before.reads thread (System.Fires.mem fires) read earlier
      · have now : reading op ans = some read := by simpa using now
        cases Fires.rowEffect fires with
        | kept same unstored answers => exact before.row _ (answers read.1 read.2 now)
        | _ => cases now

/-- In every interleaving of all calls whose writes add new ids only, the stored ids are
pairwise distinct, whatever the planner answers. -/
theorem step_ids_distinct {flow : Flow}
    (run : (system env).Runs (fun v choice => freshIds env v choice = true) (initialWorld none) w)
    (stands : w.store.row = some flow) : (stepIds flow.state.steps).Nodup := by
  have distinct : Distinct env w := by
    refine System.Runs.invariant _ run ⟨(sound_initial none).honours, ?_, ?_, ?_⟩
      fun _ _ _ before allowed stepped => distinct_step before allowed stepped
    · exact fun _ member => absurd member List.not_mem_nil
    · exact fun _ stood => by cases stood
    · exact fun _ member => absurd member List.not_mem_nil
  exact distinct.row flow stands

/-! ## A created flow and one more task -/

def createWith (id : String) : Call :=
  .create { description := "survey", initialState := some { steps := [
    { stepId := id, task := "collect", status := some .ready }] } }

def runReport : Call := .runTask { task := "report" }

/-- The schedule of a creation followed by one `taskflow_run_task`. -/
def createThenRun (id : String) : List (Choice Call Input) :=
  [.start (createWith id), .run 0 (.gate none), .run 0 .tick, .run 0 .tick,
    .run 0 (.todoBound (.ok ())), .start runReport, .run 1 .tick,
    .run 1 (.spawned { accepted := true, childSessionKey := "k" }), .run 1 .tick, .run 1 .tick]

/-- A list of one step has the id `step-2`, which is the id the next task is given. -/
theorem run_task_repeats_id : ∃ (w : FlowWorld) (flow : Flow),
    (system (scenarioEnv [] [])).Runs (fun v choice => anyCalls v choice = true)
      (initialWorld none) w ∧
    w.store.row = some flow ∧ stepIds flow.state.steps = ["step-2", "step-2"] ∧
    ¬ (stepIds flow.state.steps).Nodup := by
  have played : ((system (scenarioEnv [] [])).play anyCalls (initialWorld none)
      (createThenRun "step-2")).any (fun w => w.store.row.any fun flow =>
        stepIds flow.state.steps == ["step-2", "step-2"]) = true := by
    decide +kernel
  obtain ⟨w, run, holds⟩ := System.Runs.exists_of_play played
  obtain ⟨flow, stands, ids⟩ := (Option.any_eq_true _ _).mp holds
  have ids : stepIds flow.state.steps = ["step-2", "step-2"] := by simpa using ids
  exact ⟨w, flow, run, stands, ids, by rw [ids]; decide⟩

/-- Any other id in the created list leaves the generated one free. -/
theorem step_ids_distinct_two_tasks : ∃ (w : FlowWorld) (flow : Flow),
    w.store.row = some flow ∧ stepIds flow.state.steps = ["survey", "step-2"] ∧
    (stepIds flow.state.steps).Nodup := by
  have played : ((system (scenarioEnv [] [])).play (freshIds (scenarioEnv [] []))
      (initialWorld none) (createThenRun "survey")).any (fun w => w.store.row.any fun flow =>
        stepIds flow.state.steps == ["survey", "step-2"]) = true := by
    decide +kernel
  obtain ⟨w, run, holds⟩ := System.Runs.exists_of_play played
  obtain ⟨flow, stands, ids⟩ := (Option.any_eq_true _ _).mp holds
  exact ⟨w, flow, stands, by simpa using ids, step_ids_distinct run stands⟩

end SherryAgent.Guarantees.StepIds
