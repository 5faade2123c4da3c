import SherryAgent.Contracts.Taskflow.Rows
import SherryAgent.Contracts.Taskflow.Unlock

/-!
# Steps the judge has blocked

The step judge blocks a step on a BLOCK verdict, or on a RETRY verdict without budget.
`blocked` also means waiting on dependencies, and the unlock pass of the same write and
of every later resume moves such steps to ready.

* `judged_step_is_unlocked` — the pass readies the step it has just blocked, because its
  dependencies are done;
* `judge_block_stays` — as long as the pass finds nothing to use in the dependencies of
  the step (`pinnedAt`), a judge-blocked step stays blocked until a write names it.
-/

namespace SherryAgent.Guarantees.JudgeBlock

open SherryAgent.Source SherryAgent.Source.Taskflow SherryAgent.Contracts.Taskflow
  SherryAgent.Library.KeyedList SherryAgent.Library.Resumption

/-- The list the unlock pass of a write runs on. -/
def unlockInput (wr : Write) : Option (List Step) :=
  match wr.build with
  | .settle _ none _ => some wr.current.state.steps
  | .settle _ (some id) decided =>
    some (modifyFirst (·.stepId == id) decided.apply wr.current.state.steps)
  | _ => none

/-- The write names the step: it decides about it, dispatches it, adds a step with its
id, or rewrites or ends the flow as a whole. -/
def names (id : String) (wr : Write) : Bool :=
  match wr.build with
  | .redispatch _ stepId _ _ _ => stepId == id
  | .settle _ stepId _ => stepId == some id
  | .dispatched records => records.any (·.stepId == id)
  | .retryPlan redispatches exhausted =>
    redispatches.any (·.1 == id) || exhausted.any (·.1 == id)
  | .runTask _ => nextStepId wr.current.state.steps == id
  | .register candidate => candidate.stepId == id
  | .put _ => wr.kwargs.status == some .failed
  | .keep => false
  | .replan .. | .updateSteps _ | .cancel _ | .fail _ | .collect _ => true

/-- A step of the system whose write succeeds on the row. -/
def writes (w : FlowWorld) (choice : Choice Call Input) : Option (Thread effects Call Reply × Write) :=
  match w.pending choice, w.store.row with
  | some (thread, .updateFlow wr), some row =>
    if row.expectedRevision = wr.expectedRevision then some (thread, wr) else none
  | _, _ => none

/-- No write of the step names the flow's step `id`. -/
def leavesAlone (id : String) (w : FlowWorld) (choice : Choice Call Input) : Bool :=
  (writes w choice).all fun (_, wr) => !names id wr

/-- The condition on a step: the unlock pass of a write finds nothing to use in the
dependencies of the flow's step `id`, and no write expects a larger revision than that of
the row it was computed from. -/
def pinnedAt (id : String) (w : FlowWorld) (choice : Choice Call Input) : Bool :=
  (writes w choice).all fun (_, wr) =>
    decide (wr.expectedRevision ≤ wr.current.expectedRevision) &&
      (unlockInput wr).all fun steps => (firstById steps id).all (pinned steps)

/-- The step stores a resume whose judge verdict blocks the flow's step `id`, which the
list it runs on still has. -/
def judgeBlocks (env : Env) (id : String) (w : FlowWorld) (choice : Choice Call Input) : Bool :=
  (writes w choice).any fun (thread, wr) =>
    BuildState.resumes wr.build && (firstById wr.current.state.steps id).isSome &&
      match thread.request with
      | .resume args => (reads thread.history).any fun (site, flow) =>
        site == .resume (PyText.strip args.childSessionKey) &&
          (matched args flow).any fun step => step.stepId == id &&
            (verdicts thread.history).any fun verdict => decide (blocking env step verdict)
      | _ => false

variable {env : Env} {id : String}

/-! ## Writes that do not name the step -/

theorem firstById_modifyLast {f : Step → Step} {steps : List Step} {other : String}
    (same : ∀ step, (f step).stepId = step.stepId) (differs : other ≠ id) :
    firstById (modifyLast (·.stepId == other) f steps) id = firstById steps id := by
  refine find?_modifyLast_of_ne fun step _ hit => ?_
  have named : step.stepId = other := by simpa using hit
  simp [same, named, differs]

theorem firstById_modifyFirst {f : Step → Step} {steps : List Step} {other : String}
    (same : ∀ step, (f step).stepId = step.stepId) (differs : other ≠ id) :
    firstById (modifyFirst (·.stepId == other) f steps) id = firstById steps id := by
  refine find?_modifyFirst_of_ne fun step first => ?_
  have named : step.stepId = other := by simpa using List.find?_some first
  simp [same, named, differs]

theorem firstById_append {steps : List Step} {step : Step} (differs : step.stepId ≠ id) :
    firstById (steps ++ [step]) id = firstById steps id := by
  simp [firstById, List.find?_append, differs]

/-- A loop whose rounds leave the step alone leaves it alone. -/
theorem firstById_foldl {ι : Type} {update : List Step → ι → List Step} {items : List ι}
    (round : ∀ current, ∀ item ∈ items, firstById (update current item) id = firstById current id)
    (steps : List Step) : firstById (items.foldl update steps) id = firstById steps id := by
  induction items generalizing steps with
  | nil => rfl
  | cons item rest ih =>
    rw [List.foldl_cons, ih fun current other member => round current other (by simp [member])]
    exact round steps item (by simp)

theorem firstById_applyDispatchedSteps {steps records : List Step}
    (others : ∀ record ∈ records, record.stepId ≠ id) :
    firstById (applyDispatchedSteps steps records) id = firstById steps id := by
  refine firstById_foldl (fun current record member => ?_) steps
  split
  · refine firstById_modifyLast ?_ (others record member)
    exact fun _ => rfl
  · exact firstById_append (others record member)

theorem firstById_decidedSteps {args : ResumeArgs} {h : History} {flow : Flow} {step : Step}
    {decision : Decision} (found : matched args flow = some step)
    (decides : Decides env h flow step decision) (differs : step.stepId ≠ id) :
    firstById (decidedSteps args flow decision) id = firstById flow.state.steps id := by
  refine find?_modifyFirst_of_ne fun first here => ?_
  have same : some step = some first := found.symm.trans here
  cases same
  simp [decides.stepId, differs]

theorem firstById_waveSteps {steps : List Step} {batch : List BatchSpawn}
    (others : ∀ record ∈ batch.filterMap waveRecord, record.stepId ≠ id) :
    firstById (waveSteps steps batch) id = firstById steps id := by
  refine firstById_foldl (fun current spawned member => ?_) steps
  split
  · rename_i started
    rw [Bool.and_eq_true] at started
    obtain ⟨key, started⟩ := Option.isSome_iff_exists.mp started.1
    have differs : spawned.stepId ≠ id := others
      { stepId := spawned.stepId, status := some .dispatched, childSessionKey := some key }
      (List.mem_filterMap.mpr ⟨spawned, member, by simp [waveRecord, started]⟩)
    refine firstById_modifyLast ?_ differs
    exact fun _ => rfl
  · rfl

theorem firstById_dispatchedSteps {flow : Flow} {ids : List String} {batch : List BatchSpawn}
    (batched : Batched flow ids batch)
    (others : ∀ record ∈ dispatchRecords flow.state.steps batch, record.stepId ≠ id) :
    firstById (dispatchedSteps flow.state.steps batch) id = firstById flow.state.steps id := by
  refine firstById_foldl (fun current spawned member => ?_) flow.state.steps
  split
  · rfl
  · rename_i key started
    obtain ⟨step, found⟩ := batched.found spawned member (by simp [started])
    have differs := others (dispatchStep key step)
      (List.mem_filterMap.mpr ⟨spawned, member, by simp [started, found]⟩)
    have named : (dispatchStep key step).stepId = spawned.stepId := (byId_mem found).2
    refine firstById_modifyLast ?_ (named ▸ differs)
    exact fun _ => rfl

/-- The in-place changes of a call to the row it read, when its write does not name the
step. -/
theorem firstById_planned {call : Call} {h : History} {plan : Plan} {wr : Write}
    (planned : Planned env call h plan) (build : wr.build = plan.build)
    (spared : names id wr = false) :
    firstById plan.steps id = firstById plan.read.state.steps id := by
  unfold names at spared
  rw [build] at spared
  cases planned with
  | redispatch accepted found decides respawned hash =>
    exact firstById_decidedSteps found decides (by simpa using spared)
  | settle accepted found decides settled hash =>
    exact firstById_decidedSteps found decides (by simpa using spared)
  | wave read distinct batched =>
    exact firstById_waveSteps fun record member => by
      simpa using List.any_eq_false.mp spared record member
  | dispatch dispatches read live batched valid =>
    exact firstById_dispatchedSteps batched fun record member => by
      simpa using List.any_eq_false.mp spared record member
  | _ => rfl

/-- The step in the list a write runs on, when the write does not name it. -/
theorem firstById_current {call : Call} {h : History} {plan : Plan} {wr : Write} {row : Flow}
    (planned : Planned env call h plan) (based : Based plan row wr)
    (spared : names id wr = false) :
    firstById wr.current.state.steps id = firstById row.state.steps id := by
  have unplanned := firstById_planned planned based.build spared
  cases based with
  | first same =>
    rw [← same]
    exact unplanned
  | replay later live replayed => rfl

/-- The state a finish stores has the steps of the row, or fails the flow. -/
theorem put_steps {call : Call} {h : History} {plan : Plan} {wr : Write} {row : Flow}
    {state : FlowState} (planned : Planned env call h plan) (based : Based plan row wr)
    (put : wr.build = .put state) (spared : names id wr = false) :
    state.steps = row.state.steps := by
  have build := based.build
  have failed : wr.kwargs.status ≠ some .failed := by simpa [names, put] using spared
  rw [put] at build
  rw [based.kwargs] at failed
  cases planned with
  | finish read live finishes tokens =>
    cases build
    rcases finishes.steps with same | ⟨fails, -⟩
    · cases based with
      | first read_row => rw [same, ← read_row]
      | replay later live replayed => cases replayed
    · exact absurd fails failed
  | single read live writes => cases call <;> cases writes <;> cases build
  | _ => cases build

/-- A write that does not name the step, other than by the unlock pass, leaves it alone. -/
theorem firstById_update {call : Call} {h : History} {plan : Plan} {wr : Write} {row : Flow}
    (planned : Planned env call h plan) (based : Based plan row wr)
    (spared : names id wr = false) (no_pass : unlockInput wr = none) :
    firstById (wr.update row).state.steps id = firstById row.state.steps id := by
  have current := firstById_current planned based spared
  cases build : wr.build with
  | redispatch record stepId newKey retryCount judgeFeedback =>
    have differs : stepId ≠ id := by simpa [names, build] using spared
    rw [← current, Write.update, build]
    refine firstById_modifyFirst ?_ differs
    exact fun _ => rfl
  | settle record stepId decided => cases stepId <;> simp [unlockInput, build] at no_pass
  | dispatched records =>
    have others : ∀ record ∈ records, record.stepId ≠ id := by
      simpa [names, build] using spared
    rw [← current, Write.update, build]
    exact firstById_applyDispatchedSteps others
  | retryPlan redispatches exhausted =>
    simp only [names, build, Bool.or_eq_false_iff, List.any_eq_false, beq_iff_eq] at spared
    rw [← current, Write.update, build]
    refine (firstById_foldl (fun steps entry member => ?_) _).trans
      (firstById_foldl (fun steps entry member => ?_) _)
    · refine firstById_modifyLast ?_ (spared.2 entry member)
      exact fun _ => rfl
    · refine firstById_modifyLast ?_ (spared.1 entry member)
      exact fun _ => rfl
  | runTask template =>
    have differs : nextStepId wr.current.state.steps ≠ id := by
      simpa [names, build] using spared
    rw [← current, Write.update, build]
    exact firstById_append differs
  | register candidate =>
    have differs : candidate.stepId ≠ id := by simpa [names, build] using spared
    rw [← current, Write.update, build]
    exact firstById_append differs
  | put state =>
    have same := put_steps planned based build spared
    rw [Write.update, build]
    exact congrArg (firstById · id) same
  | keep =>
    rw [Write.update, build]
    rfl
  | _ => simp [names, build] at spared

/-! ## The unlock pass -/

theorem update_unlocked {wr : Write} {row : Flow} {steps : List Step}
    (input : unlockInput wr = some steps) :
    (wr.update row).state.steps = unlockDependents steps := by
  obtain ⟨revision, build, current, attempt, kwargs⟩ := wr
  cases build with
  | settle record stepId decided =>
    rw [update_settle_steps]
    cases stepId with
    | none =>
      cases input
      rfl
    | some settled =>
      cases input
      rfl
  | _ => cases input

theorem firstById_unlockInput {wr : Write} {steps : List Step} (input : unlockInput wr = some steps)
    (spared : names id wr = false) :
    firstById steps id = firstById wr.current.state.steps id := by
  unfold unlockInput at input
  split at input
  · cases input
    rfl
  · rename_i settled decided build
    cases input
    have differs : settled ≠ id := by simpa [names, build] using spared
    refine firstById_modifyFirst ?_ differs
    exact fun _ => rfl
  · cases input

/-- A write that does not name the step keeps it blocked. -/
theorem blockedAt_update {call : Call} {h : History} {plan : Plan} {wr : Write} {row : Flow}
    (planned : Planned env call h plan) (based : Based plan row wr)
    (spared : names id wr = false) (blocked : BlockedAt id row.state.steps)
    (held : ∀ steps, unlockInput wr = some steps →
      ∀ step, firstById steps id = some step → pinned steps step = true) :
    BlockedAt id (wr.update row).state.steps := by
  cases input : unlockInput wr with
  | none =>
    rw [BlockedAt, firstById_update planned based spared input]
    exact blocked
  | some steps =>
    rw [update_unlocked input]
    refine blockedAt_unlockDependents ?_ (held steps input)
    rw [BlockedAt, firstById_unlockInput input spared, firstById_current planned based spared]
    exact blocked

/-! ## The blocking write -/

/-- A call of `taskflow_resume` makes one read of its own site. -/
def ReadsOnce (_ : Call) (h : History) : Prop :=
  ∀ child child' flow flow', (.resume child, flow) ∈ reads h → (.resume child', flow') ∈ reads h →
    flow = flow'

theorem readsOnce_extend {call : Call} {h : History} {op : Op} {ans : op.Ans}
    (before : ReadsOnce call h) (may : MayPerform env call h op) :
    ReadsOnce call (h ++ [⟨op, ans⟩]) := by
  intro child child' flow flow' one other
  rw [reads, seen_append, List.mem_append] at one other
  -- The first read of a resume is its first operation.
  have first : ∀ {child flow}, reading op ans = some (.resume child, flow) → h = [] := by
    intro child flow now
    cases reading_eq_some now
    exact may.1
  rcases one with old | now <;> rcases other with old' | now'
  · exact before child child' flow flow' old old'
  · have now' : reading op ans = some (.resume child', flow') := by simpa using now'
    rw [first now'] at old
    cases old
  · have now : reading op ans = some (.resume child, flow) := by simpa using now
    rw [first now] at old'
    cases old'
  · have now : reading op ans = some (.resume child, flow) := by simpa using now
    have now' : reading op ans = some (.resume child', flow') := by simpa using now'
    rw [now] at now'
    cases now'
    rfl

/-- The resume write of a call whose verdict blocks the step leaves it blocked, unless the
unlock pass moves it. -/
theorem blockedAt_judged {args : ResumeArgs} {h : History} {wr : Write} {row : Flow} {child : String}
    {flow : Flow} {step : Step} {verdict : JudgeResult} (may : MayWrite env (.resume args) h wr)
    (once : ReadsOnce (.resume args) h) (resumes : BuildState.resumes wr.build = true)
    (read : (.resume child, flow) ∈ reads h) (found : matched args flow = some step)
    (judged : verdict ∈ verdicts h) (blocks : blocking env step verdict)
    (listed : (firstById wr.current.state.steps step.stepId).isSome = true)
    (held : ∀ steps, unlockInput wr = some steps →
      ∀ target, firstById steps step.stepId = some target → pinned steps target = true) :
    BlockedAt step.stepId (wr.update row).state.steps := by
  obtain ⟨plan, planned, attempt, -⟩ := may
  have build : wr.build = plan.build := by cases attempt <;> rfl
  cases planned with
  | unmatched accepted none_matched hash =>
    cases once _ _ _ _ accepted.read read
    rw [found] at none_matched
    cases none_matched
  | redispatch accepted found' decides respawned hash =>
    cases once _ _ _ _ accepted.read read
    cases found.symm.trans found'
    rw [(decides.judged verdict judged blocks).1] at respawned
    cases respawned
  | @settle args h flow' record step' decision accepted found' decides settled hash =>
    cases once _ _ _ _ accepted.read read
    cases found.symm.trans found'
    have status := (decides.judged verdict judged blocks).2
    have input : unlockInput wr = some (modifyFirst (·.stepId == step.stepId)
        (DecidedFields.ofStep decision.step).apply wr.current.state.steps) := by
      rw [unlockInput, build]
    rw [update_unlocked input]
    refine blockedAt_unlockDependents ?_ (held _ input)
    have still : ∀ a, wr.current.state.steps.find? (·.stepId == step.stepId) = some a →
        ((DecidedFields.ofStep decision.step).apply a).stepId == step.stepId :=
      fun a hit => by
        have named := List.find?_some hit
        exact named
    obtain ⟨old, first⟩ := Option.isSome_iff_exists.mp listed
    rw [firstById] at first
    refine ⟨(DecidedFields.ofStep decision.step).apply old, ?_, ?_⟩
    · rw [firstById, find?_modifyFirst_self still, first]
      rfl
    · simp [DecidedFields.apply, DecidedFields.ofStep, status, stepStatus]
  | wave read distinct batched =>
    rw [build] at resumes
    cases resumes
  | dispatch dispatches => cases dispatches
  | single read live writes => cases writes
  | compensate creates read => cases creates

/-! ## Whole runs -/

structure Reading (env : Env) (w : FlowWorld) : Prop where
  sound : Sound env w
  once : ∀ t ∈ w.threads, ReadsOnce t.request t.history

variable {w w' w'' : FlowWorld}

theorem reading_step {choice : Choice Call Input} (before : Reading env w)
    (stepped : (system env).step w choice = some w') : Reading env w' :=
  ⟨sound_step before.sound stepped, System.histories_step (P := ReadsOnce)
    (fun _ _ _ _ _ one => by cases one) (fun _ _ _ _ holds may => readsOnce_extend holds may)
    before.sound.honours before.once stepped⟩

/-- The step is blocked in the stored row. -/
structure Holding (env : Env) (id : String) (w : FlowWorld) : Prop where
  sound : Sound env w
  blocked : ∃ row, w.store.row = some row ∧ BlockedAt id row.state.steps

theorem writes_eq {i : Nat} {input : Input} {thread : Thread effects Call Reply} {wr : Write}
    {row : Flow} (fires : (system env).Fires w w' i thread (.updateFlow wr) .stored)
    (stands : w.store.row = some row) (matching : row.expectedRevision = wr.expectedRevision) :
    writes w (.run i input) = some (thread, wr) := by
  simp [writes, System.Fires.pending fires input, stands, matching]

theorem holding_step {choice : Choice Call Input} (before : Holding env id w)
    (spared : leavesAlone id w choice = true) (held : pinnedAt id w choice = true)
    (stepped : (system env).step w choice = some w') : Holding env id w' := by
  refine ⟨sound_step before.sound stepped, ?_⟩
  obtain ⟨row, stands, blocked⟩ := before.blocked
  rcases System.step_cases _ stepped with
    ⟨call, -, store, -⟩ | ⟨i, input, thread, op, ans, rfl, fires⟩
  · exact ⟨row, by rw [store]; exact stands, blocked⟩
  · cases Fires.rowEffect fires with
    | kept same unstored read => exact ⟨row, same.trans stands, blocked⟩
    | @stored wr row₀ stands₀ matching written =>
      rw [stands, Option.some.injEq] at stands₀
      subst stands₀
      have issued := System.Fires.issued fires before.sound.honours
      simp only [leavesAlone, pinnedAt, writes_eq fires stands matching, Option.all_some,
        Bool.and_eq_true, decide_eq_true_eq, Bool.not_eq_true'] at spared held
      obtain ⟨plan, planned, based⟩ := before.sound.based (System.Fires.mem fires) issued stands
        matching held.1
      refine ⟨_, written, blockedAt_update planned based spared blocked ?_⟩
      intro steps input step found
      simpa [input, found] using held.2
    | created absent written =>
      rw [stands] at absent
      cases absent
    | @superseded successor row₀ stands₀ written =>
      rw [stands, Option.some.injEq] at stands₀
      subst stands₀
      exact ⟨_, written, blocked⟩

theorem stored_of_writes {choice : Choice Call Input} {thread : Thread effects Call Reply}
    {wr : Write} (write : writes w choice = some (thread, wr))
    (stepped : (system env).step w choice = some w') :
    thread ∈ w.threads ∧ ∃ row, w.store.row = some row ∧ w'.store.row = some (wr.update row) ∧
      (w.Honours (MayPerform env) (fun _ => MayReturn) →
        MayWrite env thread.request thread.history wr) := by
  unfold writes at write
  split at write
  · rename_i thread' wr' row pending stands
    split at write
    · rename_i matching
      cases write
      rcases System.step_cases _ stepped with
        ⟨call, rfl, -, -⟩ | ⟨i, input, firing, op, ans, rfl, fires⟩
      · cases pending
      · rw [System.Fires.pending fires input] at pending
        cases pending
        refine ⟨System.Fires.mem fires, row, stands, ?_, fun honours => fires.issued honours⟩
        obtain ⟨input, executed⟩ := System.Fires.executed fires
        simp only [system, exec, Store.cas, stands, matching, if_true, Option.some.injEq,
          Prod.mk.injEq] at executed
        rw [← executed.2]
    · cases write
  · cases write

theorem judged_blocked {choice : Choice Call Input} (reading : Reading env w)
    (judged : judgeBlocks env id w choice = true) (held : pinnedAt id w choice = true)
    (stepped : (system env).step w choice = some w') : Holding env id w' := by
  refine ⟨sound_step reading.sound stepped, ?_⟩
  obtain ⟨⟨thread, wr⟩, write, judged⟩ := (Option.any_eq_true _ _).mp judged
  obtain ⟨member, row, -, written, may⟩ := stored_of_writes write stepped
  have may := may reading.sound.honours
  have once := reading.once thread member
  simp only [pinnedAt, write, Option.all_some, Bool.and_eq_true] at held
  rw [Bool.and_eq_true, Bool.and_eq_true] at judged
  obtain ⟨⟨resumes, listed⟩, judged⟩ := judged
  refine ⟨_, written, ?_⟩
  cases call : thread.request with
  | resume args =>
    simp only [call, List.any_eq_true, Bool.and_eq_true, Option.any_eq_true, beq_iff_eq,
      decide_eq_true_eq] at judged
    obtain ⟨⟨site, flow⟩, read, rfl, step, found, rfl, verdict, judged, blocks⟩ := judged
    rw [call] at may once
    refine blockedAt_judged may once resumes read found judged blocks listed ?_
    intro steps input target first
    simpa [input, first] using held.2
  | _ =>
    rw [call] at judged
    cases judged

/-- In every interleaving of all calls: when a resume whose judge verdict blocks a step
stores its result, and the unlock passes of this write and of the later ones find nothing
to use in the dependencies of the step, the step is blocked until a write names it. -/
theorem judge_block_stays {start : Option Flow} {choice : Choice Call Input} {row : Flow}
    (run : (system env).Runs (fun _ _ => True) (initialWorld start) w)
    (judged : judgeBlocks env id w choice = true) (held : pinnedAt id w choice = true)
    (stepped : (system env).step w choice = some w')
    (later : (system env).Runs
      (fun v choice => leavesAlone id v choice = true ∧ pinnedAt id v choice = true) w' w'')
    (stands : w''.store.row = some row) : BlockedAt id row.state.steps := by
  have reading : Reading env w := System.Runs.invariant _ run
    ⟨sound_initial start, fun _ member => absurd member List.not_mem_nil⟩
    fun _ _ _ before _ stepped => reading_step before stepped
  have holding : Holding env id w' := judged_blocked reading judged held stepped
  have still : Holding env id w'' := System.Runs.invariant _ later holding
    fun _ _ _ before allowed stepped => holding_step before allowed.1 allowed.2 stepped
  obtain ⟨row', stands', blocked⟩ := still.blocked
  rw [stands, Option.some.injEq] at stands'
  exact stands' ▸ blocked

/-! ## Two judged flows -/

/-- A step whose prerequisite is done runs as child `k`, under a judge. -/
def dependentFlow : Flow :=
  { flowId := "flow"
    state := { steps := [
      { stepId := "a", task := "collect", status := some .done },
      { stepId := "b", task := "report", dependsOn := ["a"], status := some .dispatched
        childSessionKey := some "k", judgeCriteria := some "complete" }] } }

/-- Two independent steps run, one of them under a judge. -/
def independentFlow : Flow :=
  { flowId := "flow"
    state := { steps := [
      { stepId := "a", task := "collect", status := some .dispatched, childSessionKey := some "k"
        judgeCriteria := some "complete" },
      { stepId := "b", task := "report", status := some .dispatched
        childSessionKey := some "k2" }] } }

def judgedEnv : Env :=
  scenarioEnv [("k\x1fok", "3f8eaa702abe49b4"), ("k2\x1fok", "2fc0a214597f89b1")] []

def judgedResume : Call := .resume { childSessionKey := "k", result := "ok" }

/-- The status of the first step with an id in the stored row. -/
def storedStatus (id : String) (w : FlowWorld) : Option StepStatus :=
  w.store.row.bind fun row => (firstById row.state.steps id).map stepStatus

/-- The write that records the verdict on `b` readies `b` again. -/
theorem judged_step_is_unlocked : ∃ (w w' : FlowWorld) (choice : Choice Call Input),
    (system judgedEnv).Runs (fun _ _ => True) (initialWorld (some dependentFlow)) w ∧
    judgeBlocks judgedEnv "b" w choice = true ∧ (system judgedEnv).step w choice = some w' ∧
    storedStatus "b" w' = some .ready := by
  have played : ((system judgedEnv).play (fun _ _ => true) (initialWorld (some dependentFlow))
      [.start judgedResume, .run 0 .tick, .run 0 (.judged { verdict := .block })]).any (fun w =>
        judgeBlocks judgedEnv "b" w (.run 0 .tick) &&
        ((system judgedEnv).step w (.run 0 .tick)).any fun w' =>
          storedStatus "b" w' == some .ready) = true := by
    decide +kernel
  obtain ⟨w, run, holds⟩ := System.Runs.exists_of_play played
  rw [Bool.and_eq_true] at holds
  obtain ⟨w', stepped, readied⟩ := (Option.any_eq_true _ _).mp holds.2
  exact ⟨w, w', _, run.mono fun _ _ _ => trivial, holds.1, stepped, by simpa using readied⟩

/-- Without dependencies the verdict stands, also after the other step is resumed. -/
theorem judge_block_stays_two_resumes : ∃ (w w' w'' : FlowWorld) (choice : Choice Call Input)
    (row : Flow), judgeBlocks judgedEnv "a" w choice = true ∧
    (system judgedEnv).step w choice = some w' ∧ storedStatus "b" w' = some .dispatched ∧
    w''.store.row = some row ∧ storedStatus "b" w'' = some .done ∧
    BlockedAt "a" row.state.steps := by
  have played : ((system judgedEnv).play (fun _ _ => true) (initialWorld (some independentFlow))
      [.start judgedResume, .run 0 .tick, .run 0 (.judged { verdict := .block })]).any (fun w =>
        judgeBlocks judgedEnv "a" w (.run 0 .tick) && pinnedAt "a" w (.run 0 .tick) &&
        ((system judgedEnv).step w (.run 0 .tick)).any fun w' =>
          storedStatus "b" w' == some .dispatched &&
          ((system judgedEnv).play (fun v choice => leavesAlone "a" v choice && pinnedAt "a" v choice)
            w' [.run 0 .tick, .start (.resume { childSessionKey := "k2", result := "ok" }),
              .run 1 .tick, .run 1 .tick, .run 1 .tick]).any fun w'' =>
            w''.store.row.isSome && storedStatus "b" w'' == some .done) = true := by
    decide +kernel
  obtain ⟨w, run, holds⟩ := System.Runs.exists_of_play played
  simp only [Bool.and_eq_true] at holds
  obtain ⟨⟨judged, held⟩, continued⟩ := holds
  obtain ⟨w', stepped, continued⟩ := (Option.any_eq_true _ _).mp continued
  rw [Bool.and_eq_true] at continued
  obtain ⟨w'', later, holds⟩ := System.Runs.exists_of_play continued.2
  rw [Bool.and_eq_true] at holds
  obtain ⟨row, stands⟩ := Option.isSome_iff_exists.mp holds.1
  refine ⟨w, w', w'', _, row, judged, stepped, by simpa using continued.1, stands,
    by simpa using holds.2, ?_⟩
  exact judge_block_stays (run.mono fun _ _ _ => trivial) judged held stepped
    (later.mono fun _ _ allowed => by simpa using allowed) stands

end SherryAgent.Guarantees.JudgeBlock
