import SherryAgent.Contracts.Taskflow.Rows

/-!
# Terminal flows

A flow whose status is done, failed or cancelled takes no further work. Each tool
checks the status at its first read; `taskflow_wait_all` does not, and its retry pass
and the auto-dispatch wave read the row again without a check.

* `wait_all_retries_failed_flow` — the children of a failed flow are waited for, and a
  settled one is replaced;
* `terminal_flow_stays` — in every run whose unchecked reads of a terminal row find no
  work (`idleOnTerminal`), the tools leave its status, steps and results as they are
  and start no child after reading it.
-/

namespace SherryAgent.Guarantees.Terminal

open SherryAgent.Source SherryAgent.Source.Taskflow SherryAgent.Contracts.Taskflow
  SherryAgent.Library.Resumption

/-- The tools that must leave a terminal flow alone. -/
def mutates : Call → Bool
  | .resume _ | .dispatch .. | .runTask _ | .waitAll | .replan .. | .updateSteps .. | .setWaiting ..
  | .budgetSet .. | .cancel .. | .fail .. | .finish .. => true
  | .create _ | .plan .. | .supersede _ => false

/-- What a read without a status check finds to do on the row: the wave a listed step
that is ready, the retry pass a settled child with a policy and no result. -/
def findsWork (env : Env) : ReadSite × Flow → Bool
  | (.wave ids, flow) =>
    (waveReady flow.state.steps ids).any fun id => (byId flow.state.steps id).isSome
  | (.settled pairs, flow) =>
    !(planSettledRetries env flow.state.steps flow.state.results pairs).isEmpty
  | _ => false

/-- The condition on a step: a read of a terminal row finds no work, and no write
expects a larger revision than that of the row it was computed from. -/
def idleOnTerminal (env : Env) (w : FlowWorld) (choice : Choice Call Input) : Bool :=
  match w.pending choice, w.store.row with
  | some (_, .getFlow site), some row => !isTerminal row.status || !findsWork env (site, row)
  | some (_, .updateFlow wr), _ => decide (wr.expectedRevision ≤ wr.current.expectedRevision)
  | _, _ => true

/-- Any interleaving, the revisions given by callers assumed as above. -/
def currentRevisions (w : FlowWorld) (choice : Choice Call Input) : Bool :=
  match w.pending choice with
  | some (_, .updateFlow wr) => decide (wr.expectedRevision ≤ wr.current.expectedRevision)
  | _ => true

/-- The tool whose operation the choice lets run. -/
def byTool (w : FlowWorld) (choice : Choice Call Input) : Bool :=
  match w.pending choice with
  | some (thread, _) => mutates thread.request
  | none => true

/-- What a tool must not change. -/
structure Same (row row' : Flow) : Prop where
  status : row'.status = row.status
  steps : row'.state.steps = row.state.steps
  results : row'.state.results = row.state.results

def sawTerminal (h : History) : Bool := (reads h).any fun read => isTerminal read.2.status

/-- No child was started after a terminal row was read. -/
def SpawnsLive (h : History) : Prop :=
  ∀ earlier later op ans, h = earlier ++ ⟨op, ans⟩ :: later → (starting op ans).isSome = true →
    sawTerminal earlier = false

variable {env : Env} {w w' : FlowWorld}

theorem sawTerminal_append (h : History) (event : Event effects) :
    sawTerminal (h ++ [event]) = (sawTerminal h ||
      ((reading event.op event.ans).toList.any fun read => isTerminal read.2.status)) := by
  rw [sawTerminal, reads, seen_append, List.any_append]
  rfl

theorem spawnsLive_append {h : History} {op : Op} {ans : op.Ans} (before : SpawnsLive h)
    (now : (starting op ans).isSome = true → sawTerminal h = false) :
    SpawnsLive (h ++ [⟨op, ans⟩]) := by
  intro earlier later op' ans' split started
  rcases List.eq_nil_or_concat later with rfl | ⟨later, last, eq⟩
  · obtain ⟨rfl, event⟩ := List.append_inj' split rfl
    cases event
    exact now started
  · rw [eq, List.concat_eq_append, ← List.cons_append, ← List.append_assoc] at split
    obtain ⟨rfl, -⟩ := List.append_inj' split rfl
    exact before earlier later op' ans' rfl started

/-! ## One call -/

/-- A wave over a row in which no step is ready persists nothing. -/
theorem idle_wave {flow : Flow} {ids : List String} {batch : List BatchSpawn}
    (idle : findsWork env (.wave ids, flow) = false)
    (batched : Batched flow (waveReady flow.state.steps ids) batch) :
    ∀ spawned ∈ batch, spawned.key = none := by
  intro spawned member
  cases started : spawned.key with
  | none => rfl
  | some key =>
    obtain ⟨step, found⟩ := batched.found spawned member (by simp [started])
    have listed : spawned.stepId ∈ waveReady flow.state.steps ids := by
      rw [← batched.ids_eq]
      exact List.mem_map_of_mem member
    have ready : findsWork env (.wave ids, flow) = true :=
      List.any_eq_true.mpr ⟨_, listed, by simp [found]⟩
    rw [idle] at ready
    cases ready

theorem idle_wave_write {batch : List BatchSpawn}
    (none_started : ∀ spawned ∈ batch, spawned.key = none) (steps : List Step) :
    waveSteps steps batch = steps ∧ batch.filterMap waveRecord = [] := by
  induction batch with
  | nil => exact ⟨rfl, rfl⟩
  | cons spawned rest ih =>
    have refused := none_started spawned (by simp)
    obtain ⟨same, records⟩ := ih fun other member => none_started other (by simp [member])
    exact ⟨by simpa [waveSteps, refused] using same, by simp [waveRecord, refused, records]⟩

/-- A write on a terminal row leaves status, steps and results alone, or is the failure
of a flow whose creation is compensated. -/
theorem terminal_write {call : Call} {h : History} {plan : Plan} {wr : Write} {row : Flow}
    (planned : Planned env call h plan) (based : Based plan row wr)
    (idle : ∀ read ∈ reads h, isTerminal read.2.status = true → findsWork env read = false)
    (terminal : isTerminal row.status = true) :
    Same row (wr.update row) ∨
      (mutates call = false ∧ isTerminal (wr.update row).status = true) := by
  cases based with
  | replay later live replayed =>
    rw [live] at terminal
    cases terminal
  | first same =>
    subst same
    have not_live : isTerminal plan.read.status ≠ false := by simp [terminal]
    cases planned with
    | unmatched accepted none_matched hash => exact absurd accepted.live not_live
    | redispatch accepted found decides respawned hash => exact absurd accepted.live not_live
    | settle accepted found decides settled hash => exact absurd accepted.live not_live
    | @wave args h ids flow batch read distinct batched =>
      have none_started := idle_wave (idle _ read terminal) batched
      obtain ⟨steps, records⟩ := idle_wave_write none_started flow.state.steps
      rw [steps, records]
      exact .inl ⟨rfl, rfl, rfl⟩
    | dispatch dispatches read live batched valid => exact absurd live not_live
    | settled read busy respawned =>
      have none_planned := idle _ read terminal
      simp only [findsWork, Bool.not_eq_false', List.isEmpty_iff] at none_planned
      exact absurd none_planned busy
    | replan read live text parsed merges => exact absurd live not_live
    | runTask read live satisfied => exact absurd live not_live
    | register read live => exact absurd live not_live
    | updateSteps read live valid merges => exact absurd live not_live
    | single read live writes => exact absurd live not_live
    | finish read live finishes tokens => exact absurd live not_live
    | @compensate call h flow reason creates read =>
      cases call with
      | create args => exact .inr ⟨rfl, rfl⟩
      | plan goal maxSteps => exact .inr ⟨rfl, rfl⟩
      | _ => cases creates

/-- A child is started only on a row that leaves work to do. -/
theorem spawn_live {call : Call} {h : History} {request : SpawnRequest}
    (may : MaySpawn env call h request)
    (idle : ∀ read ∈ reads h, isTerminal read.2.status = true → findsWork env read = false) :
    ∃ flow, known h = some flow ∧ isTerminal flow.status = false := by
  have unfinished : ∀ {site : ReadSite} {flow : Flow}, (site, flow) ∈ reads h →
      findsWork env (site, flow) = true → isTerminal flow.status = false := by
    intro site flow read work
    by_contra terminal
    rw [idle _ read (by simpa using terminal)] at work
    cases work
  cases may with
  | retry accepted unchanged found calls site first => exact ⟨_, unchanged, accepted.live⟩
  | wave read unchanged dispatchable found site =>
    exact ⟨_, unchanged, unfinished read
      (List.any_eq_true.mpr ⟨_, dispatchable, by simp [found]⟩)⟩
  | dispatch dispatches read unchanged live requested found valid site =>
    exact ⟨_, unchanged, live⟩
  | runTask read unchanged live satisfied site => exact ⟨_, unchanged, live⟩
  | settled read unchanged busy site =>
    exact ⟨_, unchanged, unfinished read (by simpa [findsWork] using busy)⟩

/-! ## All calls -/

/-- What every allowed run keeps: no terminal row that was read held work for its reader,
a flow once seen terminal is terminal, and no child was started after seeing it. -/
structure Guarded (env : Env) (w : FlowWorld) : Prop where
  sound : Sound env w
  idle : ∀ t ∈ w.threads, ∀ read ∈ reads t.history, isTerminal read.2.status = true →
    findsWork env read = false
  ended : ∀ t ∈ w.threads, sawTerminal t.history = true →
    ∃ row, w.store.row = some row ∧ isTerminal row.status = true
  known : ∀ t ∈ w.threads, sawTerminal t.history = true → ∀ flow, known t.history = some flow →
    isTerminal flow.status = true
  spawns : ∀ t ∈ w.threads, SpawnsLive t.history

/-- A step on a terminal row keeps it terminal, and a tool's step keeps what it must. -/
theorem terminal_fires {i : Nat} {input : Input} {thread : Thread effects Call Reply} {op : Op}
    {ans : op.Ans} {row : Flow} (before : Guarded env w)
    (allowed : idleOnTerminal env w (.run i input) = true)
    (fires : (system env).Fires w w' i thread op ans) (stands : w.store.row = some row)
    (terminal : isTerminal row.status = true) :
    ∃ row', w'.store.row = some row' ∧ isTerminal row'.status = true ∧
      (mutates thread.request = true → Same row row') := by
  have member := System.Fires.mem fires
  have issued := System.Fires.issued fires before.sound.honours
  cases Fires.rowEffect fires with
  | kept same unstored read => exact ⟨row, same.trans stands, terminal, fun _ => ⟨rfl, rfl, rfl⟩⟩
  | @stored wr row₀ stands₀ matching written =>
    rw [stands, Option.some.injEq] at stands₀
    subst stands₀
    have bound : wr.expectedRevision ≤ wr.current.expectedRevision := by
      simpa [idleOnTerminal, System.Fires.pending fires input] using allowed
    obtain ⟨plan, planned, based⟩ := before.sound.based member issued stands matching bound
    refine ⟨_, written, ?_⟩
    rcases terminal_write planned based (before.idle thread member) terminal with
      same | ⟨other, still⟩
    · exact ⟨by rw [same.status]; exact terminal, fun _ => same⟩
    · refine ⟨still, fun tool => ?_⟩
      rw [other] at tool
      cases tool
  | created absent written =>
    rw [stands] at absent
    cases absent
  | @superseded successor row₀ stands₀ written =>
    rw [stands, Option.some.injEq] at stands₀
    subst stands₀
    refine ⟨_, written, by simp [Flow.supersede, terminal], fun tool => ?_⟩
    obtain ⟨successor', call⟩ := issued
    rw [call] at tool
    cases tool

/-- What a thread's read tells it about the row. -/
theorem read_row {i : Nat} {thread : Thread effects Call Reply} {op : Op} {ans : op.Ans}
    {read : ReadSite × Flow} (fires : (system env).Fires w w' i thread op ans)
    (now : reading op ans = some read) :
    w.store.row = some read.2 ∧ w'.store.row = some read.2 := by
  cases Fires.rowEffect fires with
  | kept same unstored answers =>
    have stands := answers read.1 read.2 now
    exact ⟨stands, same.trans stands⟩
  | _ => cases now

theorem guarded_fires {i : Nat} {input : Input} {thread : Thread effects Call Reply} {op : Op}
    {ans : op.Ans} (before : Guarded env w)
    (allowed : idleOnTerminal env w (.run i input) = true)
    (stepped : (system env).step w (.run i input) = some w')
    (fires : (system env).Fires w w' i thread op ans) : Guarded env w' := by
  have member := System.Fires.mem fires
  have issued := System.Fires.issued fires before.sound.honours
  -- A flow that some call has seen terminal before this step is terminal after it.
  have ended : ∀ t ∈ w.threads, sawTerminal t.history = true →
      ∃ row', w'.store.row = some row' ∧ isTerminal row'.status = true := by
    intro t inside saw
    obtain ⟨row, stands, terminal⟩ := before.ended t inside saw
    obtain ⟨row', stands', still, -⟩ := terminal_fires before allowed fires stands terminal
    exact ⟨row', stands', still⟩
  refine ⟨sound_step before.sound stepped, ?_, ?_, ?_, ?_⟩
  · intro t inside read seen_read terminal
    rcases System.Fires.thread_cases fires inside with old | ⟨-, history⟩
    · exact before.idle t old read seen_read terminal
    · rw [history, reads, seen_append] at seen_read
      rcases List.mem_append.mp seen_read with earlier | now
      · exact before.idle thread member read earlier terminal
      · have now : reading op ans = some read := by simpa using now
        have stands := (read_row fires now).1
        cases reading_eq_some now
        simpa [idleOnTerminal, System.Fires.pending fires input, stands, terminal] using allowed
  · intro t inside saw
    rcases System.Fires.thread_cases fires inside with old | ⟨-, history⟩
    · exact ended t old saw
    · rw [history, sawTerminal_append, Bool.or_eq_true] at saw
      rcases saw with earlier | now
      · exact ended thread member earlier
      · obtain ⟨read, seen_read, terminal⟩ := List.any_eq_true.mp now
        exact ⟨_, (read_row fires (by simpa using seen_read)).2, terminal⟩
  · intro t inside saw flow unchanged
    rcases System.Fires.thread_cases fires inside with old | ⟨-, history⟩
    · exact before.known t old saw flow unchanged
    · rw [history, known_append] at unchanged
      rw [history, sawTerminal_append, Bool.or_eq_true] at saw
      rcases observe_eq_some unchanged with ⟨site, now⟩ | ⟨knew, unread⟩
      · rcases saw with earlier | terminal
        · obtain ⟨row, stands, terminal⟩ := before.ended thread member earlier
          rw [(read_row fires now).1, Option.some.injEq] at stands
          have same : flow = row := stands
          rw [same]
          exact terminal
        · simpa [now] using terminal
      · refine before.known thread member (saw.resolve_right ?_) flow knew
        simp [unread]
  · intro t inside
    rcases System.Fires.thread_cases fires inside with old | ⟨-, history⟩
    · exact before.spawns t old
    · rw [history]
      refine spawnsLive_append (before.spawns thread member) fun started => ?_
      obtain ⟨request, spawned⟩ := Option.isSome_iff_exists.mp started
      obtain ⟨result, event⟩ := starting_eq_some spawned
      cases event
      obtain ⟨flow, unchanged, live⟩ := spawn_live issued (before.idle thread member)
      by_contra saw
      rw [before.known thread member (by simpa using saw) flow unchanged] at live
      cases live

theorem guarded_step {choice : Choice Call Input} (before : Guarded env w)
    (allowed : idleOnTerminal env w choice = true)
    (stepped : (system env).step w choice = some w') : Guarded env w' := by
  rcases System.step_cases _ stepped with
    ⟨call, rfl, store, threads⟩ | ⟨i, input, thread, op, ans, rfl, fires⟩
  · have cases_of : ∀ t ∈ w'.threads, t ∈ w.threads ∨ t.history = [] := by
      intro t member
      rw [threads] at member
      rcases List.mem_append.mp member with old | new
      · exact .inl old
      · rw [List.mem_singleton.mp new]
        exact .inr rfl
    refine ⟨sound_step before.sound stepped, ?_, ?_, ?_, ?_⟩
    · intro t member read seen_read
      rcases cases_of t member with old | started
      · exact before.idle t old read seen_read
      · rw [started] at seen_read
        cases seen_read
    · intro t member saw
      rw [store]
      rcases cases_of t member with old | started
      · exact before.ended t old saw
      · rw [started] at saw
        cases saw
    · intro t member saw
      rcases cases_of t member with old | started
      · exact before.known t old saw
      · rw [started] at saw
        cases saw
    · intro t member
      rcases cases_of t member with old | started
      · exact before.spawns t old
      · rw [started]
        intro earlier later op ans split
        cases earlier <;> cases split
  · exact guarded_fires before allowed stepped fires

theorem guarded_initial (row : Option Flow) : Guarded env (initialWorld row) where
  sound := sound_initial row
  idle _ member := absurd member List.not_mem_nil
  ended _ member := absurd member List.not_mem_nil
  known _ member := absurd member List.not_mem_nil
  spawns _ member := absurd member List.not_mem_nil

/-- In every interleaving whose unchecked reads of a terminal row find no work, no step
of a tool changes status, steps or results of a terminal row, no step of any call makes
it live again, and no child is started after a terminal row was read. -/
theorem terminal_flow_stays {start : Option Flow}
    (run : (system env).Runs (fun v choice => idleOnTerminal env v choice = true)
      (initialWorld start) w) :
    (∀ w' choice row, idleOnTerminal env w choice = true →
      (system env).step w choice = some w' → w.store.row = some row →
      isTerminal row.status = true → ∃ row', w'.store.row = some row' ∧
        isTerminal row'.status = true ∧ (byTool w choice = true → Same row row')) ∧
    ∀ t ∈ w.threads, SpawnsLive t.history := by
  have guarded : Guarded env w := System.Runs.invariant _ run (guarded_initial start)
    fun _ _ _ before allowed stepped => guarded_step before allowed stepped
  refine ⟨fun w' choice row allowed stepped stands terminal => ?_, guarded.spawns⟩
  rcases System.step_cases _ stepped with
    ⟨call, -, store, -⟩ | ⟨i, input, thread, op, ans, rfl, fires⟩
  · exact ⟨row, by rw [store]; exact stands, terminal, fun _ => ⟨rfl, rfl, rfl⟩⟩
  · have tool : byTool w (.run i input) = mutates thread.request := by
      rw [byTool, System.Fires.pending fires input]
    rw [tool]
    exact terminal_fires guarded allowed fires stands terminal

/-! ## A failed flow with a running child -/

/-- A flow that waits for one child, whose step may be retried once. -/
def runningFlow : Flow :=
  { flowId := "flow"
    state := { steps := [
      { stepId := "a", task := "collect", status := some .dispatched, childSessionKey := some "k"
        retryPolicy := some { maxRetries := 1, retryDelaySeconds := some 0 } }] } }

def plainEnv : Env := scenarioEnv [] []

/-- The child key of each step. -/
def childKeys (flow : Flow) : List (Option String) := flow.state.steps.map (·.childSessionKey)

/-- After `taskflow_fail`, `taskflow_wait_all` starts a replacement and writes its key to
the failed row. -/
theorem wait_all_retries_failed_flow : ∃ (w w' : FlowWorld) (row row' : Flow),
    (system plainEnv).Runs (fun v choice => currentRevisions v choice = true)
      (initialWorld (some runningFlow)) w ∧
    (system plainEnv).Runs
      (fun v choice => (currentRevisions v choice && byTool v choice) = true) w w' ∧
    w.store.row = some row ∧ row.status = .failed ∧ childKeys row = [some "k"] ∧
    w.store.spawned = [] ∧ w'.store.row = some row' ∧ childKeys row' = [some "k1"] ∧
    w'.store.spawned.length = 1 := by
  have played : (((system plainEnv).play currentRevisions (initialWorld (some runningFlow))
      [.start (.fail "stop" none), .run 0 .tick, .run 0 .tick, .run 0 .tick]).any fun v =>
      ((system plainEnv).play (fun v choice => currentRevisions v choice && byTool v choice) v
        [.start .waitAll, .run 1 .tick, .run 1 (.polled .settled), .run 1 .tick,
          .run 1 (.spawned { accepted := true, childSessionKey := "k1" }), .run 1 .tick]).any
        fun v' => v.store.row.any (fun row => row.status == .failed &&
            childKeys row == [some "k"]) && v.store.spawned.isEmpty &&
          v'.store.row.any (fun row' => childKeys row' == [some "k1"]) &&
          v'.store.spawned.length == 1) = true := by
    decide +kernel
  obtain ⟨w, w', run, run', holds⟩ := System.Runs.exists_of_play₂ played
  simp only [Bool.and_eq_true, beq_iff_eq, List.isEmpty_iff] at holds
  obtain ⟨⟨⟨failed, none_spawned⟩, changed⟩, one_spawned⟩ := holds
  obtain ⟨row, stands, failed⟩ := (Option.any_eq_true _ _).mp failed
  obtain ⟨row', stands', changed⟩ := (Option.any_eq_true _ _).mp changed
  simp only [Bool.and_eq_true, beq_iff_eq] at failed
  exact ⟨w, w', row, row', run, run', stands, failed.1, failed.2, none_spawned, stands',
    by simpa using changed, one_spawned⟩

/-- A resume that reads the failed row leaves it as it is. -/
theorem terminal_flow_stays_resume : ∃ (w w' : FlowWorld) (row row' : Flow),
    (system plainEnv).step w (.run 1 .tick) = some w' ∧ w.store.row = some row ∧
    row.status = .failed ∧ w'.store.row = some row' ∧ Same row row' := by
  have played : ((system plainEnv).play (idleOnTerminal plainEnv)
      (initialWorld (some runningFlow))
      [.start (.fail "stop" none), .run 0 .tick, .run 0 .tick, .run 0 .tick,
        .start (.resume { childSessionKey := "k", result := "ok" })]).any (fun w =>
        w.store.row.any (fun row => row.status == .failed) &&
        idleOnTerminal plainEnv w (.run 1 .tick) && byTool w (.run 1 .tick) &&
        ((system plainEnv).step w (.run 1 .tick)).isSome) = true := by
    decide +kernel
  obtain ⟨w, run, holds⟩ := System.Runs.exists_of_play played
  simp only [Bool.and_eq_true] at holds
  obtain ⟨⟨⟨failed, allowed⟩, tool⟩, steps⟩ := holds
  obtain ⟨row, stands, failed⟩ := (Option.any_eq_true _ _).mp failed
  obtain ⟨w', stepped⟩ := Option.isSome_iff_exists.mp steps
  have failed : row.status = .failed := by simpa using failed
  obtain ⟨row', stands', -, same⟩ := (terminal_flow_stays run).1 w' _ row allowed stepped stands
    (by rw [failed]; rfl)
  exact ⟨w, w', row, row', stepped, stands, failed, stands', same tool⟩

end SherryAgent.Guarantees.Terminal
