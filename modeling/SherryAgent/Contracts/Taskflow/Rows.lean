import Mathlib.Data.Int.Order.Basic
import Mathlib.Data.List.Induction
import SherryAgent.Library.Versioned
import SherryAgent.Contracts.Taskflow.Lifecycle

/-!
# The row over a run

How a step of any call changes the stored row, and the invariant of all
interleavings: every call keeps its discipline, and every row a call has read is
an earlier version of the stored one.
-/

namespace SherryAgent.Contracts.Taskflow

open SherryAgent.Source SherryAgent.Source.Taskflow SherryAgent.Library.KeyedList
  SherryAgent.Library.Resumption SherryAgent.Library.Versioned

variable {env : Env}

/-- The row a call knows after an operation is the one it has just read, or the one it
knew before. -/
theorem observe_eq_some {latest : Option Flow} {op : Op} {ans : op.Ans} {flow : Flow}
    (observed : observe latest op ans = some flow) :
    (∃ site, reading op ans = some (site, flow)) ∨
      (latest = some flow ∧ reading op ans = none) := by
  cases op with
  | getFlow site =>
    obtain rfl : ans = some flow := observed
    exact .inl ⟨site, rfl⟩
  | updateFlow w =>
    cases ans with
    | stored => cases observed
    | conflict latest => exact .inr ⟨observed, rfl⟩
    | notFound => exact .inr ⟨observed, rfl⟩
  | createFlow flow => cases observed
  | markFlowSuperseded successor => cases observed
  | _ => exact .inr ⟨observed, rfl⟩

/-- The row a call knows is one it has read. -/
theorem known_mem_reads {h : History} {flow : Flow} (unchanged : known h = some flow) :
    ∃ site, (site, flow) ∈ reads h := by
  induction h using List.reverseRecOn with
  | nil => cases unchanged
  | append_singleton h event ih =>
    rw [known_append] at unchanged
    rcases observe_eq_some unchanged with ⟨site, now⟩ | ⟨before, -⟩
    · exact ⟨site, by rw [reads, seen_append]; simp [now]⟩
    · obtain ⟨site, member⟩ := ih before
      exact ⟨site, seen_mono (List.prefix_append _ _) member⟩

/-- What one operation does to the row. -/
inductive RowEffect (before after : Option Flow) : (op : Op) → op.Ans → Prop
  | kept {op ans} (same : after = before) (unstored : storing op ans = none)
      (read : ∀ site flow, reading op ans = some (site, flow) → before = some flow) :
    RowEffect before after op ans
  | stored {w row} (stands : before = some row)
      (matching : row.expectedRevision = w.expectedRevision) (written : after = some (w.update row)) :
    RowEffect before after (.updateFlow w) .stored
  | created {flow} (absent : before = none) (written : after = some flow) :
    RowEffect before after (.createFlow flow) true
  | superseded {successor row} (stands : before = some row)
      (written : after = some (row.supersede successor)) :
    RowEffect before after (.markFlowSuperseded successor) true

theorem exec_rowEffect {op : Op} {store store' : Store} {input : Input} {ans : op.Ans}
    (executed : exec op store input = some (ans, store')) :
    RowEffect store.row store'.row op ans := by
  have quiet : ∀ {op : Op} {ans : op.Ans}, store'.row = store.row → storing op ans = none →
      reading op ans = none → RowEffect store.row store'.row op ans := by
    intro op ans same unstored unread
    exact .kept same unstored fun site flow read => by rw [unread] at read; cases read
  cases op with
  | getFlow site =>
    cases executed
    refine .kept rfl rfl fun site' flow read => ?_
    cases row : store.row with
    | none => simp [row, reading] at read
    | some stands =>
      simp only [row, reading, Option.some.injEq, Prod.mk.injEq] at read
      rw [read.2]
  | updateFlow w =>
    simp only [exec, Store.cas, Option.some.injEq] at executed
    split at executed
    · obtain ⟨rfl, rfl⟩ := executed
      exact quiet rfl rfl rfl
    · rename_i row stands
      split at executed
      · rename_i matching
        obtain ⟨rfl, rfl⟩ := executed
        exact .stored stands matching rfl
      · obtain ⟨rfl, rfl⟩ := executed
        exact quiet rfl rfl rfl
  | createFlow flow =>
    simp only [exec] at executed
    split at executed
    · rename_i absent
      cases executed
      exact .created absent rfl
    · cases executed
      exact quiet rfl rfl rfl
  | markFlowSuperseded successor =>
    simp only [exec] at executed
    split at executed
    · cases executed
      exact quiet rfl rfl rfl
    · rename_i row stands
      cases executed
      exact .superseded stands rfl
  | bindFlowTodo content =>
    cases input <;> cases executed
    exact quiet rfl rfl rfl
  | acquireDispatchLock =>
    simp only [exec] at executed
    split at executed
    · cases executed
    · cases executed
      exact quiet rfl rfl rfl
  | releaseDispatchLock =>
    cases executed
    exact quiet rfl rfl rfl
  | spawn request =>
    cases input with
    | spawned result =>
      simp only [exec] at executed
      split at executed <;> (cases executed; exact quiet rfl rfl rfl)
    | _ => cases executed
  | sleep seconds =>
    cases executed
    exact quiet rfl rfl rfl
  | judge task criteria result =>
    cases input <;> cases executed
    exact quiet rfl rfl rfl
  | poll targets =>
    cases input <;> cases executed
    exact quiet rfl rfl rfl
  | planner prompt =>
    cases input <;> cases executed
    exact quiet rfl rfl rfl
  | evidenceGate =>
    cases input <;> cases executed
    exact quiet rfl rfl rfl
  | goalGate =>
    cases input <;> cases executed
    exact quiet rfl rfl rfl
  | admission =>
    cases input <;> cases executed
    exact quiet rfl rfl rfl

theorem Fires.rowEffect {w w' : FlowWorld} {i : Nat} {thread : Thread effects Call Reply}
    {op : Op} {ans : op.Ans} (fires : (system env).Fires w w' i thread op ans) :
    RowEffect w.store.row w'.store.row op ans := by
  obtain ⟨input, executed⟩ := System.Fires.executed fires
  exact exec_rowEffect executed

/-- The children of the flow are those the calls have started. -/
theorem exec_spawned {op : Op} {store store' : Store} {input : Input} {ans : op.Ans}
    (executed : exec op store input = some (ans, store')) :
    store'.spawned.map Prod.fst = store.spawned.map Prod.fst ++ (starting op ans).toList := by
  cases op with
  | spawn request =>
    cases input with
    | spawned result =>
      simp only [exec] at executed
      split at executed
      · rename_i accepted
        cases executed
        simp [starting, accepted]
      · rename_i refused
        cases executed
        simp [starting, refused]
    | _ => cases executed
  | updateFlow w =>
    simp only [exec, Store.cas, Option.some.injEq] at executed
    split at executed
    · cases executed
      simp [starting]
    · split at executed <;> (cases executed; simp [starting])
  | createFlow flow =>
    simp only [exec] at executed
    split at executed <;> (cases executed; simp [starting])
  | markFlowSuperseded successor =>
    simp only [exec] at executed
    split at executed <;> (cases executed; simp [starting])
  | acquireDispatchLock =>
    simp only [exec] at executed
    split at executed <;> cases executed
    simp [starting]
  | getFlow site => cases executed; simp [starting]
  | releaseDispatchLock => cases executed; simp [starting]
  | sleep seconds => cases executed; simp [starting]
  | _ =>
    cases input <;> cases executed
    simp [starting]

/-- A changed row has a larger revision. -/
theorem RowEffect.newer {before after : Option Flow} {op : Op} {ans : op.Ans}
    (effect : RowEffect before after op ans) :
    after = before ∨ ∃ flow, after = some flow ∧
      ∀ row, before = some row → row.expectedRevision < flow.expectedRevision := by
  cases effect with
  | kept same _ _ => exact .inl same
  | @stored w row stands matching written =>
    refine .inr ⟨_, written, fun old same => ?_⟩
    rw [stands, Option.some.injEq] at same
    subst same
    change row.expectedRevision < w.expectedRevision + 1
    omega
  | created absent written =>
    exact .inr ⟨_, written, fun old same => by rw [absent] at same; cases same⟩
  | @superseded successor row stands written =>
    refine .inr ⟨_, written, fun old same => ?_⟩
    rw [stands, Option.some.injEq] at same
    subst same
    change row.expectedRevision < row.expectedRevision + 1
    omega

/-! ## The invariant of all runs -/

/-- Every row a call has read is an earlier version of the stored row, or still is it. -/
def Coherent (w : FlowWorld) : Prop :=
  ∀ thread ∈ w.threads, ∀ read ∈ reads thread.history,
    Snapshot Flow.expectedRevision w.store.row read.2

structure Sound (env : Env) (w : FlowWorld) : Prop where
  honours : w.Honours (MayPerform env) fun _ => MayReturn
  coherent : Coherent w

theorem coherent_fires {w w' : FlowWorld} {i : Nat} {thread : Thread effects Call Reply}
    {op : Op} {ans : op.Ans} (fires : (system env).Fires w w' i thread op ans)
    (coherent : Coherent w) : Coherent w' := by
  have effect := Fires.rowEffect fires
  have kept : ∀ {value : Flow}, Snapshot Flow.expectedRevision w.store.row value →
      Snapshot Flow.expectedRevision w'.store.row value := by
    intro value snapshot
    rcases effect.newer with same | ⟨flow, written, newer⟩
    · rw [same]
      exact snapshot
    · rw [written]
      exact snapshot.newer newer
  intro t member read seen_read
  rcases System.Fires.thread_cases fires member with old | ⟨-, history⟩
  · exact kept (coherent t old read seen_read)
  · rw [history, reads, seen_append] at seen_read
    rcases List.mem_append.mp seen_read with before | now
    · exact kept (coherent thread (System.Fires.mem fires) read before)
    · have now : reading op ans = some read := by simpa using now
      cases effect with
      | kept same _ answers =>
        rw [same, answers read.1 read.2 now]
        exact Snapshot.of_read
      | _ => cases now

theorem sound_step {w w' : FlowWorld} {choice : Choice Call Input} (sound : Sound env w)
    (stepped : (system env).step w choice = some w') : Sound env w' := by
  refine ⟨System.honours_step (fun call => (code_disciplined env call).issues) sound.honours
    stepped, ?_⟩
  rcases System.step_cases _ stepped with ⟨call, -, store, threads⟩ | ⟨i, input, t, op, ans, -, fires⟩
  · intro t member read seen_read
    rw [threads] at member
    rcases List.mem_append.mp member with old | new
    · rw [store]
      exact sound.coherent t old read seen_read
    · rw [List.mem_singleton.mp new] at seen_read
      cases seen_read
  · exact coherent_fires fires sound.coherent

theorem sound_initial (row : Option Flow) : Sound env (initialWorld row) :=
  ⟨fun _ member => absurd member List.not_mem_nil, fun _ member => absurd member List.not_mem_nil⟩

theorem Runs.sound {cond : FlowWorld → Choice Call Input → Prop} {w w' : FlowWorld}
    (run : (system env).Runs cond w w') (start : Sound env w) : Sound env w' :=
  System.Runs.invariant (Sound env) run start fun _ _ _ sound _ stepped => sound_step sound stepped

/-! ## What a successful write was computed from -/

theorem update_settle_steps (record : ResultRecord) (stepId : Option String)
    (decided : DecidedFields) (revision : Int) (current : Flow) (attempt : Nat)
    (kwargs : UpdateKwargs) (row : Flow) :
    (Write.update ⟨revision, .settle record stepId decided, current, attempt, kwargs⟩
      row).state.steps =
      unlockDependents (match stepId with
        | none => current.state.steps
        | some id => modifyFirst (·.stepId == id) decided.apply current.state.steps) := by
  simp only [Write.update, BuildState.apply, Option.getD_some]
  split <;> rfl

/-- A write computed from the row it replaces: its first attempt decided on that row,
a later one read it again. -/
inductive Based (plan : Plan) (row : Flow) : Write → Prop
  | first (same : plan.read = row) :
    Based plan row ⟨plan.revision, plan.build, plan.origin, 1, plan.kwargs⟩
  | replay {attempt : Nat} (later : 2 ≤ attempt) (live : isTerminal row.status = false)
      (replayed : BuildState.replayed plan.build = true) :
    Based plan row ⟨row.expectedRevision, plan.build, row, attempt, plan.kwargs⟩

theorem Based.build {plan : Plan} {row : Flow} {wr : Write} (based : Based plan row wr) :
    wr.build = plan.build := by
  cases based <;> rfl

theorem Based.results {plan : Plan} {row : Flow} {wr : Write} (based : Based plan row wr) :
    wr.current.state.results = row.state.results := by
  cases based with
  | first same => exact congrArg (·.state.results) same
  | replay later live replayed => rfl

theorem Based.kwargs {plan : Plan} {row : Flow} {wr : Write} (based : Based plan row wr) :
    wr.kwargs = plan.kwargs := by
  cases based <;> rfl

variable {w w' : FlowWorld} {thread : Thread effects Call Reply} {wr : Write} {row : Flow}

/-- Optimistic locking at work: a write that succeeds without claiming a larger
revision than it read replaces the very row it was computed from. -/
theorem Sound.based (sound : Sound env w) (member : thread ∈ w.threads)
    (may : MayWrite env thread.request thread.history wr) (stands : w.store.row = some row)
    (matching : row.expectedRevision = wr.expectedRevision)
    (bound : wr.expectedRevision ≤ wr.current.expectedRevision) :
    ∃ plan, Planned env thread.request thread.history plan ∧ Based plan row wr := by
  obtain ⟨plan, planned, attempt, -⟩ := may
  have read_row : ∀ {flow : Flow}, known thread.history = some flow →
      wr.expectedRevision ≤ flow.expectedRevision → flow = row := by
    intro flow unchanged bound
    obtain ⟨site, read⟩ := known_mem_reads unchanged
    have snapshot := sound.coherent thread member (site, flow) read
    rw [stands] at snapshot
    exact snapshot.current matching bound
  cases attempt with
  | first unchanged => exact ⟨plan, planned, .first (read_row unchanged bound)⟩
  | @replay attempt fresh later unchanged reread live replayed =>
    obtain rfl := read_row unchanged (le_refl fresh.expectedRevision)
    exact ⟨plan, planned, .replay later live replayed⟩

/-- The row a write is computed from is one the call has read, up to the steps. -/
theorem MayWrite.current_read {call : Call} {h : History} (may : MayWrite env call h wr) :
    ∃ read ∈ reads h, wr.current.state.results = read.2.state.results := by
  obtain ⟨plan, planned, attempt, -⟩ := may
  cases attempt with
  | first unchanged =>
    obtain ⟨site, read⟩ := known_mem_reads unchanged
    exact ⟨_, read, rfl⟩
  | replay later unchanged reread live replayed => exact ⟨_, reread, rfl⟩

/-! ## What a call has stored -/

/-- A resume has stored its result. -/
def resumed (h : History) : Bool := (storedWrites h).any fun w => BuildState.resumes w.build

theorem resumed_append (h : History) (event : Event effects) :
    resumed (h ++ [event]) = (resumed h ||
      ((storing event.op event.ans).toList.any fun w => BuildState.resumes w.build)) := by
  rw [resumed, storedWrites, seen_append, List.any_append]
  rfl

/-! ## Runs on given inputs -/

/-- An environment that knows the digests and the JSON texts of one scenario. -/
def scenarioEnv (digests : List (String × String)) (texts : List (String × Json)) : Env where
  digest text := ((digests.find? (·.1 == text)).map (·.2)).getD ""
  loads text := match texts.find? (·.1 == text) with
    | some entry => .ok entry.2
    | none => .error "JSONDecodeError"
  validate _ _ := .ok ()
  flowId := "flow"
  sessionId := "session"

end SherryAgent.Contracts.Taskflow
