import SherryAgent.Contracts.Taskflow.Rows

/-!
# What a finished flow holds

* `finish_replaces_read_row`: in every interleaving a completion of `taskflow_finish`, with a
  revision not larger than the one its gates read, replaces the very row the gates read and
  keeps its steps and results; every step it stores is done exactly when every status of
  the row is one of `StepStatus`.
* `finish_keeps_unknown_status`: the gates list the statuses that must not be there, so a
  step that was created with another one is finished over.
-/

namespace SherryAgent.Guarantees.FinishGate

open SherryAgent.Source SherryAgent.Source.Taskflow SherryAgent.Contracts.Taskflow
  SherryAgent.Library.Resumption

variable {env : Env} {w w' : FlowWorld} {row row' : Flow} {wr : Write} {h : History}
  {summary : String} {revision : Option Int} {plan : Plan}

/-- The row after the completion of a flow with nothing of it lost. -/
structure Completed (row row' : Flow) : Prop where
  status : row'.status = .done
  steps : row'.state.steps = row.state.steps
  results : row'.state.results = row.state.results

/-- Every step of the flow is done. -/
def AllDone (row : Flow) : Prop := ∀ step ∈ row.state.steps, stepStatus step = .done

/-- Every step carries a status the tools know. -/
def KnownStatuses (row : Flow) : Prop :=
  ∀ step ∈ row.state.steps, (stepStatus step).isMember = true

/-- A completion is planned on the row that was read, behind the gates. -/
theorem completion_planned (planned : Planned env (.finish summary revision) h plan)
    (completes : plan.kwargs.status = some .done) :
    plan.origin = plan.read ∧ ∃ state, plan.build = .put state ∧
      state.results = plan.read.state.results ∧ state.steps = plan.read.state.steps ∧
      ∀ step ∈ plan.read.state.steps,
        stepStatus step = .done ∨ (stepStatus step).isMember = false := by
  cases planned with
  | dispatch dispatches => cases dispatches
  | single read live writes => cases writes
  | compensate creates => cases creates
  | @finish _ _ _ flow state kwargs read live finishes tokens =>
    refine ⟨rfl, state, rfl, finishes.results, ?_, finishes.gated completes⟩
    rcases finishes.steps with same | ⟨fails, -⟩
    · exact same
    · rw [completes] at fails
      cases fails

theorem allDone_iff (gated : ∀ step ∈ row.state.steps,
    stepStatus step = .done ∨ (stepStatus step).isMember = false) :
    AllDone row ↔ KnownStatuses row := by
  refine ⟨fun done step member => by rw [done step member]; rfl, fun known step member => ?_⟩
  refine (gated step member).resolve_right fun unknown => ?_
  rw [known step member] at unknown
  cases unknown

theorem stored_of_matching {store : Store} (stands : store.row = some row)
    (matching : row.expectedRevision = wr.expectedRevision) :
    store.cas wr = (.stored, { store with row := some (wr.update row) }) := by
  simp only [Store.cas, stands, matching, if_true]

/-- In every interleaving: a completion of `taskflow_finish`, which claims no larger revision
than its gates read, and meets the revision of the row, was decided on that row. It keeps
the row's steps and results, and its steps are all done exactly when the row has no status
outside the enumeration. -/
theorem finish_replaces_read_row {start : Option Flow} {choice : Choice Call Input}
    {thread : Thread effects Call Reply}
    (run : (system env).Runs (fun _ _ => True) (initialWorld start) w)
    (pending : w.pending choice = some (thread, .updateFlow wr))
    (finishing : thread.request = .finish summary revision)
    (completes : wr.kwargs.status = some .done)
    (bound : wr.expectedRevision ≤ wr.current.expectedRevision)
    (stands : w.store.row = some row) (matching : row.expectedRevision = wr.expectedRevision)
    (stepped : (system env).step w choice = some w') :
    wr.current = row ∧ ∃ row', w'.store.row = some row' ∧ Completed row row' ∧
      (AllDone row' ↔ KnownStatuses row) := by
  have sound : Sound env w := Runs.sound run (sound_initial start)
  rcases System.step_cases _ stepped with
    ⟨call, rfl, -, -⟩ | ⟨i, input, thread', op, ans, rfl, fires⟩
  · cases pending
  rw [System.Fires.pending fires input] at pending
  cases pending
  have member := System.Fires.mem fires
  have issued := System.Fires.issued fires sound.honours
  obtain ⟨plan, planned, based⟩ := sound.based member issued stands matching bound
  rw [finishing] at planned
  have completes_plan : plan.kwargs.status = some .done := based.kwargs ▸ completes
  obtain ⟨origin, state, puts, results, steps, gated⟩ := completion_planned planned completes_plan
  cases based with
  | replay later live replayed =>
    rw [puts] at replayed
    cases replayed
  | first same =>
    obtain ⟨_, executed⟩ := System.Fires.executed fires
    have stored : some (ans, w'.store) = some (w.store.cas _) := executed.symm
    rw [stored_of_matching stands matching] at stored
    have written : w'.store = _ := congrArg Prod.snd (Option.some.inj stored)
    subst same
    have completed : Completed plan.read (Write.update
        ⟨plan.revision, plan.build, plan.origin, 1, plan.kwargs⟩ plan.read) := by
      refine ⟨?_, ?_, ?_⟩ <;> simp only [Write.update, puts, BuildState.apply, Option.getD_some,
        completes_plan, steps, results]
    refine ⟨origin, _, congrArg Store.row written, completed, ?_⟩
    rw [AllDone, completed.steps]
    exact allDone_iff gated

/-! ## Runs -/

def plainEnv : Env := scenarioEnv [] []

/-- `taskflow_create` with a step of its own, and `taskflow_finish` up to its last write. -/
def finishRun (status : StepStatus) : List (Choice Call Input) :=
  let step : Step := { stepId := "a", task := "collect", status := some status }
  [.start (.create { initialState := some { steps := [step] } }),
    .run 0 (.gate none), .run 0 .tick, .run 0 .tick, .run 0 (.todoBound (.ok ())),
    .start (.finish "" none), .run 1 .tick, .run 1 (.gate none), .run 1 (.gate none)]

/-- The second call is a finish about to store its completion. -/
def completing (w : FlowWorld) : Bool :=
  match w.pending (.run 1 Input.tick) with
  | some (thread, .updateFlow wr) =>
    (match thread.request with | .finish _ none => true | _ => false) &&
      (wr.kwargs.status == some .done &&
        (decide (wr.expectedRevision ≤ wr.current.expectedRevision) &&
          w.store.row.any (·.expectedRevision == wr.expectedRevision)))
  | _ => false

theorem completing_spec (ready : completing w = true) :
    ∃ (thread : Thread effects Call Reply) (wr : Write) (summary : String) (row : Flow),
      w.pending (.run 1 Input.tick) = some (thread, .updateFlow wr) ∧
      thread.request = .finish summary none ∧ wr.kwargs.status = some .done ∧
      wr.expectedRevision ≤ wr.current.expectedRevision ∧ w.store.row = some row ∧
      row.expectedRevision = wr.expectedRevision := by
  unfold completing at ready
  split at ready
  · rename_i thread wr pending
    simp only [Bool.and_eq_true, beq_iff_eq, decide_eq_true_eq] at ready
    obtain ⟨finishing, completes, bound, matching⟩ := ready
    obtain ⟨row, stands, matching⟩ := (Option.any_eq_true _ _).mp matching
    split at finishing
    · rename_i summary request
      exact ⟨thread, wr, summary, row, pending, request, completes, bound, stands,
        by simpa using matching⟩
    · cases finishing
  · cases ready

/-- A flow whose one step is done is finished. -/
theorem finish_replaces_read_row_done : ∃ (w w' : FlowWorld) (wr : Write) (row : Flow),
    (system plainEnv).step w (.run 1 .tick) = some w' ∧ w.store.row = some row ∧
    wr.current = row ∧ ∃ row', w'.store.row = some row' ∧ Completed row row' ∧
      (AllDone row' ↔ KnownStatuses row) := by
  have played : ((system plainEnv).play (fun _ _ => true) (initialWorld none)
      (finishRun .done)).any (fun w => completing w &&
        ((system plainEnv).step w (.run 1 .tick)).isSome) = true := by decide +kernel
  obtain ⟨w, run, holds⟩ := System.Runs.exists_of_play played
  obtain ⟨ready, steps⟩ := (Bool.and_eq_true _ _).mp holds
  obtain ⟨w', stepped⟩ := Option.isSome_iff_exists.mp steps
  obtain ⟨thread, wr, summary, row, pending, finishing, completes, bound, stands, matching⟩ :=
    completing_spec ready
  exact ⟨w, w', wr, row, stepped, stands, finish_replaces_read_row
    (run.mono fun _ _ _ => trivial) pending finishing completes bound stands matching stepped⟩

/-- A status that is no member of the enumeration. -/
def completed : StepStatus := .other "completed" (by decide)

/-- A flow created with a step whose status is `completed` is finished with that step. -/
theorem finish_keeps_unknown_status : ∃ (w w' : FlowWorld) (row' : Flow),
    (system plainEnv).Runs (fun _ _ => True) (initialWorld none) w ∧ completing w = true ∧
    (system plainEnv).step w (.run 1 .tick) = some w' ∧ w'.store.row = some row' ∧
    row'.status = .done ∧ ¬AllDone row' := by
  have played : ((system plainEnv).play (fun _ _ => true) (initialWorld none)
      (finishRun completed)).any (fun w => completing w &&
        ((system plainEnv).step w (.run 1 .tick)).any fun w' => w'.store.row.any fun row' =>
          row'.status == .done && row'.state.steps.any (stepStatus · != .done)) = true := by
    decide +kernel
  obtain ⟨w, run, holds⟩ := System.Runs.exists_of_play played
  obtain ⟨ready, steps⟩ := (Bool.and_eq_true _ _).mp holds
  obtain ⟨w', stepped, holds⟩ := (Option.any_eq_true _ _).mp steps
  obtain ⟨row', stands, holds⟩ := (Option.any_eq_true _ _).mp holds
  obtain ⟨done, undone⟩ := (Bool.and_eq_true _ _).mp holds
  obtain ⟨step, member, status⟩ := List.any_eq_true.mp undone
  refine ⟨w, w', row', run.mono fun _ _ _ => trivial, ready, stepped, stands, eq_of_beq done,
    fun all => ?_⟩
  rw [all step member, bne_self_eq_false] at status
  cases status

end SherryAgent.Guarantees.FinishGate
