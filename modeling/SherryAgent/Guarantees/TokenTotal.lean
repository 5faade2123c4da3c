import Mathlib.Algebra.Ring.Int.Defs
import SherryAgent.Contracts.Taskflow.Rows

/-!
# The flow's token total

Every `taskflow_resume` with a token usage adds its child's spend to the flow's
total. The total it writes is computed from its first read and is forwarded
unchanged through the conflict retries.

* `racing_spend_lost` — two resumes read the same total and one spend is lost;
* `total_tokens_exact` — in every run in which each resume finds, when its write
  succeeds, the total it read at the start, the final total is exact.
-/

namespace SherryAgent.Guarantees.TokenTotal

open SherryAgent.Source SherryAgent.Source.Taskflow SherryAgent.Contracts.Taskflow
  SherryAgent.Library.Resumption

/-- The spend a call reports. -/
def reported : Call → Int
  | .resume { tokenUsage := some usage, .. } => usage.inputTokens + usage.outputTokens
  | _ => 0

/-- A resume that reports a token usage. -/
def reporting : Call → Bool
  | .resume args => args.tokenUsage.isSome
  | _ => false

/-- Any interleaving of resumes that report their usage. -/
def resumesOnly (_ : FlowWorld) (choice : Choice Call Input) : Bool :=
  match choice with
  | .start call => reporting call
  | .run .. => true

/-- The condition on a step: a resume whose write succeeds finds the total of its
own first read in the row. -/
def unraced (w : FlowWorld) (choice : Choice Call Input) : Bool :=
  match choice with
  | .start call => reporting call
  | .run .. =>
    match w.pending choice, w.store.row with
    | some (thread, .updateFlow wr), some row =>
      row.expectedRevision != wr.expectedRevision || !BuildState.resumes wr.build ||
        (reads thread.history).all fun (site, read) =>
          match site with
          | .resume _ => read.totalTokens == row.totalTokens
          | _ => true
    | _, _ => true

/-- The spend of a call once its result is stored. -/
def credited (thread : Thread effects Call Reply) : Int :=
  if resumed thread.history then reported thread.request else 0

/-- Every call has answered that its resume is stored. -/
def allResumed (w : FlowWorld) : Bool :=
  w.threads.all fun thread =>
    match thread.prog with
    | .done reply => Reply.isResumed reply
    | .call .. => false

variable {env : Env}

/-- The writes of a resume: its result with the new total, or its wave, which leaves
the total alone. -/
theorem resume_write_cases {args : ResumeArgs} {h : History} {wr : Write}
    (may : MayWrite env (.resume args) h wr) :
    (BuildState.resumes wr.build = true ∧ storedWrites h = [] ∧
      ∃ child flow, (.resume child, flow) ∈ reads h ∧
        wr.kwargs = resumeKwargs flow args.tokenUsage) ∨
      (BuildState.resumes wr.build = false ∧ wr.kwargs.totalTokens = none) := by
  obtain ⟨plan, planned, attempt, first⟩ := may
  have build : wr.build = plan.build := by cases attempt <;> rfl
  have kwargs : wr.kwargs = plan.kwargs := by cases attempt <;> rfl
  rw [build, kwargs]
  cases planned with
  | unmatched accepted none_matched hash => exact .inl ⟨rfl, first rfl, _, _, accepted.read, rfl⟩
  | redispatch accepted found decides respawned hash =>
    exact .inl ⟨rfl, first rfl, _, _, accepted.read, rfl⟩
  | settle accepted found decides settled hash =>
    exact .inl ⟨rfl, first rfl, _, _, accepted.read, rfl⟩
  | wave read distinct batched => exact .inr ⟨rfl, rfl⟩
  | dispatch dispatches => cases dispatches
  | single read live writes => cases writes
  | compensate creates read => cases creates

/-- The total in the row is the initial total and the spend stored so far. -/
structure Accounted (env : Env) (initial : Int) (w : FlowWorld) : Prop where
  honours : w.Honours (MayPerform env) fun _ => MayReturn
  reports : ∀ t ∈ w.threads, reporting t.request = true
  total : ∀ row, w.store.row = some row → row.totalTokens = initial + w.total credited

theorem reported_of_reporting {args : ResumeArgs} (reports : reporting (.resume args) = true) :
    ∃ usage, args.tokenUsage = some usage ∧
      reported (.resume args) = usage.inputTokens + usage.outputTokens := by
  obtain ⟨usage, given⟩ := Option.isSome_iff_exists.mp reports
  refine ⟨usage, given, ?_⟩
  cases args
  cases given
  rfl

/-- A successful write of a resume adds the call's spend exactly when it credits the
call. -/
theorem stored_total {thread after : Thread effects Call Reply} {wr : Write} {row : Flow}
    (reports : reporting thread.request = true)
    (may : MayWrite env thread.request thread.history wr)
    (request : after.request = thread.request)
    (history : after.history = thread.history ++ [⟨.updateFlow wr, .stored⟩])
    (unraced : BuildState.resumes wr.build = true → ∀ child read,
      (.resume child, read) ∈ reads thread.history → read.totalTokens = row.totalTokens) :
    (wr.update row).totalTokens + credited thread = row.totalTokens + credited after := by
  have recorded : resumed after.history =
      (resumed thread.history || BuildState.resumes wr.build) := by
    rw [history, resumed_append]
    simp [storing]
  cases call : thread.request with
  | resume args =>
    rw [call] at may reports
    obtain ⟨usage, given, spend⟩ := reported_of_reporting reports
    rcases resume_write_cases may with ⟨resumes, unstored, child, flow, read, kwargs⟩ |
      ⟨other, untouched⟩
    · have before : resumed thread.history = false := by simp [resumed, unstored]
      have same := unraced resumes child flow read
      have written : (wr.update row).totalTokens =
          flow.totalTokens + usage.inputTokens + usage.outputTokens := by
        simp [Write.update, kwargs, resumeKwargs, given]
      simp only [credited, recorded, before, resumes, request, call, spend, written, same]
      simp
      omega
    · have written : (wr.update row).totalTokens = row.totalTokens := by
        simp [Write.update, untouched]
      simp [credited, recorded, other, request, written]
  | _ =>
    rw [call] at reports
    cases reports

/-- The condition, read at a write that succeeds. -/
theorem unraced_stored {w : FlowWorld} {i : Nat} {input : Input}
    {thread : Thread effects Call Reply} {wr : Write} {row : Flow}
    (allowed : unraced w (.run i input) = true)
    (pending : w.pending (Choice.run i input : Choice Call Input) = some (thread, .updateFlow wr))
    (stands : w.store.row = some row) (matching : row.expectedRevision = wr.expectedRevision)
    (resumes : BuildState.resumes wr.build = true) (child : String) (read : Flow)
    (member : (.resume child, read) ∈ reads thread.history) :
    read.totalTokens = row.totalTokens := by
  simp only [unraced, pending, stands, matching, resumes, bne_self_eq_false, Bool.not_true,
    Bool.false_or, List.all_eq_true] at allowed
  simpa using allowed (.resume child, read) member

theorem accounted_fires {initial : Int} {w w' : FlowWorld} {i : Nat} {input : Input}
    {thread : Thread effects Call Reply} {op : Op} {ans : op.Ans} (before : Accounted env initial w)
    (allowed : unraced w (.run i input) = true)
    (fires : (system env).Fires w w' i thread op ans) :
    ∀ row, w'.store.row = some row → row.totalTokens = initial + w'.total credited := by
  have member := System.Fires.mem fires
  have reports := before.reports thread member
  have issued := System.Fires.issued fires before.honours
  obtain ⟨after, request, history, balance⟩ := System.Fires.total fires credited
  intro row' stands'
  cases Fires.rowEffect fires with
  | kept same unstored _ =>
    have unchanged : credited after = credited thread := by
      have recorded : resumed after.history = resumed thread.history := by
        rw [history, resumed_append]
        simp [unstored]
      simp only [credited, recorded, request]
    have total := before.total row' (same ▸ stands')
    omega
  | @stored wr row stands matching written =>
    have added := stored_total reports issued request history
      (unraced_stored allowed (System.Fires.pending fires input) stands matching)
    have total := before.total row stands
    rw [written, Option.some.injEq] at stands'
    subst stands'
    omega
  | created absent written =>
    cases call : thread.request with
    | resume args =>
      rw [call] at issued
      cases issued
    | _ =>
      rw [call] at reports
      cases reports
  | superseded stands written =>
    obtain ⟨successor, call⟩ := issued
    rw [call] at reports
    cases reports

theorem accounted_step {initial : Int} {w w' : FlowWorld} {choice : Choice Call Input}
    (before : Accounted env initial w) (allowed : unraced w choice = true)
    (stepped : (system env).step w choice = some w') : Accounted env initial w' := by
  refine ⟨System.honours_step (fun call => (code_disciplined env call).issues) before.honours
    stepped, System.serves_step (P := fun call => reporting call = true) before.reports
      (fun _ started => by subst started; exact allowed) stepped, ?_⟩
  rcases System.step_cases _ stepped with
    ⟨call, -, store, threads⟩ | ⟨i, input, thread, op, ans, rfl, fires⟩
  · intro row stands
    rw [store] at stands
    have total := before.total row stands
    have started : w'.total credited = w.total credited := by
      simp [World.total, threads, credited, resumed]
    rw [started]
    exact total
  · exact accounted_fires before allowed fires

/-- In every interleaving of resumes whose writes find the total of their own first
read in the row, the total at the end is the initial one and all reported spend. -/
theorem total_tokens_exact {row final : Flow} {w : FlowWorld}
    (run : (system env).Runs (fun v choice => unraced v choice = true)
      (initialWorld (some row)) w)
    (succeeded : allResumed w = true) (stands : w.store.row = some final) :
    final.totalTokens = row.totalTokens + (w.threads.map fun thread =>
      reported thread.request).sum := by
  have accounted : Accounted env row.totalTokens w := by
    refine System.Runs.invariant _ run ?_ fun _ _ _ before allowed stepped =>
      accounted_step before allowed stepped
    refine ⟨(sound_initial _).honours, fun _ member => absurd member List.not_mem_nil, ?_⟩
    intro stored same
    cases same
    simp [World.total, initialWorld]
  have credits : ∀ thread ∈ w.threads, credited thread = reported thread.request := by
    intro thread member
    have ended := List.all_eq_true.mp succeeded thread member
    have honours := accounted.honours thread member
    split at ended
    · rename_i reply answered
      rw [answered] at honours
      obtain ⟨wr, stored, resumes⟩ := honours ended
      have recorded : resumed thread.history = true :=
        List.any_eq_true.mpr ⟨wr, stored, resumes⟩
      simp [credited, recorded]
    · cases ended
  rw [accounted.total final stands, World.total, List.map_congr_left credits]

/-! ## Two resumes -/

/-- A flow that waits for two children. -/
def twoChildrenFlow : Flow :=
  { flowId := "flow"
    state := { steps := [
      { stepId := "a", task := "collect", status := some .dispatched, childSessionKey := some "k" },
      { stepId := "b", task := "report", status := some .dispatched
        childSessionKey := some "k2" }] } }

def twoChildrenEnv : Env :=
  scenarioEnv [("k\x1fok", "3f8eaa702abe49b4"), ("k2\x1fok", "2fc0a214597f89b1")] []

def firstResume : Call :=
  .resume { childSessionKey := "k", result := "ok"
            tokenUsage := some { inputTokens := 7, outputTokens := 3 } }

def secondResume : Call :=
  .resume { childSessionKey := "k2", result := "ok"
            tokenUsage := some { inputTokens := 4, outputTokens := 1 } }

/-- The `(child_session_key, result)` pair a call delivers. -/
def delivery : Call → Option (String × String)
  | .resume args => some (args.childSessionKey, args.result)
  | _ => none

/-- Both resumes read before either writes: the second one's total forgets the first. -/
theorem racing_spend_lost : ∃ (w : FlowWorld) (final : Flow),
    (system twoChildrenEnv).Runs (fun v choice => resumesOnly v choice = true)
      (initialWorld (some twoChildrenFlow)) w ∧
    w.threads.map (fun thread => delivery thread.request) = [some ("k", "ok"), some ("k2", "ok")] ∧
    allResumed w = true ∧ w.store.row = some final ∧
    twoChildrenFlow.totalTokens = 0 ∧
    (w.threads.map fun thread => reported thread.request).sum = 15 ∧ final.totalTokens = 5 := by
  have played : ((system twoChildrenEnv).play resumesOnly (initialWorld (some twoChildrenFlow))
      [.start firstResume, .start secondResume, .run 0 .tick, .run 1 .tick, .run 0 .tick,
        .run 0 .tick, .run 1 .tick, .run 1 .tick, .run 1 .tick, .run 1 .tick]).any (fun w =>
        w.threads.map (fun thread => delivery thread.request) ==
          [some ("k", "ok"), some ("k2", "ok")] && allResumed w &&
        (w.threads.map fun thread => reported thread.request).sum == 15 &&
        w.store.row.any fun final => final.totalTokens == 5) = true := by
    decide +kernel
  obtain ⟨w, run, holds⟩ := System.Runs.exists_of_play played
  simp only [Bool.and_eq_true, beq_iff_eq] at holds
  obtain ⟨⟨⟨pairs, succeeded⟩, spend⟩, lost⟩ := holds
  obtain ⟨final, stands, lost⟩ := (Option.any_eq_true _ _).mp lost
  exact ⟨w, final, run, pairs, succeeded, stands, rfl, spend, by simpa using lost⟩

/-- One after the other, both are counted. -/
theorem total_tokens_exact_in_turn : ∃ (w : FlowWorld) (final : Flow),
    w.threads.length = 2 ∧ w.store.row = some final ∧
    final.totalTokens = twoChildrenFlow.totalTokens +
      (w.threads.map fun thread => reported thread.request).sum := by
  have played : ((system twoChildrenEnv).play unraced (initialWorld (some twoChildrenFlow))
      [.start firstResume, .run 0 .tick, .run 0 .tick, .run 0 .tick, .start secondResume,
        .run 1 .tick, .run 1 .tick, .run 1 .tick]).any (fun w =>
        w.threads.length == 2 && allResumed w && w.store.row.isSome) = true := by
    decide +kernel
  obtain ⟨w, run, holds⟩ := System.Runs.exists_of_play played
  simp only [Bool.and_eq_true, beq_iff_eq] at holds
  obtain ⟨⟨two, succeeded⟩, stored⟩ := holds
  obtain ⟨final, stands⟩ := Option.isSome_iff_exists.mp stored
  exact ⟨w, final, two, stands, total_tokens_exact run succeeded stands⟩

end SherryAgent.Guarantees.TokenTotal
