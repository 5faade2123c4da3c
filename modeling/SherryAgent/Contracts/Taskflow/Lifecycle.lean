import SherryAgent.Contracts.Taskflow.Planning
import SherryAgent.Contracts.Taskflow.Resume

/-!
# The specification of every call

The tools that move the flow as a whole, and `code_disciplined`: whatever the store and
the environment answer, a call performs only what `MayPerform` allows.
-/

namespace SherryAgent.Contracts.Taskflow

open SherryAgent.Source SherryAgent.Source.Taskflow SherryAgent.Library.Resumption Prog

variable {env : Env}

/-- The calls that read once, check and write once. -/
theorem writeOnce_issues (call : Call) (write : BuildState × UpdateKwargs)
    (once : BuildState.resumes write.1 = false) (writes : Call.single call = some write) :
    (writeOnce env (Call.expectedRevision call) fun _ => write).Issues (E := effects)
      (MayPerform env call) MayReturn [] := by
  refine (getFlow_bind_issues _ _ _).mpr ⟨trivial, fun row => ?_⟩
  cases row with
  | none => exact fun resumed => (by cases resumed)
  | some flow =>
    dsimp only
    split
    · exact fun resumed => (by cases resumed)
    · rename_i live
      refine Issues.bind _ (updateOnce_issues _ (known_read [] _ _) once
        (.single (mem_reads_read [] _ _) (Bool.eq_false_iff.mpr live) writes)) ?_
      intro h' outcome _ _
      cases outcome <;> exact fun resumed => (by cases resumed)

/-! ## `taskflow_finish` -/

/-- A finish between its read and its write. -/
structure Finishing (h : History) (flow : Flow) : Prop where
  read : (.tool, flow) ∈ reads h
  unchanged : known h = some flow
  live : isTerminal flow.status = false

variable {flow : Flow} {summary : String} {revision : Option Int} {h : History}

theorem Finishing.gate (finishing : Finishing h flow) (op : Op) (ans : op.Ans)
    (keeps : observe (some flow) op ans = some flow) : Finishing (h ++ [⟨op, ans⟩]) flow :=
  ⟨seen_mono (List.prefix_append _ _) finishing.read,
    by rw [known_append, finishing.unchanged, keeps], finishing.live⟩

/-- A state that differs from the row's in its counters and texts only. -/
def Keeps (flow : Flow) (state : FlowState) : Prop :=
  state.results = flow.state.results ∧ state.steps = flow.state.steps

/-- A write of `taskflow_finish`, whatever it replies afterwards. -/
theorem Finishing.put_issues (finishing : Finishing h flow) {state : FlowState}
    {kwargs : UpdateKwargs} (finishes : FinishState flow state kwargs)
    (tokens : kwargs.totalTokens = none) :
    (updateFlow { expectedRevision := revision.getD flow.expectedRevision, build := .put state,
                  current := flow, kwargs }).Issues (E := effects)
      (MayPerform env (.finish summary revision)) (fun _ _ => True) h :=
  updateOnce_issues ⟨flow, flow.state.steps, .put state, _, _⟩ finishing.unchanged rfl
    (.finish finishing.read finishing.live finishes tokens)

theorem autoFailFinish_issues (finishing : Finishing h flow) {state : FlowState}
    (keeps : Keeps flow state)
    (reason terminalReason : String) :
    (autoFailFinish env (revision.getD flow.expectedRevision) flow state reason
      terminalReason).Issues (E := effects) (MayPerform env (.finish summary revision)) MayReturn
      h := by
  refine Issues.bind _ (finishing.put_issues
    ⟨keeps.1, .inr ⟨rfl, reason, congrArg (List.map (autoFailStep reason)) keeps.2⟩, nofun⟩ rfl) ?_
  intro h' outcome _ _
  cases outcome <;> exact fun resumed => (by cases resumed)

theorem persistFinishState_issues (finishing : Finishing h flow) {state : FlowState}
    (keeps : Keeps flow state) :
    (persistFinishState env (revision.getD flow.expectedRevision) flow state).Issues
      (E := effects) (MayPerform env (.finish summary revision)) (fun _ _ => True) h := by
  refine Issues.bind _ (finishing.put_issues ⟨keeps.1, .inl keeps.2, nofun⟩ rfl) ?_
  intro h' outcome _ _
  cases outcome <;> trivial

theorem rejectFinish_issues (finishing : Finishing h flow) {state : FlowState}
    (keeps : Keeps flow state)
    (message : String) :
    (rejectFinish env (revision.getD flow.expectedRevision) flow state message).Issues
      (E := effects) (MayPerform env (.finish summary revision)) MayReturn h := by
  unfold rejectFinish
  dsimp only
  split
  · exact autoFailFinish_issues finishing (by exact keeps) _ _
  · refine Issues.bind _ (persistFinishState_issues finishing (by exact keeps)) ?_
    intro h' outcome _ _
    cases outcome <;> exact fun resumed => (by cases resumed)

theorem gatePending_issues (finishing : Finishing h flow) (pending : List Step) :
    (gatePending env (revision.getD flow.expectedRevision) flow pending).Issues (E := effects)
      (MayPerform env (.finish summary revision)) MayReturn h := by
  unfold gatePending
  dsimp only
  split
  · split
    · exact autoFailFinish_issues finishing (by exact ⟨rfl, rfl⟩) _ _
    · refine Issues.bind _ (persistFinishState_issues finishing (by exact ⟨rfl, rfl⟩)) ?_
      intro h' outcome _ _
      cases outcome <;> exact fun resumed => (by cases resumed)
  · split
    · refine Issues.bind _ (persistFinishState_issues finishing (by exact ⟨rfl, rfl⟩)) ?_
      intro h' outcome _ _
      cases outcome <;> exact fun resumed => (by cases resumed)
    · exact rejectFinish_issues finishing (by exact ⟨rfl, rfl⟩) _

/-- What the gates leave: a step that is done, or whose status they do not know. -/
theorem gates_passed {steps : List Step}
    (settled : (steps.filter fun step =>
      stepStatus step == .ready || stepStatus step == .dispatched).isEmpty = true)
    (resolved : gateUnresolved steps = none) :
    ∀ step ∈ steps, stepStatus step = .done ∨ (stepStatus step).isMember = false := by
  intro step member
  have idle := List.filter_eq_nil_iff.mp (List.isEmpty_iff.mp settled) step member
  unfold gateUnresolved at resolved
  dsimp only at resolved
  split at resolved
  · cases resolved
  · rename_i no_failed
    split at resolved
    · cases resolved
    · rename_i no_blocked
      rw [Bool.not_eq_true, Bool.not_eq_false', List.isEmpty_iff] at no_failed no_blocked
      have ended := List.filter_eq_nil_iff.mp no_failed step member
      have stuck := List.filter_eq_nil_iff.mp no_blocked step member
      cases status : stepStatus step <;> simp [status, StepStatus.isMember] at idle ended stuck ⊢

theorem completeFinish_issues (finishing : Finishing h flow)
    (gated : ∀ step ∈ flow.state.steps,
      stepStatus step = .done ∨ (stepStatus step).isMember = false) :
    (completeFinish env summary (revision.getD flow.expectedRevision) flow).Issues (E := effects)
      (MayPerform env (.finish summary revision)) MayReturn h := by
  refine Issues.bind _ (finishing.put_issues ⟨rfl, .inl rfl, fun _ => gated⟩ rfl) ?_
  intro h' outcome _ _
  cases outcome <;> exact fun resumed => (by cases resumed)

theorem taskflowFinish_issues (summary : String) (revision : Option Int) :
    (taskflowFinish env summary revision).Issues (E := effects)
      (MayPerform env (.finish summary revision)) MayReturn [] := by
  refine (getFlow_bind_issues _ _ _).mpr ⟨trivial, fun row => ?_⟩
  cases row with
  | none => exact fun resumed => (by cases resumed)
  | some flow =>
    dsimp only
    split
    · exact fun resumed => (by cases resumed)
    rename_i live
    have finishing : Finishing ([] ++ [⟨.getFlow .tool, some flow⟩]) flow :=
      ⟨mem_reads_read [] _ _, known_read [] _ _, Bool.eq_false_iff.mpr live⟩
    split
    · exact gatePending_issues finishing _
    rename_i settled
    split
    · exact rejectFinish_issues finishing (by exact ⟨rfl, rfl⟩) _
    rename_i resolved
    have gated := gates_passed (by simpa using settled) resolved
    refine (issues_perform_bind _ _ _).mpr ⟨trivial, fun evidence => ?_⟩
    have finishing := finishing.gate .evidenceGate evidence rfl
    cases evidence with
    | some text => exact rejectFinish_issues finishing (by exact ⟨rfl, rfl⟩) _
    | none =>
      refine (issues_perform_bind _ _ _).mpr ⟨trivial, fun goal => ?_⟩
      have finishing := finishing.gate .goalGate goal rfl
      cases goal with
      | some text => exact rejectFinish_issues finishing (by exact ⟨rfl, rfl⟩) _
      | none => exact completeFinish_issues finishing gated

/-! ## Every call -/

theorem supersedeFlow_issues (successor : String) :
    (supersedeFlow env successor).Issues (E := effects) (MayPerform env (.supersede successor))
      MayReturn [] := by
  refine (issues_perform_bind _ _ _).mpr ⟨⟨successor, rfl⟩, fun marked => ?_⟩
  cases marked <;> exact fun resumed => (by cases resumed)

theorem code_disciplined (env : Env) (call : Call) : Disciplined env call := by
  cases call with
  | create args => exact ⟨taskflowCreate_issues args⟩
  | plan goal maxSteps => exact ⟨taskflowPlan_issues goal maxSteps⟩
  | runTask args => exact ⟨taskflowRunTask_issues args⟩
  | updateSteps steps revision => exact ⟨taskflowUpdateSteps_issues steps revision⟩
  | replan reason keepDone => exact ⟨taskflowReplan_issues reason keepDone⟩
  | dispatch stepIds revision => exact ⟨taskflowDispatch_issues env stepIds revision⟩
  | resume args => exact taskflowResume_disciplined env args
  | waitAll => exact ⟨taskflowWaitAll_issues env⟩
  | setWaiting waitReason revision =>
    exact ⟨writeOnce_issues (.setWaiting waitReason revision) _ rfl rfl⟩
  | budgetSet budget revision =>
    refine ⟨?_⟩
    simp only [code, taskflowBudgetSet]
    split
    · exact fun resumed => (by cases resumed)
    · exact writeOnce_issues (.budgetSet budget revision) _ rfl rfl
  | cancel reason revision => exact ⟨writeOnce_issues (.cancel reason revision) _ rfl rfl⟩
  | fail reason revision => exact ⟨writeOnce_issues (.fail reason revision) _ rfl rfl⟩
  | finish summary revision => exact ⟨taskflowFinish_issues summary revision⟩
  | supersede successor => exact ⟨supersedeFlow_issues successor⟩

end SherryAgent.Contracts.Taskflow
