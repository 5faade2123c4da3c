import SherryAgent.Library.Solo
import SherryAgent.Source.Taskflow.Tools.Lifecycle

/-!
# How often a flow can refuse to finish

- `finish_bounded`: finishes without another writer end the flow, whatever its gates answer
- `negative_nudges_outlast`: a counter that starts below zero outlasts the configured limits
-/

namespace SherryAgent.Guarantees.FinishBound

open SherryAgent.Source SherryAgent.Source.Taskflow SherryAgent.Library.Resumption

/-- A `taskflow_finish` call and what its gates answer. -/
structure FinishCall where
  summary : String := ""
  evidence : Option String := none
  goal : Option String := none

def FinishCall.input (call : FinishCall) (_ : History) : Op → Input
  | .evidenceGate => .gate call.evidence
  | .goalGate => .gate call.goal
  | _ => .tick

/-- The store behind the call, made without `expected_revision` and without another writer. -/
def finishOnce (env : Env) (call : FinishCall) (store : Store) : Option Store :=
  ((taskflowFinish env call.summary none).solo exec call.input [] store).map fun ran => ran.2.2

def finishAll (env : Env) : List FinishCall → Store → Option Store
  | [], store => some store
  | call :: later, store => (finishOnce env call store).bind (finishAll env later)

def pendingSteps (steps : List Step) : List Step :=
  steps.filter fun step => stepStatus step == .ready || stepStatus step == .dispatched

def undispatchedSteps (steps : List Step) : List Step :=
  (pendingSteps steps).filter fun step => stepStatus step == .ready && !step.hasChild

/-- The real failures that are left. -/
def failuresLeft (env : Env) (state : FlowState) : Int :=
  max 1 (env.infra.finishFailureLimit - state.consecutiveFailures)

/-- The calls that are left before the gates end the flow. -/
def callsLeft (env : Env) (state : FlowState) : Int :=
  if !(pendingSteps state.steps).isEmpty then
    if !(undispatchedSteps state.steps).isEmpty then
      max 1 (env.infra.finishProtocolViolationLimit - state.protocolViolationStreak)
    else max 0 (env.infra.finishNudgeMax - state.finishNudgeCount) + failuresLeft env state
  else failuresLeft env state

/-- The bound of the limits, with the part of a counter that lies below zero on top. -/
def finishBound (env : Env) (state : FlowState) : Int :=
  max (env.infra.finishProtocolViolationLimit - min state.protocolViolationStreak 0)
    (env.infra.finishNudgeMax - min state.finishNudgeCount 0 +
      (env.infra.finishFailureLimit - min state.consecutiveFailures 0))

structure PositiveLimits (env : Env) : Prop where
  protocol : 0 < env.infra.finishProtocolViolationLimit
  nudges : 0 < env.infra.finishNudgeMax
  failures : 0 < env.infra.finishFailureLimit

/-- The row behind a call: the flow has ended, or the counters leave fewer calls. -/
def Progress (env : Env) (flow after : Flow) : Prop :=
  isTerminal after.status = true ∨ callsLeft env after.state < callsLeft env flow.state

/-- Alone on the row, the rest of a call returns and makes progress. -/
def Advances (env : Env) (call : FinishCall) (store : Store) (flow : Flow) (p : Tool Reply) :
    Prop :=
  ∀ h, ∃ reply h' after, p.solo exec call.input h store =
    some (reply, h', { store with row := some after }) ∧ Progress env flow after

variable {env : Env} {call : FinishCall} {store : Store} {flow : Flow} {state : FlowState}

/-! ## The writes of a call -/

/-- Nobody else writes, so the compare-and-swap on the row's revision succeeds. -/
theorem updateFlow_alone (row : store.row = some flow) {w : Write}
    (current : w.expectedRevision = flow.expectedRevision) (h : History) :
    ∃ h', (updateFlow w).solo exec call.input h store =
      some (.updated (w.update flow), h', { store with row := some (w.update flow) }) := by
  have stored : exec (.updateFlow w) store (call.input h (.updateFlow w)) =
      some (.stored, { store with row := some (w.update flow) }) := by
    simp [exec, Store.cas, row, current]
  refine ⟨h ++ [⟨.updateFlow w, .stored⟩] ++ [⟨.getFlow .updated, some (w.update flow)⟩], ?_⟩
  unfold updateFlow
  rw [Prog.solo_perform_bind stored]
  rfl

/-- A write of the call and the reply behind it. -/
theorem write_advances (row : store.row = some flow) {w : Write}
    (current : w.expectedRevision = flow.expectedRevision) (reply : UpdateOutcome → Tool Reply)
    (pure_reply : ∀ outcome, ∃ value, reply outcome = pure value)
    (progress : Progress env flow (w.update flow)) :
    Advances env call store flow (updateFlow w >>= reply) := by
  intro h
  have alone : ∃ h', (updateFlow w).solo exec call.input h store =
      some (.updated (w.update flow), h', { store with row := some (w.update flow) }) :=
    updateFlow_alone row current h
  obtain ⟨h', ran⟩ := alone
  obtain ⟨value, replied⟩ := pure_reply (.updated (w.update flow))
  refine ⟨value, h', w.update flow, ?_, progress⟩
  rw [Prog.solo_bind, ran, Option.bind_some, replied, Prog.solo_pure]

theorem autoFailFinish_advances (row : store.row = some flow) (reason terminalReason : String) :
    Advances env call store flow
      (autoFailFinish env flow.expectedRevision flow state reason terminalReason) := by
  apply write_advances row
  · rfl
  · intro outcome
    cases outcome <;> exact ⟨_, rfl⟩
  · left
    rfl

theorem persist_advances (row : store.row = some flow) (message : String)
    (fewer : callsLeft env state < callsLeft env flow.state) :
    Advances env call store flow (do
      match ← persistFinishState env flow.expectedRevision flow state with
      | some text => pure (.error text)
      | none => pure (.error message)) := by
  intro h
  let w : Write :=
    { expectedRevision := flow.expectedRevision, build := .put state, current := flow }
  have current : w.expectedRevision = flow.expectedRevision := rfl
  obtain ⟨h', ran⟩ := @updateFlow_alone call store flow row w current h
  refine ⟨.error message, h', w.update flow, ?_, .inr fewer⟩
  unfold persistFinishState
  rw [Prog.solo_bind, Prog.solo_bind, ran]
  rfl

/-! ## The gates -/

/-- A rejection counts a real failure; at the limit the flow fails. -/
theorem rejectFinish_advances (limits : PositiveLimits env) (row : store.row = some flow)
    (message : String)
    (fewer : state.consecutiveFailures + 1 < env.infra.finishFailureLimit →
      callsLeft env { state with consecutiveFailures := state.consecutiveFailures + 1 } <
        callsLeft env flow.state) :
    Advances env call store flow
      (rejectFinish env flow.expectedRevision flow state message) := by
  have positive := limits.failures
  unfold rejectFinish
  dsimp only
  by_cases exhausted : env.infra.finishFailureLimit ≤ state.consecutiveFailures + 1
  · rw [if_pos ⟨positive, exhausted⟩]
    exact autoFailFinish_advances row _ _
  · rw [if_neg (fun both => exhausted both.2)]
    exact persist_advances row _ (fewer (by omega))

/-- Gate A: a violation uses up the streak, a nudge the allowance and then the failures. -/
theorem gatePending_advances (limits : PositiveLimits env) (row : store.row = some flow)
    (waiting : (pendingSteps flow.state.steps).isEmpty = false) :
    Advances env call store flow
      (gatePending env flow.expectedRevision flow (pendingSteps flow.state.steps)) := by
  have protocol := limits.protocol
  have nudges := limits.nudges
  unfold gatePending
  dsimp only
  change Advances env call store flow (if !(undispatchedSteps flow.state.steps).isEmpty then _ else _)
  by_cases undispatched : (undispatchedSteps flow.state.steps).isEmpty = true
  · rw [undispatched]
    simp only [Bool.not_true, Bool.false_eq_true, if_false]
    by_cases nudged : flow.state.finishNudgeCount + 1 ≤ env.infra.finishNudgeMax
    · rw [if_pos nudged]
      apply persist_advances row
      simp only [callsLeft, failuresLeft, waiting, undispatched, Bool.not_false, Bool.not_true,
        if_true, Bool.false_eq_true, if_false]
      omega
    · rw [if_neg nudged]
      apply rejectFinish_advances limits row
      intro under
      simp only [callsLeft, failuresLeft, waiting, undispatched, Bool.not_false, Bool.not_true,
        if_true, Bool.false_eq_true, if_false] at under ⊢
      omega
  · rw [Bool.not_eq_true] at undispatched
    rw [undispatched]
    simp only [Bool.not_false, if_true]
    by_cases exhausted :
        env.infra.finishProtocolViolationLimit ≤ flow.state.protocolViolationStreak + 1
    · rw [if_pos ⟨protocol, exhausted⟩]
      exact autoFailFinish_advances row _ _
    · rw [if_neg (fun both => exhausted both.2)]
      apply persist_advances row
      simp only [callsLeft, waiting, undispatched, Bool.not_false, if_true]
      omega

/-- A gate behind Gate A rejects. -/
theorem gate_advances (limits : PositiveLimits env) (row : store.row = some flow)
    (settled : (pendingSteps flow.state.steps).isEmpty = true) (message : String) :
    Advances env call store flow
      (rejectFinish env flow.expectedRevision flow flow.state message) := by
  apply rejectFinish_advances limits row
  intro under
  simp only [callsLeft, failuresLeft, settled, Bool.not_true, Bool.false_eq_true, if_false]
  omega

theorem completeFinish_advances (row : store.row = some flow) (summary : String) :
    Advances env call store flow (completeFinish env summary flow.expectedRevision flow) := by
  apply write_advances row
  · rfl
  · intro outcome
    cases outcome <;> exact ⟨_, rfl⟩
  · left
    rfl

/-- The evidence gate and the goal judge answer as they like. -/
theorem gate_perform_advances (op : Op) (ans : op.Ans) {next : op.Ans → Tool Reply}
    (answers : ∀ h, exec op store (call.input h op) = some (ans, store))
    (advances : Advances env call store flow (next ans)) :
    Advances env call store flow (Prog.perform (E := effects) op >>= next) := by
  intro h
  obtain ⟨reply, h', after, ran, progress⟩ := advances (h ++ [⟨op, ans⟩])
  exact ⟨reply, h', after, (Prog.solo_perform_bind (answers h)).trans ran, progress⟩

/-- A finish of a live flow makes progress whatever its gates answer. -/
theorem taskflowFinish_advances (limits : PositiveLimits env) (row : store.row = some flow)
    (live : isTerminal flow.status = false) :
    Advances env call store flow (taskflowFinish env call.summary none) := by
  unfold taskflowFinish
  apply gate_perform_advances (.getFlow .tool) (some flow)
  · intro h
    simp [exec, row]
  · dsimp only
    rw [live]
    simp only [Bool.false_eq_true, if_false, Option.getD_none]
    change Advances env call store flow (if !(pendingSteps flow.state.steps).isEmpty then _ else _)
    by_cases settled : (pendingSteps flow.state.steps).isEmpty = true
    · rw [settled]
      simp only [Bool.not_true, Bool.false_eq_true, if_false]
      cases gateUnresolved flow.state.steps with
      | some text => exact gate_advances limits row settled text
      | none =>
        apply gate_perform_advances .evidenceGate call.evidence (fun h => rfl)
        cases call.evidence with
        | some text => exact gate_advances limits row settled text
        | none =>
          apply gate_perform_advances .goalGate call.goal (fun h => rfl)
          cases call.goal with
          | some text => exact gate_advances limits row settled text
          | none => exact completeFinish_advances row call.summary
    · rw [Bool.not_eq_true] at settled
      rw [settled]
      exact gatePending_advances limits row settled

/-! ## Repeated calls -/

theorem callsLeft_pos (env : Env) (state : FlowState) : 0 < callsLeft env state := by
  unfold callsLeft failuresLeft
  split
  · split
    · omega
    · omega
  · omega

theorem callsLeft_le_bound (limits : PositiveLimits env) (state : FlowState) :
    callsLeft env state ≤ finishBound env state := by
  have protocol := limits.protocol
  have nudges := limits.nudges
  have failures := limits.failures
  unfold callsLeft failuresLeft finishBound
  split
  · split
    · omega
    · omega
  · omega

/-- An ended flow stays as it is. -/
theorem finishOnce_ended (row : store.row = some flow) (ended : isTerminal flow.status = true) :
    finishOnce env call store = some store := by
  have read : exec (.getFlow .tool) store (call.input [] (.getFlow .tool)) =
      some (some flow, store) := by
    simp [exec, row]
  unfold finishOnce taskflowFinish getFlow
  rw [Prog.solo_perform_bind read]
  dsimp only
  rw [if_pos ended]
  rfl

theorem finishOnce_live (limits : PositiveLimits env) (row : store.row = some flow)
    (live : isTerminal flow.status = false) : ∃ after,
      finishOnce env call store = some { store with row := some after } ∧
        Progress env flow after := by
  obtain ⟨reply, h', after, ran, progress⟩ := @taskflowFinish_advances env call store flow limits row live []
  refine ⟨after, ?_, progress⟩
  unfold finishOnce
  rw [ran]
  rfl

/-- A flow whose gates keep rejecting ends within the calls that its counters leave. The
induction is on the calls. -/
theorem ends_within (limits : PositiveLimits env) (calls : List FinishCall)
    (row : store.row = some flow)
    (enough : isTerminal flow.status = true ∨ callsLeft env flow.state ≤ calls.length) :
    ∃ after ended, finishAll env calls store = some after ∧ after.row = some ended ∧
      isTerminal ended.status = true := by
  induction calls generalizing store flow with
  | nil =>
    have some_left := callsLeft_pos env flow.state
    rcases enough with ended | enough
    · exact ⟨store, flow, rfl, row, ended⟩
    · simp only [List.length_nil] at enough
      omega
  | cons call later ih =>
    cases live : isTerminal flow.status with
    | true =>
      rw [finishAll, finishOnce_ended row live]
      exact ih row (.inl live)
    | false =>
      obtain ⟨after, ran, progress⟩ := @finishOnce_live env call store flow limits row live
      rw [finishAll, ran]
      apply ih rfl
      rcases progress with ended | fewer
      · exact .inl ended
      · right
        rcases enough with ended | enough
        · rw [live] at ended
          cases ended
        · simp only [List.length_cons] at enough
          omega

/-- Finishes without `expected_revision` and without another writer make the flow terminal
within the bound of the limits, a counter below zero counted on top. -/
theorem finish_bounded (env : Env) (limits : PositiveLimits env) (store : Store) (flow : Flow)
    (row : store.row = some flow) (calls : List FinishCall)
    (enough : finishBound env flow.state ≤ calls.length) :
    ∃ after ended, finishAll env calls store = some after ∧ after.row = some ended ∧
      isTerminal ended.status = true := by
  have covered := callsLeft_le_bound limits flow.state
  apply ends_within limits calls row
  right
  omega

/-- Where no counter starts below zero, the bound is that of the limits alone. -/
theorem finishBound_of_nonneg (env : Env) (state : FlowState)
    (streak : 0 ≤ state.protocolViolationStreak) (nudge : 0 ≤ state.finishNudgeCount)
    (failures : 0 ≤ state.consecutiveFailures) :
    finishBound env state = max env.infra.finishProtocolViolationLimit
      (env.infra.finishNudgeMax + env.infra.finishFailureLimit) := by
  unfold finishBound
  omega

/-! ## Two flows under the default limits -/

def sampleEnv : Env where
  digest := id
  loads _ := .error "not JSON"
  validate _ _ := .ok ()

/-- A running child, and a nudge counter as `taskflow_create` was given it. -/
def nudged (count : Int) : Store where
  row := some
    { flowId := "flow"
      state := { steps := [{ stepId := "a", task := "work", status := some .dispatched
                             childSessionKey := some "child" }]
                 finishNudgeCount := count } }

theorem defaultLimits : PositiveLimits sampleEnv := ⟨by decide, by decide, by decide⟩

/-- Two nudges and two rejections end the flow. -/
theorem four_calls_end : ∃ after ended,
    finishAll sampleEnv (List.replicate 4 {}) (nudged 0) = some after ∧ after.row = some ended ∧
      isTerminal ended.status = true :=
  finish_bounded sampleEnv defaultLimits (nudged 0) _ rfl _ (by decide)

/-- The nudges of a counter that starts at -10 are not used up by the calls that the limits
allow. -/
theorem negative_nudges_outlast : PositiveLimits sampleEnv ∧
    max sampleEnv.infra.finishProtocolViolationLimit
      (sampleEnv.infra.finishNudgeMax + sampleEnv.infra.finishFailureLimit) = 4 ∧
    ∃ after running, finishAll sampleEnv (List.replicate 4 {}) (nudged (-10)) = some after ∧
      after.row = some running ∧ isTerminal running.status = false :=
  ⟨defaultLimits, by decide, _, _, rfl, rfl, rfl⟩

end SherryAgent.Guarantees.FinishBound
