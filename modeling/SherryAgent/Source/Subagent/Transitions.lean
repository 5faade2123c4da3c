import SherryAgent.Source.Subagent.Record

/-!
# Transitions of a run record

What the registry's functions make of one record: `registry/run_manager.py`,
`registry/delivery_state.py` and the arbitration of `registry/lifecycle.py`. The run
time, the archive time, the hand-off and the byte cap on the result text are left out. Times are in
milliseconds.
-/

namespace SherryAgent.Source.Subagent

/-- Whether an optional text is there and not empty. -/
def truthy (text : Option String) : Bool := text.any (· ≠ "")

namespace SubagentRunRecord

/-- `outcome_to_ended_reason`. -/
def outcomeToEndedReason : RunOutcomeStatus → String
  | .ok => "complete"
  | .timeout => "timeout"
  | .killed => "killed"
  | _ => "error"

/-- `complete_run`: a terminal record is left as it is. -/
def complete (run : SubagentRunRecord) (outcome : RunOutcome) (resultText : Option String)
    (now : Time) : SubagentRunRecord :=
  if run.execution.status = .terminal then run
  else { run with
    execution := { run.execution with
      status := .terminal, endedAt := some now, outcome := some outcome }
    completion := { run.completion with resultText }
    endedReason := some (outcomeToEndedReason outcome.status) }

/-- `save_kill_reconciliation`. -/
def saveKillReconciliation (run : SubagentRunRecord) : SubagentRunRecord :=
  { run with killReconciliation := some {
      snapshotExecution := run.execution, snapshotDelivery := run.delivery } }

/-- `_mark_terminal_owner`. -/
def markTerminalOwner (run : SubagentRunRecord) (owner : String) : SubagentRunRecord :=
  if run.terminalOwner.isSome then run else { run with terminalOwner := some owner }

/-- The kill reconciliation with its flag set. -/
def reconcile (run : SubagentRunRecord) : SubagentRunRecord :=
  { run with killReconciliation := run.killReconciliation.map ({ · with reconciled := true }) }

/-- `_arbitrate_kill_vs_completion`; every branch but the first only sets the flag, if
there is one to set. -/
def arbitrateKillVsCompletion (run : SubagentRunRecord) (outcome : RunOutcome) :
    SubagentRunRecord :=
  match run.killReconciliation with
  | none => run
  | some snapshot =>
    if snapshot.reconciled then run
    else if (snapshot.snapshotExecution.outcome.map (·.status)) = some .killed ∧
        outcome.status = .ok ∧ (run.completion.resultText.getD "") ≠ "" then
      { run.reconcile with suppressCompletionDelivery := false }
    else run.reconcile

/-- `RunOutcomeStatus.value`. -/
def outcomeValue : RunOutcomeStatus → String
  | .ok => "ok"
  | .error => "error"
  | .timeout => "timeout"
  | .killed => "killed"
  | .unknown => "unknown"

/-- The record that `complete_subagent_run` leaves before the announce flow. -/
def completedBy (run : SubagentRunRecord) (outcome : RunOutcome) (resultText : Option String)
    (now : Time) : SubagentRunRecord :=
  ((run.arbitrateKillVsCompletion outcome).complete outcome resultText now).markTerminalOwner
    ("outcome:" ++ outcomeValue outcome.status)

/-- The record `finalize_interrupted_run_with_retry` writes. -/
def finalizeInterrupted (run : SubagentRunRecord) (now : Time) : SubagentRunRecord :=
  { run with
    execution := {
      status := .terminal
      startedAt := run.execution.startedAt
      endedAt := some now
      outcome := some { status := .timeout, error := some "finalized" } }
    endedReason := some "finalized" }

/-- `mark_run_paused_after_yield`. -/
def markPausedAfterYield (run : SubagentRunRecord) : SubagentRunRecord :=
  { run with
    execution := { run.execution with status := .interrupted }
    pauseReason := some "yield"
    endedReason := none }

/-- `mark_run_running`. -/
def markRunning (run : SubagentRunRecord) (now : Time) : SubagentRunRecord :=
  if run.execution.status = .pending ∨ run.execution.status = .interrupted then
    { run with
      execution := { run.execution with status := .running, startedAt := some now }
      pauseReason := none }
  else run

/-- `replace_run_after_steer`. -/
def replaceAfterSteer (run : SubagentRunRecord) : SubagentRunRecord :=
  { run with
    generation := run.generation + 1
    execution := { run.execution with status := .interrupted, outcome := none, endedAt := none }
    completion := { run.completion with resultText := none }
    delivery := { status := if run.completion.required then .pending else .notRequired }
    endedReason := none
    pauseReason := some "steer"
    cleanupCompletedAt := none }

/-- The record `resume_subagent_run` writes. -/
def resumed (run : SubagentRunRecord) (now : Time) : SubagentRunRecord :=
  { run with
    execution := { run.execution with status := .running, startedAt := some now }
    generation := run.generation + 1
    pauseReason := none }

/-- The record `steer_subagent_run` dispatches. -/
def restarted (run : SubagentRunRecord) : SubagentRunRecord :=
  { run with
    execution := { run.execution with status := .pending, startedAt := none }
    pauseReason := none
    suppressAnnounceReason := none }

/-- `mark_delivery_suspended`. -/
def markDeliverySuspended (run : SubagentRunRecord) (now : Time) : SubagentRunRecord :=
  { run with delivery := { run.delivery with status := .suspended, suspendedAt := some now } }

/-- `_should_suspend_pending_final_delivery`. -/
def shouldSuspendPendingFinalDelivery (run : SubagentRunRecord) : Bool :=
  run.cleanup == .keep && run.endedReason == some "complete" && run.expectsCompletionMessage &&
    run.execution.outcome.any (·.status == .ok) && run.delivery.status == .pending

end SubagentRunRecord

end SherryAgent.Source.Subagent

/-! ## The delivery state machine -/

namespace SherryAgent.Source.Subagent.SubagentRunRecord

variable (run : SubagentRunRecord)

/-- `mark_delivery_pending`. -/
def markDeliveryPending : SubagentRunRecord :=
  { run with delivery := { run.delivery with status := .pending } }

/-- `mark_delivery_in_progress`. -/
def markDeliveryInProgress (now : Time) : SubagentRunRecord :=
  { run with delivery := { run.delivery with status := .inProgress, lastAttemptAt := some now } }

/-- `mark_delivery_delivered`. -/
def markDeliveryDelivered (now : Time) : SubagentRunRecord :=
  { run with delivery := { run.delivery with
      status := .delivered, deliveredAt := some now, announcedAt := some now } }

/-- `mark_delivery_failed`. -/
def markDeliveryFailed (error : String) (now : Time) : SubagentRunRecord :=
  { run with delivery := { run.delivery with
      status := .failed
      lastError := some error
      attemptCount := run.delivery.attemptCount + 1
      lastAttemptAt := some now } }

/-- `mark_delivery_discarded`. -/
def markDeliveryDiscarded (reason : String) : SubagentRunRecord :=
  { run with delivery := { run.delivery with status := .discarded, discardReason := some reason } }

/-- `should_retry_delivery`. -/
def shouldRetryDelivery (maxAttempts : Nat) : Bool :=
  (run.delivery.status == .failed || run.delivery.status == .suspended) &&
    decide (run.delivery.attemptCount < maxAttempts)

/-- `is_delivery_expired`. -/
def isDeliveryExpired (expiryMs : Nat) (now : Time) : Bool :=
  run.delivery.lastAttemptAt.any fun last => decide (expiryMs < now - last)

/-- `should_discard_delivery`. -/
def shouldDiscardDelivery (maxAnnounceRetryCount hardExpiryMs : Nat) (now : Time) : Bool :=
  decide (maxAnnounceRetryCount ≤ run.delivery.attemptCount) ||
    run.execution.endedAt.any fun ended => decide (hardExpiryMs < now - ended)

end SherryAgent.Source.Subagent.SubagentRunRecord
