import Mathlib.Order.Lattice

/-!
# The run record of a sub-agent

`agent/tools/subagent/types/registry.py`: the execution, completion and delivery
states and the record of one run, with the fields the modelled functions read or
write. A time is a reading of the process clock.
-/

namespace SherryAgent.Source.Subagent

inductive ExecutionStatus where
  | pending | running | interrupted | terminal
  deriving DecidableEq, Repr

inductive DeliveryStatus where
  | notRequired | pending | inProgress | delivered | failed | suspended | discarded
  deriving DecidableEq, Repr

inductive RunOutcomeStatus where
  | ok | error | timeout | killed | unknown
  deriving DecidableEq, Repr

structure RunOutcome where
  status : RunOutcomeStatus := .unknown
  error : Option String := none
  deriving DecidableEq

abbrev Time := Nat

structure ExecutionState where
  status : ExecutionStatus := .running
  startedAt : Option Time := none
  endedAt : Option Time := none
  outcome : Option RunOutcome := none
  deriving DecidableEq

structure CompletionState where
  required : Bool := true
  resultText : Option String := none
  deriving DecidableEq

structure CompletionDeliveryState where
  status : DeliveryStatus := .notRequired
  attemptCount : Nat := 0
  lastError : Option String := none
  lastAttemptAt : Option Time := none
  suspendedAt : Option Time := none
  discardReason : Option String := none
  deliveredAt : Option Time := none
  announcedAt : Option Time := none
  deriving DecidableEq

inductive Cleanup where
  | delete | keep
  deriving DecidableEq

/-- The states when the run was killed, without the time. -/
structure KillReconciliationState where
  snapshotExecution : ExecutionState := {}
  snapshotDelivery : CompletionDeliveryState := {}
  reconciled : Bool := false
  deriving DecidableEq

inductive SwarmRunState where
  | reserved | active | completed | failed
  deriving DecidableEq, Repr

structure SubagentRunRecord where
  runId : String
  childSessionKey : String
  requesterSessionKey : String
  cleanup : Cleanup := .delete
  generation : Nat := 0
  expectsCompletionMessage : Bool := true
  endedReason : Option String := none
  pauseReason : Option String := none
  wakeOnDescendantSettle : Bool := false
  cleanupCompletedAt : Option Time := none
  killReconciliation : Option KillReconciliationState := none
  suppressAnnounceReason : Option String := none
  terminalOwner : Option String := none
  abortedLastRun : Bool := false
  swarmGroupId : Option String := none
  swarmRunState : Option SwarmRunState := none
  launchFingerprint : Option String := none
  suppressCompletionDelivery : Bool := false
  execution : ExecutionState := {}
  completion : CompletionState := {}
  delivery : CompletionDeliveryState := {}
  deriving DecidableEq

/-- RUNNING or PENDING: what the active counts count. -/
def SubagentRunRecord.isActive (run : SubagentRunRecord) : Bool :=
  run.execution.status == .running || run.execution.status == .pending

end SherryAgent.Source.Subagent
