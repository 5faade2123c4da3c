import SherryAgent.Library.Machine
import SherryAgent.Source.PyText
import SherryAgent.Source.Subagent.Transitions

/-!
# Completion, announcement and cleanup of one run

`registry/lifecycle.py`, `control/kill.py`, `announce/core.py`, `announce/delivery.py`, the
scans of `registry/sweeper.py` and `activate_swarm_run` of `swarm/collector.py`, on one run
that nothing steers or removes; its callbacks then always pass the generation guard. A task
is where it waits. The records are copies: a task holds the one it read or wrote last and
writes it back whole.
-/

namespace SherryAgent.Source.Subagent

open SherryAgent.Library SherryAgent.Source

structure DeliveryConfig where
  maxAnnounceRetryCount : Nat := 10
  announceExpiryMs : Nat := 7200000
  announceHardExpiryMs : Nat := 86400000
  deliverySuspendSoftCap : Nat := 25
  deliverySuspendHardCap : Nat := 50

/-- The run's record, and whether its terminal lock is held. -/
structure RunStore where
  record : SubagentRunRecord
  locked : Bool := false

/-- What follows an announce flow: the rest of `complete_subagent_run` alone, in
`kill_subagent_run` or in `recover_orphaned_runs`, with the record each holds, or nothing. -/
inductive FlowEnd where
  | complete (run : SubagentRunRecord)
  | kill (run : SubagentRunRecord)
  | orphan (run : SubagentRunRecord)
  | scan

/-- The sweeper's scans that act on a snapshot of the records, one record after another. -/
inductive Scan where
  | orphans | suspended | failed | undelivered
  deriving DecidableEq

/-- Where a task waits. In the announce flow: `merging` the isolated workspace,
`capturing` the reply, `targeting` through the hook and the task flow, `dispatching`
between attempts, `routing` on the third path, `hooking` in the stop hooks. After it:
`settling` the batch, `settled` in the swarm's pump, `cleaning` the child's session. -/
inductive CompletionTask where
  | complete (outcome : RunOutcome) (resultText : Option String)
  | kill (reason : String)
  | killing (reason : String)
  | merging (copy : SubagentRunRecord) (flow : FlowEnd)
  | capturing (copy : SubagentRunRecord) (report : Option String) (flow : FlowEnd)
  | targeting (copy : SubagentRunRecord) (pendingCount : Nat) (flow : FlowEnd)
  | dispatching (copy attempted : SubagentRunRecord) (pendingCount : Nat) (flow : FlowEnd)
  | routing (copy : SubagentRunRecord) (flow : FlowEnd)
  | hooking (flow : FlowEnd)
  | settling (flow : FlowEnd)
  | settled (flow : FlowEnd)
  | cleaning (flow : FlowEnd)
  | timer
  | scan (kind : Scan)
  | scanned (kind : Scan) (copy : SubagentRunRecord)
  | expire (reason : String)
  | finalizeKilled
  | activate
  | finished

/-- The environment. `answer` is what the task asks of the other runs and of the clock
where it waits; `deferred`, `deduplicated` and `pendingCount` are those questions of the
announce flow before its delivery. -/
inductive CompletionInput where
  | next (now : Time) (answer : Bool)
  | merged (report : Option String) (now : Time) (deferred deduplicated : Bool)
      (pendingCount : Nat)
  | captured (text : Option String) (now : Time) (deferred deduplicated : Bool)
      (pendingCount : Nat)
  | redirect (requesterSessionKey : String)
  | attemptFailed (error : String) (now : Time)
  | published
  | gaveUp (now : Time)

namespace Completion

variable (config : DeliveryConfig)

def write (store : RunStore) (run : SubagentRunRecord) : RunStore := { store with record := run }

/-- `kill_subagent_run` goes on with the record `complete_subagent_run` has returned. -/
def killed (store : RunStore) (run : SubagentRunRecord) : RunStore :=
  write store { run with abortedLastRun := true }

/-- The end of the operation an announce flow is part of. -/
def endFlow (store : RunStore) : FlowEnd → RunStore
  | .complete _ => { store with locked := false }
  | .kill run => killed { store with locked := false } run
  | .orphan _ | .scan => store

/-- Where the task goes on after the announce flow. -/
def afterFlow : FlowEnd → CompletionTask
  | .scan => .finished
  | flow => .settling flow

/-- `run_subagent_announce_flow` up to the merge of the workspace. -/
def announce (copy : SubagentRunRecord) (flow : FlowEnd) : CompletionTask :=
  if copy.execution.status = .terminal ∧ copy.completion.required ∧
      copy.delivery.status ≠ .delivered ∧ truthy copy.suppressAnnounceReason = false then
    .merging copy flow
  else afterFlow flow

/-- `_start_announce_cleanup_flow` up to the announce flow. -/
def startAnnounce (store : RunStore) (run : SubagentRunRecord) (flow : FlowEnd) (now : Time) :
    RunStore × CompletionTask :=
  if truthy run.suppressAnnounceReason || run.suppressCompletionDelivery then (store, afterFlow flow)
  else if run.shouldSuspendPendingFinalDelivery then
    (endFlow (write store (run.markDeliverySuspended now)) flow, .finished)
  else if run.expectsCompletionMessage && run.completion.required then (store, announce run flow)
  else (store, afterFlow flow)

/-- `complete_subagent_run` up to the announce flow, by itself or in a kill. -/
def completeSubagentRun (store : RunStore) (kills : Bool) (outcome : RunOutcome)
    (resultText : Option String) (now : Time) (superseded : Bool) : RunStore × CompletionTask :=
  let run := store.record
  if store.locked || (superseded && run.execution.status != .terminal) then
    (if kills then killed store run else store, .finished)
  else
    let updated := run.completedBy outcome resultText now
    startAnnounce { record := updated, locked := true } updated
      (if kills then .kill updated else .complete updated) now

/-- `kill_subagent_run` from the snapshot on. -/
def killRun (store : RunStore) (reason : String) (now : Time) (superseded : Bool) :
    RunStore × CompletionTask :=
  completeSubagentRun (write store store.record.saveKillReconciliation) true
    { status := .killed, error := some reason } none now superseded

/-- `_is_silent_reply`; the sentinel holds the text that is searched for. -/
def isSilentReply (run : SubagentRunRecord) : Bool :=
  run.completion.resultText.any fun text => PyText.contains "ANNOUNCE_SKIP" text

/-- Whether the result text is missing or blank. -/
def isBlank (text : Option String) : Bool := text.all fun text => PyText.strip text == ""

/-- The fresh record with another result text. -/
def withResult (store : RunStore) (text : String) : RunStore :=
  write store { store.record with completion := { store.record.completion with
    resultText := some text } }

/-- The delivery from its checks to the first suspension. -/
def deliver (store : RunStore) (copy : SubagentRunRecord) (flow : FlowEnd) (now : Time)
    (deferred deduplicated : Bool) (pendingCount : Nat) : RunStore × CompletionTask :=
  if deferred && copy.wakeOnDescendantSettle || deduplicated then (store, .hooking flow)
  else if config.deliverySuspendHardCap ≤ pendingCount then
    (write store (copy.markDeliverySuspended now), .hooking flow)
  else
    let updated := copy.markDeliveryInProgress now
    (write store updated, .targeting updated pendingCount flow)

/-- The announce flow after the reply is known: the merge report is attached to the fresh
record, whose copy the flow goes on with. -/
def report (store : RunStore) (copy : SubagentRunRecord) (report : Option String) (flow : FlowEnd)
    (now : Time) (deferred deduplicated : Bool) (pendingCount : Nat) :
    RunStore × CompletionTask :=
  match report with
  | none => deliver config store copy flow now deferred deduplicated pendingCount
  | some block =>
    if isBlank copy.completion.resultText then
      deliver config store copy flow now deferred deduplicated pendingCount
    else
      let attached := withResult store (copy.completion.resultText.getD "" ++ "\n\n" ++ block)
      deliver config attached attached.record flow now deferred deduplicated pendingCount

/-- `run_subagent_announce_flow` once the workspace is merged. -/
def merged (store : RunStore) (copy : SubagentRunRecord) (block : Option String) (flow : FlowEnd)
    (now : Time) (deferred deduplicated : Bool) (pendingCount : Nat) :
    RunStore × CompletionTask :=
  if isSilentReply copy then (write store (copy.markDeliveryDelivered now), .hooking flow)
  else if isBlank copy.completion.resultText then (store, .capturing copy block flow)
  else report config store copy block flow now deferred deduplicated pendingCount

/-- `run_subagent_announce_flow` once the reply is captured, or is not. -/
def captured (store : RunStore) (copy : SubagentRunRecord) (block text : Option String)
    (flow : FlowEnd) (now : Time) (deferred deduplicated : Bool) (pendingCount : Nat) :
    RunStore × CompletionTask :=
  match text with
  | none => report config store copy block flow now deferred deduplicated pendingCount
  | some text =>
    if isBlank (some text) then
      report config store copy block flow now deferred deduplicated pendingCount
    else
      let updated := withResult store text
      report config updated updated.record block flow now deferred deduplicated pendingCount

/-- The end of a dispatch that has not published. -/
def giveUp (store : RunStore) (copy : SubagentRunRecord) (pendingCount : Nat) (now : Time) :
    RunStore :=
  if copy.shouldDiscardDelivery config.maxAnnounceRetryCount config.announceHardExpiryMs now then
    write store (copy.markDeliveryDiscarded "max_retries_or_expiry")
  else if config.deliverySuspendSoftCap ≤ pendingCount then
    write store (copy.markDeliverySuspended now)
  else store

/-- `complete_swarm_run` of the copy's outcome, up to its pump. -/
def completeSwarm (store : RunStore) (run : SubagentRunRecord) (now : Time) : RunStore :=
  if truthy run.swarmGroupId then
    let outcome := run.execution.outcome.getD { status := .ok }
    write store { store.record.complete outcome run.completion.resultText now with
      swarmRunState := some (if outcome.status = .ok then .completed else .failed) }
  else store

/-- The record a flow end holds. -/
def FlowEnd.run : FlowEnd → Option SubagentRunRecord
  | .complete run | .kill run | .orphan run => some run
  | .scan => none

/-- `resolve_deferred_cleanup_decision`: whether the cleanup goes on now; `descendants` says whether
the run has active ones. -/
def resolveDeferredCleanupDecision (run : SubagentRunRecord) (now : Time) (descendants : Bool) :
    Bool :=
  if run.cleanup == .keep then false
  else if run.delivery.status == .delivered || run.delivery.status == .discarded ||
      run.delivery.status == .notRequired then true
  else if descendants then false
  else
    (decide (config.maxAnnounceRetryCount ≤ run.delivery.attemptCount) &&
      (run.delivery.status == .failed || run.delivery.status == .suspended)) ||
    run.execution.endedAt.any fun ended => decide (config.announceHardExpiryMs < now - ended)

/-- `reconcile_orphaned_run` of a stale run, with its owner. -/
def reconciled (run : SubagentRunRecord) (now : Time) : SubagentRunRecord :=
  { run with
    execution := {
      status := .terminal
      startedAt := run.execution.startedAt
      endedAt := some now
      outcome := some { status := .timeout, error := some "orphaned" } }
    endedReason := some "orphaned" }.markTerminalOwner "orphan-recovery"

/-- A scan acts on the record of its snapshot. For the orphans `answer` says whether the
run is stale and not superseded, for the retries that the delivery has not expired. -/
def act (store : RunStore) (kind : Scan) (copy : SubagentRunRecord) (now : Time) (answer : Bool) :
    RunStore × CompletionTask :=
  match kind with
  | .orphans =>
    if copy.execution.status != .terminal && copy.execution.startedAt.isSome && answer then
      let updated := reconciled copy now
      startAnnounce (write store updated) updated (.orphan updated) now
    else (store, .finished)
  | .suspended =>
    if copy.execution.status != .terminal ||
        (copy.delivery.status != .suspended && copy.delivery.status != .failed) then
      (store, .finished)
    else if copy.shouldDiscardDelivery config.maxAnnounceRetryCount config.announceHardExpiryMs
        now then
      (write store (copy.markDeliveryDiscarded "expiry_or_max_retries"), .finished)
    else if copy.isDeliveryExpired config.announceExpiryMs now then (store, .finished)
    else if copy.shouldRetryDelivery config.maxAnnounceRetryCount then
      (write store copy.markDeliveryPending, announce copy.markDeliveryPending .scan)
    else (store, .finished)
  | .failed =>
    if copy.execution.status == .terminal && copy.delivery.status == .failed &&
        copy.shouldRetryDelivery config.maxAnnounceRetryCount then
      (write store copy.markDeliveryPending, announce copy.markDeliveryPending .scan)
    else (store, .finished)
  | .undelivered =>
    if copy.execution.status == .terminal && copy.completion.required &&
        !(truthy copy.suppressAnnounceReason || copy.suppressCompletionDelivery) &&
        copy.endedReason != some "pending_orphaned" && copy.delivery.status == .pending &&
        answer then
      (store, announce copy .scan)
    else (store, .finished)

/-- The record `activate_swarm_run` writes. -/
def activated (run : SubagentRunRecord) (now : Time) : SubagentRunRecord :=
  { run with
    swarmRunState := some .active
    execution := { run.execution with status := .running, startedAt := some now } }

/-- What a task does from where it waits to where it waits next. -/
def resume (store : RunStore) (task : CompletionTask) (input : CompletionInput) :
    Option (RunStore × CompletionTask) :=
  match task, input with
  | .complete outcome resultText, .next now superseded =>
    some (completeSubagentRun store false outcome resultText now superseded)
  | .kill reason, .next now superseded =>
    if store.record.execution.status = .terminal then some (store, .finished)
    else if store.record.killReconciliation.any (!·.reconciled) then some (store, .killing reason)
    else some (killRun store reason now superseded)
  | .killing reason, .next now superseded =>
    if store.record.execution.status = .terminal then some (store, .finished)
    else some (killRun store reason now superseded)
  | .merging copy flow, .merged block now deferred deduplicated pendingCount =>
    some (merged config store copy block flow now deferred deduplicated pendingCount)
  | .capturing copy block flow, .captured text now deferred deduplicated pendingCount =>
    some (captured config store copy block text flow now deferred deduplicated pendingCount)
  | .targeting copy pendingCount flow, .redirect requesterSessionKey =>
    some (write store { copy with requesterSessionKey },
      .targeting { copy with requesterSessionKey } pendingCount flow)
  | .targeting copy pendingCount flow, .next _ _ =>
    some (store, .dispatching copy copy pendingCount flow)
  | .dispatching copy attempted pendingCount flow, .attemptFailed error now =>
    some (write store (attempted.markDeliveryFailed error now),
      .dispatching copy (attempted.markDeliveryFailed error now) pendingCount flow)
  | .dispatching copy _ _ flow, .published => some (store, .routing copy flow)
  | .dispatching copy _ pendingCount flow, .gaveUp now =>
    some (giveUp config store copy pendingCount now, .hooking flow)
  | .routing copy flow, .next now _ =>
    some (write store (copy.markDeliveryDelivered now), .hooking flow)
  | .hooking flow, .next _ _ => some (store, afterFlow flow)
  | .settling flow, .next now _ =>
    some ((FlowEnd.run flow).elim store fun run => completeSwarm store run now, .settled flow)
  -- the decision is made on the record from before the announce flow, as it was then
  | .settled flow, .next now descendants =>
    if (FlowEnd.run flow).any fun run => resolveDeferredCleanupDecision config run now descendants
    then some (store, .cleaning flow)
    else some (endFlow store flow, .finished)
  | .cleaning flow, .next now _ =>
    some (endFlow (write store { store.record with cleanupCompletedAt := some now }) flow,
      .finished)
  | .timer, .next now descendants =>
    if store.record.cleanupCompletedAt.isSome ||
        !resolveDeferredCleanupDecision config store.record now descendants then
      some (store, .finished)
    else some (store, .cleaning .scan)
  | .scan kind, .next _ _ => some (store, .scanned kind store.record)
  | .scanned kind copy, .next now answer => some (act config store kind copy now answer)
  | .expire reason, .next _ expired =>
    if store.record.delivery.status == .suspended && expired then
      some (write store (store.record.markDeliveryDiscarded reason), .finished)
    else some (store, .finished)
  | .finalizeKilled, .next _ _ =>
    if store.record.execution.status == .terminal && store.record.endedReason == some "killed" &&
        store.record.cleanupCompletedAt.isNone then
      some (store, .cleaning .scan)
    else some (store, .finished)
  | .activate, .next now admitted =>
    if store.record.swarmRunState == some .reserved && store.record.swarmGroupId.isSome &&
        admitted then
      some (write store (activated store.record now), .finished)
    else some (store, .finished)
  | _, _ => none

def starts : CompletionTask → Bool
  | .complete _ _ | .kill _ | .timer | .scan _ | .expire _ | .finalizeKilled | .activate => true
  | _ => false

/-- The operations on a run, in one process. -/
def program : Tasks.Program RunStore CompletionTask CompletionInput where
  starts := starts
  resume := resume config
  restart _ := none

end Completion

end SherryAgent.Source.Subagent
