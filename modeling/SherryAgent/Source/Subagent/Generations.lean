import SherryAgent.Library.Machine
import SherryAgent.Source.Subagent.Transitions

/-!
# Generations of one run

The operations on one run that bump its generation or complete it: `control/steer.py`,
the resume of `orphan/recovery.py`, `resume_subagent_run` and `complete_subagent_run` of
`registry/lifecycle.py`, `control/kill.py`, and the child's execution up to its completion
callback. None of them removes the record; the swarm state and the cleanup are left out. A
task is where it waits. An announce flow may take a newer copy of the record, and writes
its copy back with another delivery state, as often as it likes.
-/

namespace SherryAgent.Source.Subagent

open SherryAgent.Library

/-! ## `registry/terminal_gen.py` -/

namespace TerminalGenerationTracker

/-- `is_callback_current`, on the run's entry. -/
def isCallbackCurrent (expected : Option Nat) (generation : Nat) : Bool :=
  match expected with
  | none => true
  | some expected => expected ≤ generation

end TerminalGenerationTracker

/-- The run's record, its entry in the terminal generation tracker, and whether its
terminal lock is held. -/
structure GenerationStore where
  record : SubagentRunRecord
  expected : Option Nat := none
  locked : Bool := false

/-- Who waits for the end of `complete_subagent_run` or of an announce flow. -/
inductive Caller where
  | callback (generation : Nat)
  | kill
  | orphan

/-- Where a task waits. `executing` is the child's agent, `grace` the grace period after
its failure, `settling` the wait for a cancelled child, `rebuilding` that for the new one. -/
inductive GenerationTask where
  | launched (steered : Bool)
  | executing (generation : Nat) (steered : Bool)
  | grace (generation : Nat) (outcome : RunOutcome) (resultText : Option String)
  | announcing (caller : Caller) (copy announced : SubagentRunRecord)
  | closing (caller : Caller) (copy : SubagentRunRecord)
  | kill (reason : String)
  | killing (reason : String)
  | steer
  | settling (frozen : Option String) (recovering : Bool)
  | rebuilding (updated : SubagentRunRecord) (recovering : Bool)
  | recover
  | reading
  | resume
  | pause
  | finished

/-- The environment: the child's answer, whether a steer is admitted, and what the announce
flow does; `superseded` says whether a newer run of the child's session is live. -/
inductive GenerationInput where
  | next (now : Time) (superseded : Bool := false)
  | ended (outcome : RunOutcome) (resultText : Option String) (now : Time)
      (superseded : Bool := false)
  | admitted
  | refused (now : Time)
  | refresh
  | rewrite (delivery : CompletionDeliveryState)

namespace Generations

open TerminalGenerationTracker

/-- The caller goes on when `complete_subagent_run` has returned its copy. -/
def returned (store : GenerationStore) (copy : SubagentRunRecord) : Caller → GenerationStore
  | .kill => { store with record := { copy with abortedLastRun := true } }
  | _ => store

/-- The generation that `complete_subagent_run` asks the tracker for: the expected one, or
the record's own. -/
def asked (store : GenerationStore) : Caller → Nat
  | .callback generation => generation
  | .kill | .orphan => store.record.generation

/-- `complete_subagent_run` up to the announce flow. -/
def completeSubagentRun (store : GenerationStore) (caller : Caller) (outcome : RunOutcome)
    (resultText : Option String) (now : Time) (superseded : Bool) :
    GenerationStore × GenerationTask :=
  let run := store.record
  if store.locked then (returned store run caller, .finished)
  else if isCallbackCurrent store.expected (asked store caller) then
    let retired := { store with expected := none }
    if superseded && run.execution.status != .terminal then (returned retired run caller, .finished)
    else
      let updated := run.completedBy outcome resultText now
      let written := { retired with record := updated }
      if truthy updated.suppressAnnounceReason || updated.suppressCompletionDelivery then
        ({ written with locked := true }, .closing caller updated)
      else if updated.shouldSuspendPendingFinalDelivery then
        (returned { written with record := updated.markDeliverySuspended now } updated caller,
          .finished)
      else ({ written with locked := true }, .announcing caller updated updated)
  else (returned store run caller, .finished)

/-- `kill_subagent_run` from the snapshot on. -/
def killRun (store : GenerationStore) (reason : String) (now : Time) (superseded : Bool) :
    GenerationStore × GenerationTask :=
  completeSubagentRun { store with record := store.record.saveKillReconciliation } .kill
    { status := .killed, error := some reason } none now superseded

/-- Whether `steer_subagent_run` goes on from its first checks. -/
def steerable (run : SubagentRunRecord) : Bool :=
  (run.execution.status == .running || run.execution.status == .interrupted) &&
    !truthy run.swarmGroupId

/-- `steer_subagent_run` up to the wait for the cancelled child. -/
def steerRun (store : GenerationStore) (recovering : Bool) : GenerationStore × GenerationTask :=
  let text := store.record.completion.resultText
  ({ store with record := { store.record.saveKillReconciliation with
      suppressAnnounceReason := some "steer-restart" } },
    .settling (if truthy text then text.map fun text => .ofList (text.toList.take 500) else none)
      recovering)

/-- The record `steer_subagent_run` writes before it rebuilds the child. -/
def steered (run : SubagentRunRecord) (frozen : Option String) : SubagentRunRecord :=
  let replaced := run.replaceAfterSteer
  match frozen with
  | none => { replaced with suppressAnnounceReason := some "steer-restart" }
  | some text => { replaced with completion := { replaced.completion with
      resultText := some ("[FROZEN FALLBACK from previous generation]\n" ++ text) } }

/-- `_clear_aborted_last_run`, after a resume of the recovery. -/
def resumedBy (recovering : Bool) (run : SubagentRunRecord) : SubagentRunRecord :=
  if recovering then { run with abortedLastRun := false } else run

/-- `finalize_interrupted_run_with_retry`. -/
def finalizeRun (store : GenerationStore) (now : Time) : GenerationStore × GenerationTask :=
  if store.record.execution.status = .terminal then (store, .finished)
  else
    let updated := store.record.finalizeInterrupted now
    ({ store with record := updated }, .announcing .orphan updated updated)

/-- What a task does from where it waits to where it waits next. -/
def resume (store : GenerationStore) (task : GenerationTask) (input : GenerationInput) :
    Option (GenerationStore × GenerationTask) :=
  match task, input with
  | .launched steered, .next now _ =>
    if store.record.execution.status = .terminal then some (store, .finished)
    else
      let current := if store.record.execution.status = .pending then store.record.markRunning now
        else store.record
      some ({ store with record := current }, .executing current.generation steered)
  | .executing generation steered, .ended outcome resultText now superseded =>
    if !steered && (outcome.status == .error || outcome.status == .timeout) then
      some (store, .grace generation outcome resultText)
    else some (completeSubagentRun store (.callback generation) outcome resultText now superseded)
  | .grace generation outcome resultText, .next now superseded =>
    if store.record.execution.status = .terminal then some (store, .finished)
    else some (completeSubagentRun store (.callback generation) outcome resultText now superseded)
  | .announcing caller copy _, .refresh => some (store, .announcing caller copy store.record)
  | .announcing caller copy announced, .rewrite delivery =>
    some ({ store with record := { announced with delivery } },
      .announcing caller copy { announced with delivery })
  | .announcing .orphan _ _, .next _ _ => some (store, .finished)
  | .announcing caller copy _, .next _ _ => some (store, .closing caller copy)
  | .closing caller copy, .next _ _ =>
    some (returned { store with locked := false } copy caller, .finished)
  | .kill reason, .next now superseded =>
    if store.record.execution.status = .terminal then some (store, .finished)
    else if store.record.killReconciliation.any (!·.reconciled) then
      some (store, .killing reason)
    else some (killRun store reason now superseded)
  | .killing reason, .next now superseded =>
    if store.record.execution.status = .terminal then some (store, .finished)
    else some (killRun store reason now superseded)
  | .steer, .admitted =>
    if steerable store.record then some (steerRun store false) else some (store, .finished)
  | .steer, .refused _ => some (store, .finished)
  | .settling frozen recovering, .next _ _ =>
    let updated := steered store.record frozen
    some ({ store with record := updated, expected := some updated.generation },
      .rebuilding updated recovering)
  | .rebuilding updated recovering, .admitted =>
    some ({ store with record := resumedBy recovering updated.restarted }, .launched true)
  | .rebuilding _ recovering, .refused _ =>
    some ({ store with record := resumedBy recovering store.record }, .finished)
  | .recover, .next _ _ =>
    if store.record.execution.status = .terminal ∨ store.record.execution.status = .pending then
      some (store, .finished)
    else some (store, .reading)
  | .reading, .admitted =>
    let bumped := { store with record := store.record.replaceAfterSteer }
    if steerable bumped.record then some (steerRun bumped true) else none
  | .reading, .refused now =>
    some (finalizeRun { store with record := store.record.replaceAfterSteer } now)
  | .resume, .next now _ =>
    if store.record.execution.status = .interrupted then
      some ({ store with record := store.record.resumed now }, .finished)
    else some (store, .finished)
  | .pause, .next _ _ =>
    some ({ store with record := store.record.markPausedAfterYield }, .finished)
  | _, _ => none

def starts : GenerationTask → Bool
  | .kill _ | .steer | .recover | .resume | .pause => true
  | _ => false

/-- The operations on a run, in one process. -/
def program : Tasks.Program GenerationStore GenerationTask GenerationInput where
  starts := starts
  resume := resume
  restart _ := none

end Generations

end SherryAgent.Source.Subagent
