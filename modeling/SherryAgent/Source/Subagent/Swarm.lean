import Mathlib.Algebra.Ring.Int.Defs
import Mathlib.Order.Lattice
import SherryAgent.Library.Machine
import SherryAgent.Source.Subagent.Memory
import SherryAgent.Source.Subagent.Transitions

/-!
# The swarm scheduler

`swarm/collector.py` and `swarm/fifo.py` for one group, with the two other ways its runs
end: `control/kill.py` through `registry/lifecycle.py`, and
`finalize_interrupted_run_with_retry` of `orphan/recovery.py`. A task is where it waits:
for the group's pump lock, in the spawned hooks, in the announce flow, or for the cleanup
of a killed run. The queue's own lock is never contended and does not suspend. The announce
flow may take a newer copy of the record, and writes its copy back with another delivery
state, as often as it likes.
-/

namespace SherryAgent.Source.Subagent

open SherryAgent.Library

structure SwarmGroupConfig where
  groupId : String
  maxChildrenPerGroup : Nat := 5
  maxTotalPerGroup : Nat := 0
  maxConcurrent : Nat := 3

/-- The registry, the group's queue and whether its pump lock is held; then the group's
runs in the order of their reservation, of their activation, and those that were terminal
when they were activated. -/
structure SwarmStore where
  runs : Registry := []
  queue : List String := []
  locked : Bool := false
  reserved : List String := []
  activated : List String := []
  revived : List String := []

/-- What the caller of a pump does after it. -/
inductive AfterPump where
  | return
  | markAborted (copy : SubagentRunRecord)

/-- Where a task waits. -/
inductive SwarmTask where
  | reserve (agentId requesterSessionKey : String) (launchFingerprint : Option String)
  | complete (runId : String) (outcome : RunOutcome) (resultText : Option String)
  | kill (runId reason : String)
  | finalize (runId : String)
  | pump (after : AfterPump)
  | starting (runId : String) (budget : Int) (after : AfterPump)
  | killAnnouncing (copy announced : SubagentRunRecord)
  | settling (copy : SubagentRunRecord)
  | orphanAnnouncing (announced : SubagentRunRecord)
  | finished

/-- The environment: the ids `uuid4` makes, the clock, and what the announce flow does. -/
inductive SwarmInput where
  | next (now : Time)
  | fresh (runId uuid : String)
  | refresh
  | rewrite (delivery : CompletionDeliveryState)

namespace Swarm

variable (maxRetained : Nat) (config : SwarmGroupConfig)

/-- `_count_swarm_runs_by_group`. -/
def countRunsByGroup (runs : Registry) : Nat :=
  runs.countP fun item => item.2.swarmGroupId == some config.groupId

/-- What `_count_active_swarm_runs` counts. -/
def isActive (run : SubagentRunRecord) : Bool :=
  run.swarmGroupId == some config.groupId && run.swarmRunState == some .active &&
    (run.execution.status == .running || run.execution.status == .interrupted)

/-- `_count_active_swarm_runs`. -/
def countActive (runs : Registry) : Nat := runs.countP fun item => isActive config item.2

/-- The budget of a pump pass. -/
def budgetOf (store : SwarmStore) : Int := config.maxConcurrent - countActive config store.runs

def write (store : SwarmStore) (run : SubagentRunRecord) : SwarmStore :=
  { store with runs := store.runs.setRun maxRetained run }

/-- The record `activate_swarm_run` writes. -/
def activated (run : SubagentRunRecord) (now : Time) : SubagentRunRecord :=
  { run with
    swarmRunState := some .active
    execution := { run.execution with status := .running, startedAt := some now } }

/-- `activate_swarm_run` of a reserved run, up to the spawned hooks. -/
def activate (store : SwarmStore) (run : SubagentRunRecord) (now : Time) : SwarmStore :=
  { write maxRetained store (activated run now) with
    queue := store.queue.erase run.runId
    activated := store.activated ++ [run.runId]
    revived := if run.execution.status = .terminal then store.revived ++ [run.runId]
      else store.revived }

/-- The loop of `_pump_lane` over the queue, up to its end or to the spawned hooks of a
run it activates. -/
def pumpLoop (now : Time) : (queue : List String) → SwarmStore → (budget : Int) →
    SwarmStore × Option (String × Int)
  | [], store, _ => ({ store with queue := [] }, none)
  | runId :: rest, store, budget =>
    if budget ≤ 0 then ({ store with queue := runId :: rest }, none)
    else
      match store.runs.get runId with
      | none => pumpLoop now rest store (budgetOf config store)
      | some run =>
        if run.swarmRunState ≠ some .reserved then
          if run.swarmRunState = some .failed then
            pumpLoop now rest store (budgetOf config store)
          else pumpLoop now rest store (budget - 1)
        else if run.swarmGroupId.isNone then pumpLoop now rest store (budgetOf config store)
        else (activate maxRetained { store with queue := rest } run now, some (runId, budget))

/-- The caller of a pump goes on. -/
def afterPump : AfterPump → SwarmTask
  | .return => .finished
  | .markAborted copy => .settling copy

/-- A pump that holds the lock goes on, and releases it at the end. -/
def pumpOn (now : Time) (store : SwarmStore) (budget : Int) (after : AfterPump) :
    SwarmStore × SwarmTask :=
  let pumped := pumpLoop maxRetained config now store.queue store budget
  match pumped.2 with
  | some (runId, left) => (pumped.1, .starting runId left after)
  | none => ({ pumped.1 with locked := false }, afterPump after)

/-- The record `reserve_swarm_run` registers. -/
def reservation (runId uuid agentId requesterSessionKey : String)
    (launchFingerprint : Option String) : SubagentRunRecord where
  runId
  childSessionKey := "agent:" ++ agentId ++ ":swarm:" ++ config.groupId ++ ":" ++ uuid
  requesterSessionKey
  generation := 1
  execution := { status := .pending }
  delivery := { status := .pending }
  swarmGroupId := some config.groupId
  swarmRunState := some .reserved
  launchFingerprint

/-- `reserve_swarm_run` up to its pump. -/
def reserve (store : SwarmStore) (agentId requesterSessionKey : String)
    (launchFingerprint : Option String) (runId uuid : String) : SwarmStore × SwarmTask :=
  let total := countRunsByGroup config store.runs
  if (launchFingerprint.getD "") ≠ "" ∧ store.runs.any fun item =>
      item.2.swarmGroupId == some config.groupId &&
        item.2.launchFingerprint == launchFingerprint then
    (store, .finished)
  else if config.maxChildrenPerGroup ≤ total ∨
      0 < config.maxTotalPerGroup ∧ config.maxTotalPerGroup ≤ total then
    (store, .finished)
  else
    let run := reservation config runId uuid agentId requesterSessionKey launchFingerprint
    let registered := write maxRetained store { run with
      swarmGroupId := none, swarmRunState := none, launchFingerprint := none }
    ({ write maxRetained registered run with
        queue := store.queue ++ [runId], reserved := store.reserved ++ [runId] },
      .pump .return)

/-- The record `complete_swarm_run` writes. -/
def completed (run : SubagentRunRecord) (outcome : RunOutcome) (resultText : Option String)
    (now : Time) : SubagentRunRecord :=
  { run.complete outcome resultText now with
    swarmRunState := some (if outcome.status = .ok then .completed else .failed) }

/-- `complete_swarm_run` up to its pump. -/
def complete (store : SwarmStore) (runId : String) (outcome : RunOutcome)
    (resultText : Option String) (now : Time) (after : AfterPump) : SwarmStore × SwarmTask :=
  match store.runs.get runId with
  | none => (store, afterPump after)
  | some run => (write maxRetained store (completed run outcome resultText now), .pump after)

/-- The record `kill_subagent_run` and `complete_subagent_run` leave before the announce
flow. -/
def killed (run : SubagentRunRecord) (outcome : RunOutcome) (now : Time) : SubagentRunRecord :=
  ((run.saveKillReconciliation.arbitrateKillVsCompletion outcome).complete outcome none
    now).markTerminalOwner "outcome:killed"

/-- Whether a run is of the group. -/
def ofGroup (run : SubagentRunRecord) : Bool := run.swarmGroupId == some config.groupId

/-- What a task does from where it waits to where it waits next. Runs of other groups are
left to them. -/
def resume (store : SwarmStore) (task : SwarmTask) (input : SwarmInput) :
    Option (SwarmStore × SwarmTask) :=
  match task, input with
  | .reserve agentId requesterSessionKey launchFingerprint, .fresh runId uuid =>
    if (store.runs.get runId).isSome ∨ runId ∈ store.reserved then none
    else some (reserve maxRetained config store agentId requesterSessionKey launchFingerprint
      runId uuid)
  | .complete runId outcome resultText, .next now =>
    match store.runs.get runId with
    | none => some (store, .finished)
    | some run =>
      if ofGroup config run then
        some (complete maxRetained store runId outcome resultText now .return)
      else none
  | .kill runId reason, .next now =>
    match store.runs.get runId with
    | none => some (store, .finished)
    | some run =>
      if ofGroup config run then
        if run.execution.status = .terminal then some (store, .finished)
        else
          let copy := killed run { status := .killed, error := some reason } now
          some (write maxRetained store copy, .killAnnouncing copy copy)
      else none
  | .finalize runId, .next now =>
    match store.runs.get runId with
    | none => some (store, .finished)
    | some run =>
      if ofGroup config run then
        if run.execution.status = .terminal then some (store, .finished)
        else some (write maxRetained store (run.finalizeInterrupted now),
          .orphanAnnouncing (run.finalizeInterrupted now))
      else none
  | .pump after, .next now =>
    if store.locked then none
    else some (pumpOn maxRetained config now { store with locked := true }
      (budgetOf config store) after)
  | .starting _ budget after, .next now =>
    some (pumpOn maxRetained config now store (budget - 1) after)
  | .killAnnouncing copy announced, .refresh =>
    some (store, .killAnnouncing copy ((store.runs.get announced.runId).getD announced))
  | .killAnnouncing copy announced, .rewrite delivery =>
    some (write maxRetained store { announced with delivery },
      .killAnnouncing copy { announced with delivery })
  | .killAnnouncing copy _, .next now =>
    some (complete maxRetained store copy.runId (copy.execution.outcome.getD { status := .ok })
      copy.completion.resultText now (.markAborted copy))
  | .settling copy, .next _ =>
    some (write maxRetained store { copy with abortedLastRun := true }, .finished)
  | .orphanAnnouncing announced, .refresh =>
    some (store, .orphanAnnouncing ((store.runs.get announced.runId).getD announced))
  | .orphanAnnouncing announced, .rewrite delivery =>
    some (write maxRetained store { announced with delivery },
      .orphanAnnouncing { announced with delivery })
  | .orphanAnnouncing _, .next _ => some (store, .finished)
  | _, _ => none

def starts : SwarmTask → Bool
  | .reserve _ _ _ | .complete _ _ _ | .kill _ _ | .finalize _ => true
  | _ => false

/-- The scheduler of a group, in one process. -/
def program : Tasks.Program SwarmStore SwarmTask SwarmInput where
  starts := starts
  resume := resume maxRetained config
  restart _ := none

end Swarm

end SherryAgent.Source.Subagent
