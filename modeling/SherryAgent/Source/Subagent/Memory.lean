import Mathlib.Data.List.Sort
import SherryAgent.Library.Descent
import SherryAgent.Source.Subagent.Record
import SherryAgent.Source.Subagent.Transitions

/-!
# The in-memory registry and its queries

`agent/tools/subagent/registry/memory.py` and `registry/queries.py`. The ordered dict
is the list of its items; the cap on retained runs is a parameter.
`pressure_prune_suspended_deliveries` of `registry/lifecycle.py`, with the two settings it reads.
-/

namespace SherryAgent.Source.Subagent

open SherryAgent.Library

abbrev Registry := List (String × SubagentRunRecord)

namespace Registry

/-- `_is_terminal`. -/
def isTerminal (run : SubagentRunRecord) : Bool := run.execution.status == .terminal

/-- The loop of `_evict_overflow` over the items, `size` records being retained. -/
def evictFrom (maxRetained : Nat) : (size : Nat) → Registry → Registry
  | _, [] => []
  | size, item :: rest =>
    if size ≤ maxRetained then item :: rest
    else if isTerminal item.2 then evictFrom maxRetained (size - 1) rest
    else item :: evictFrom maxRetained size rest

/-- `_evict_overflow`. -/
def evictOverflow (maxRetained : Nat) (runs : Registry) : Registry :=
  evictFrom maxRetained runs.length runs

/-- `get`. -/
def get (runs : Registry) (runId : String) : Option SubagentRunRecord :=
  (runs.find? fun item => item.1 == runId).map (·.2)

/-- `pop(run_id, None)`. -/
def pop (runs : Registry) (runId : String) : Registry :=
  runs.filter fun item => item.1 != runId

/-- `set_run`, before the eviction: the item is written and moved to the end. -/
def put (runs : Registry) (run : SubagentRunRecord) : Registry :=
  runs.pop run.runId ++ [(run.runId, run)]

/-- `set_run`. -/
def setRun (maxRetained : Nat) (runs : Registry) (run : SubagentRunRecord) : Registry :=
  evictOverflow maxRetained (runs.put run)

/-- `update`; the item keeps its place. -/
def update (runs : Registry) (runId : String) (change : SubagentRunRecord → SubagentRunRecord) :
    Registry :=
  runs.map fun item => if item.1 == runId then (item.1, change item.2) else item

/-- `list_descendant_runs`. -/
def listDescendantRuns (runs : Registry) (requesterSessionKey : String) :
    List SubagentRunRecord :=
  (Descent.collect (fun item => item.2.requesterSessionKey) (fun item => item.2.childSessionKey)
    runs [] [requesterSessionKey]).map (·.2)

/-- `count_active_descendant_runs`. -/
def countActiveDescendantRuns (runs : Registry) (sessionKey : String) : Nat :=
  (runs.listDescendantRuns sessionKey).countP (·.isActive)

end Registry

/-! ## Pressure pruning -/

structure PressureConfig where
  deliverySuspendSoftCap : Int := 25
  deliverySuspendTarget : Int := 10

namespace SubagentRunRecord

variable (run : SubagentRunRecord)

/-- `is_delivery_suspended`. -/
def isDeliverySuspended : Bool := run.delivery.status == .suspended

/-- `has_run_ended`. -/
def hasRunEnded : Bool := run.execution.status == .terminal

/-- `run.delivery.suspended_at or 0`. -/
def suspendedSince : Time := run.delivery.suspendedAt.getD 0

end SubagentRunRecord

namespace Registry

/-- `all_runs`. -/
def allRuns (runs : Registry) : List SubagentRunRecord := runs.map (·.2)

/-- `suspended`. -/
def suspendedRuns (runs : Registry) : List SubagentRunRecord :=
  runs.allRuns.filter fun run => run.hasRunEnded && run.isDeliverySuspended

/-- `suspended.sort(key=lambda r: r.delivery.suspended_at or 0)`; the sort is stable. -/
def oldestFirst (suspended : List SubagentRunRecord) : List SubagentRunRecord :=
  suspended.insertionSort fun a b => a.suspendedSince ≤ b.suspendedSince

/-- `target_count`, for a backlog of `count`. -/
def targetCount (config : PressureConfig) (count : Nat) : Int :=
  max config.deliverySuspendTarget (count - config.deliverySuspendSoftCap)

/-- `to_prune`. -/
def toPruneCount (config : PressureConfig) (count : Nat) : Int :=
  max 0 (count - targetCount config count)

/-- The loop over the pruned runs. -/
def discardAll (maxRetained : Nat) (pruned : List SubagentRunRecord) (runs : Registry) : Registry :=
  pruned.foldl
    (fun runs run => runs.setRun maxRetained (run.markDeliveryDiscarded "pressure_prune")) runs

/-- `pressure_prune_suspended_deliveries`: the registry afterwards and the number pruned. -/
def pressurePruneSuspendedDeliveries (config : PressureConfig) (maxRetained : Nat)
    (runs : Registry) : Registry × Nat :=
  let suspended := runs.suspendedRuns
  if suspended.length ≤ config.deliverySuspendSoftCap then (runs, 0)
  else
    let pruned := (oldestFirst suspended).take (toPruneCount config suspended.length).toNat
    (discardAll maxRetained pruned runs, pruned.length)

end Registry

end SherryAgent.Source.Subagent
