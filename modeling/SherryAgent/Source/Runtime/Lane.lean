import SherryAgent.Library.Resumption

/-!
# Lanes

`runtime/lane/core.py`: a lane is an `asyncio.Semaphore` with counters of the
active and the queued callers, on one event loop. A change of the limit replaces
the semaphore, at once or when the last queued caller has gone. Between two
suspension points a caller runs alone, so the operations below are what happens
between two of them. The log lines and the timings are left out.
-/

namespace SherryAgent.Source.Runtime

open SherryAgent.Library.Resumption

/-- A future in a semaphore's queue. `woken` has a permit and has not run yet; `revoked` was
woken and then its task was cancelled. -/
inductive WaiterState where
  | waiting
  | woken
  | cancelled
  | revoked
  deriving DecidableEq

structure Waiter where
  ticket : Nat
  state : WaiterState
  deriving DecidableEq

/-- `asyncio.Semaphore` of Python 3.13: free permits and the queue. -/
structure Semaphore where
  value : Nat
  waiters : List Waiter := []
  deriving DecidableEq

namespace Semaphore

/-- `locked`. -/
def locked (sem : Semaphore) : Bool :=
  sem.value == 0 || sem.waiters.any fun waiter => waiter.state != .cancelled

/-- Wake the first caller in the queue that still waits. -/
def wakeFirst : List Waiter → Option (List Waiter)
  | [] => none
  | waiter :: rest =>
    if waiter.state = .waiting then some ({ waiter with state := .woken } :: rest)
    else (wakeFirst rest).map (waiter :: ·)

/-- `_wake_up_next`: the permit goes to the caller it wakes. -/
def wakeUpNext (sem : Semaphore) : Semaphore :=
  match wakeFirst sem.waiters with
  | some waiters => { value := sem.value - 1, waiters }
  | none => sem

/-- The loop at the end of `acquire`: wake as many as there are permits. -/
def wakeAll : (value : Nat) → List Waiter → Semaphore
  | 0, waiters => { value := 0, waiters }
  | value + 1, waiters =>
    match wakeFirst waiters with
    | some woken => wakeAll value woken
    | none => { value := value + 1, waiters }

/-- `release`. -/
def release (sem : Semaphore) : Semaphore :=
  wakeUpNext { sem with value := sem.value + 1 }

/-- `acquire` up to its first suspension: whether it took a permit at once. -/
def acquire (sem : Semaphore) (ticket : Nat) : Bool × Semaphore :=
  if sem.locked then (false, { sem with waiters := sem.waiters ++ [⟨ticket, .waiting⟩] })
  else (true, { sem with value := sem.value - 1 })

/-- `future.cancel()`, or the cancellation of a task that has been woken already. -/
def cancel (sem : Semaphore) (ticket : Nat) : Semaphore :=
  { sem with waiters := sem.waiters.map fun waiter =>
      if waiter.ticket = ticket then
        match waiter.state with
        | .waiting => { waiter with state := .cancelled }
        | .woken => { waiter with state := .revoked }
        | _ => waiter
      else waiter }

/-- `acquire` from the suspension on: whether it ends with a permit. A caller that still
waits does not run. -/
def resume (sem : Semaphore) (ticket : Nat) : Option (Bool × Semaphore) := do
  let waiter ← sem.waiters.find? (·.ticket = ticket)
  let others := sem.waiters.erase waiter
  match waiter.state with
  | .waiting => none
  | .woken => some (true, wakeAll sem.value others)
  | .cancelled => some (false, wakeAll sem.value others)
  | .revoked => some (false, wakeAll (sem.value + 1) others)

end Semaphore

/-- A `Lane`. -/
structure Lane where
  name : String
  max : Nat
  active : Nat := 0
  queued : Nat := 0
  rebindPending : Bool := false
  sem : Option Semaphore := none

namespace Lane

/-- `_ensure_sem`. -/
def ensureSem (lane : Lane) : Semaphore := lane.sem.getD { value := lane.max }

/-- `_rebind`. -/
def rebind (lane : Lane) : Lane :=
  { lane with sem := some { value := Nat.max 1 (lane.max - lane.active) } }

/-- `_apply_pending_rebind`. -/
def applyPendingRebind (lane : Lane) : Lane :=
  if lane.rebindPending = false ∨ 0 < lane.queued ∨ lane.sem = none then lane
  else rebind { lane with rebindPending := false }

/-- How `acquire` continues after its part up to the suspension. -/
inductive Admission where
  | refused (message : String)
  | entered
  | parked (ticket : Nat)

/-- `acquire` up to its first suspension, once the drain check has passed. -/
def acquire (lane : Lane) (ticket : Nat) : Admission × Lane :=
  let lane := lane.applyPendingRebind
  let (entered, sem) := lane.ensureSem.acquire ticket
  if entered then (.entered, { lane with active := lane.active + 1, sem := some sem })
  else (.parked ticket, { lane with queued := lane.queued + 1, sem := some sem })

/-- `acquire` from the suspension on: whether the caller holds a slot. -/
def resume (lane : Lane) (ticket : Nat) : Option (Bool × Lane) := do
  let (acquired, sem) ← (← lane.sem).resume ticket
  let lane := { lane with queued := lane.queued - 1, sem := some sem }
  some (acquired, if acquired then { lane with active := lane.active + 1 } else lane)

/-- `release`. -/
def release (lane : Lane) : Lane :=
  if lane.active = 0 then lane
  else applyPendingRebind
    { lane with active := lane.active - 1, sem := lane.sem.map Semaphore.release }

/-- `set_max`; `none` is its `ValueError`. -/
def setMax (lane : Lane) (maxConcurrent : Nat) : Option Lane :=
  if maxConcurrent < 1 then none
  else
    let lane := { lane with max := maxConcurrent }
    if lane.sem = none then some lane
    else if 0 < lane.queued then some { lane with rebindPending := true }
    else some lane.rebind

/-- The cancellation of a task that waits in `acquire`. -/
def cancel (lane : Lane) (ticket : Nat) : Lane :=
  { lane with sem := lane.sem.map (·.cancel ticket) }

def refusal (lane : Lane) : String := s!"Lane {lane.name} acquire refused: gateway is draining"

end Lane

/-! ## Callers -/

inductive LaneOp where
  /-- `acquire` up to its first suspension. -/
  | acquire
  /-- `acquire` from its suspension on. -/
  | resume (ticket : Nat)
  | release
  | setMax (maxConcurrent : Nat)
  /-- Cancel the task that waits under the ticket. -/
  | cancel (ticket : Nat)
  /-- The drain check begins or ceases to report draining. -/
  | drain (draining : Bool)
  deriving DecidableEq

abbrev LaneOp.Ans : LaneOp → Type
  | .acquire => Lane.Admission
  | .resume _ => Bool
  | .release => Unit
  | .setMax _ => Bool
  | .cancel _ => Unit
  | .drain _ => Unit

abbrev laneEffects : Effects := ⟨LaneOp, LaneOp.Ans⟩

/-- The lane, the number of the next future and what the drain check answers. -/
structure LaneStore where
  lane : Lane
  nextTicket : Nat := 0
  draining : Bool := false

/-- One operation; `none` while the caller waits. -/
def execLane : (op : LaneOp) → LaneStore → Unit → Option (op.Ans × LaneStore)
  | .acquire, store, _ =>
    if store.draining then some (.refused store.lane.refusal, store)
    else
      let (admission, lane) := store.lane.acquire store.nextTicket
      some (admission, { store with lane, nextTicket := store.nextTicket + 1 })
  | .resume ticket, store, _ =>
    (store.lane.resume ticket).map fun (acquired, lane) => (acquired, { store with lane })
  | .release, store, _ => some ((), { store with lane := store.lane.release })
  | .setMax maxConcurrent, store, _ =>
    match store.lane.setMax maxConcurrent with
    | none => some (false, store)
    | some lane => some (true, { store with lane })
  | .cancel ticket, store, _ => some ((), { store with lane := store.lane.cancel ticket })
  | .drain draining, store, _ => some ((), { store with draining })

abbrev LaneTask := Prog laneEffects

def performLane (op : LaneOp) : LaneTask op.Ans := Prog.perform (E := laneEffects) op

inductive LaneRequest where
  | slot
  | setMax (maxConcurrent : Nat)
  | cancel (ticket : Nat)
  | drain (draining : Bool)

inductive LaneReply where
  /-- The body ran and the slot was released. -/
  | released
  /-- The drain check's `RuntimeError`. -/
  | refused (message : String)
  | cancelled
  | updated
  /-- The `ValueError` of `set_max`. -/
  | invalidLimit

/-- `lane_slot`: the body runs between the acquire and the release. -/
def laneSlot : LaneTask LaneReply := do
  match ← performLane .acquire with
  | .refused message => pure (.refused message)
  | .entered => performLane .release; pure .released
  | .parked ticket =>
    if ← performLane (.resume ticket) then performLane .release; pure .released
    else pure .cancelled

def serveLane : LaneRequest → LaneTask LaneReply
  | .slot => laneSlot
  | .setMax maxConcurrent => do
    if ← performLane (.setMax maxConcurrent) then pure .updated else pure .invalidLimit
  | .cancel ticket => do
    performLane (.cancel ticket)
    pure .updated
  | .drain draining => do
    performLane (.drain draining)
    pure .updated

/-- Any number of callers of one lane. -/
def laneSystem : System laneEffects LaneStore Unit LaneRequest LaneReply :=
  ⟨execLane, serveLane⟩

end SherryAgent.Source.Runtime
