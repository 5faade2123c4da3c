import Mathlib.Data.Rat.Defs
import Mathlib.Algebra.Order.Ring.Unbundled.Rat
import SherryAgent.Library.Resumption
import SherryAgent.Library.Table

/-!
# The compaction lock

`agent/middlewares/summarization/compaction_lock.py`: a row per session, stolen
by the next acquire once its ttl has passed. A holder's id is drawn with `uuid4`
and never again; every operation happens at a moment of a clock that does not go
back. The synchronous and the asynchronous acquire differ in the await between
the transaction and the body, where the caller can be cancelled.
-/

namespace SherryAgent.Source.Summarization

open SherryAgent.Library SherryAgent.Library.Resumption

/-- A row of `compression_locks`. -/
structure LockRow where
  sessionId : String
  holder : String
  acquiredAt : Rat
  ttl : Int
  deriving DecidableEq

/-- The last moment at which the row is not stolen. -/
def LockRow.deadline (row : LockRow) : Rat := row.acquiredAt + row.ttl

/-- The database, the moment of the last operation and the holder ids drawn so far. -/
structure LockStore where
  locks : List LockRow := []
  clock : Rat := 0
  drawn : List String := []

inductive LockOp where
  /-- `_new_holder`. -/
  | newHolder
  /-- `time.monotonic()`. -/
  | monotonic
  /-- `time.time()`. -/
  | clock
  /-- The transaction of `_try_acquire`. -/
  | tryAcquire (row : LockRow)
  /-- The body starts, unless the caller was cancelled while it awaited the transaction. -/
  | enter (row : LockRow)
  /-- The body ends. -/
  | leave (row : LockRow)
  /-- The transaction of `_release`. -/
  | release (sessionId holder : String)
  | currentHolder (sessionId : String)
  /-- `sleep(_ACQUIRE_POLL_S)`. -/
  | sleep
  deriving DecidableEq

abbrev LockOp.Ans : LockOp → Type
  | .newHolder => String
  | .monotonic => Rat
  | .clock => Rat
  | .tryAcquire _ => Bool
  | .enter _ => Bool
  | .leave _ => Unit
  | .release _ _ => Unit
  | .currentHolder _ => Option String
  | .sleep => Unit

abbrev lockEffects : Effects := ⟨LockOp, LockOp.Ans⟩

/-- The moment of an operation, and what else the environment decides about it. -/
structure LockInput where
  moment : Rat
  drawn : String := ""
  monotonic : Rat := 0
  entered : Bool := true

/-- `_try_acquire` on the rows: expired rows of the session go, then the row is inserted
unless the session still has one. -/
def insertLock (row : LockRow) (locks : List LockRow) : Bool × List LockRow :=
  let kept := Table.deleteWhere
    (fun other => other.sessionId == row.sessionId && decide (other.deadline < row.acquiredAt)) locks
  if kept.any fun other => other.sessionId == row.sessionId then (false, locks)
  else (true, kept ++ [row])

/-- One operation on the store; `none` when an id would be drawn twice. -/
def runLock (input : LockInput) (store : LockStore) : (op : LockOp) → Option (op.Ans × LockStore)
  | .newHolder =>
    if input.drawn ∈ store.drawn then none
    else some (input.drawn, { store with drawn := input.drawn :: store.drawn })
  | .monotonic => some (input.monotonic, store)
  | .clock => some (store.clock, store)
  | .tryAcquire row =>
    some ((insertLock row store.locks).1, { store with locks := (insertLock row store.locks).2 })
  | .enter _ => some (input.entered, store)
  | .leave _ => some ((), store)
  | .release sessionId holder =>
    some ((), { store with
      locks := Table.deleteWhere
        (fun row => row.sessionId == sessionId && row.holder == holder) store.locks })
  | .currentHolder sessionId =>
    some ((store.locks.find? fun row => row.sessionId == sessionId).map (·.holder), store)
  | .sleep => some ((), store)

/-- The operation at its moment; `none` when the clock would go back. -/
def execLock (op : LockOp) (store : LockStore) (input : LockInput) :
    Option (op.Ans × LockStore) :=
  if input.moment < store.clock then none
  else runLock input { store with clock := input.moment } op

abbrev LockTask := Prog lockEffects

def performLock (op : LockOp) : LockTask op.Ans := Prog.perform (E := lockEffects) op

/-- How an acquire ends. -/
inductive LockReply where
  /-- The body ran and the lock was released. -/
  | released
  /-- Cancelled before the body: the row stays until its ttl has passed. -/
  | cancelled
  /-- `CompactionLockError`. -/
  | timedOut (message : String)
  /-- Still polling after the given number of attempts. -/
  | polling

/-- The arguments of `acquire_sync` and `acquire`; `attempts` bounds how many attempts of
the polling loop are run. -/
structure AcquireArgs where
  sessionId : String
  timeoutS : Rat := 10
  ttlS : Int := 300
  attempts : Nat

/-- `str(None)`. -/
def noHolder : String := "None"

/-- The loop of `acquire_sync` and `acquire`. -/
def pollLock (args : AcquireArgs) (holder : String) (deadline : Rat) : Nat → LockTask LockReply
  | 0 => pure .polling
  | attempts + 1 => do
    let now ← performLock .clock
    let row : LockRow :=
      { sessionId := args.sessionId, holder, acquiredAt := now, ttl := args.ttlS }
    if ← performLock (.tryAcquire row) then
      if ← performLock (.enter row) then
        performLock (.leave row)
        performLock (.release args.sessionId holder)
        pure .released
      else pure .cancelled
    else if deadline ≤ (← performLock .monotonic) then
      let current ← performLock (.currentHolder args.sessionId)
      pure (.timedOut (s!"compaction lock not acquired within {args.timeoutS}s: " ++
        s!"session={args.sessionId}, holder={current.getD noHolder}"))
    else
      performLock .sleep
      pollLock args holder deadline attempts

/-- `acquire_sync` and `acquire`, with the body of the `with` block as `enter` and `leave`. -/
def acquire (args : AcquireArgs) : LockTask LockReply := do
  let holder ← performLock .newHolder
  let start ← performLock .monotonic
  pollLock args holder (start + args.timeoutS) args.attempts

/-- Any number of holders of any sessions. -/
def lockSystem : System lockEffects LockStore LockInput AcquireArgs LockReply :=
  ⟨execLock, acquire⟩

end SherryAgent.Source.Summarization
