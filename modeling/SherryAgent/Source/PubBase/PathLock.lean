import Mathlib.Logic.Function.Basic
import SherryAgent.Library.Machine

/-!
# The path gate

`agent/tools/pub_base/path_lock.py`: a reference-counted registry of read/write gates. A
thread is where it stands; each section under the registry guard or under a gate's
condition is one step. A condition is the list of the waiters it has not notified.
-/

namespace SherryAgent.Source.PubBase

open SherryAgent.Library

/-- `_LockEntry`. -/
structure LockEntry where
  waiters : List Nat := []
  readers : Nat := 0
  writer : Bool := false
  waitingWriters : Nat := 0
  users : Nat := 0

/-- The registry and the gates in the order of their creation. -/
structure LockStore where
  registry : String → Option Nat := fun _ => none
  gates : Nat → LockEntry := fun _ => {}
  created : Nat := 0
  nextWaiter : Nat := 0

/-- A thread in `_path_gate`: about to fetch the entry, with the entry, in `wait()` with its
waiter, inside, out of the gate with the entry still counted, and gone. -/
inductive PathUser where
  | entering (key : String) (write : Bool)
  | fetched (key : String) (gate : Nat) (write : Bool)
  | waiting (key : String) (gate : Nat) (write : Bool) (waiter : Nat)
  | inside (key : String) (gate : Nat) (write : Bool)
  | left (key : String) (gate : Nat)
  | gone
  deriving DecidableEq

namespace LockEntry

/-- The test of the waiting loop. -/
def blocks (entry : LockEntry) (write : Bool) : Bool :=
  entry.writer || decide (0 < if write then entry.readers else entry.waitingWriters)

/-- A writer counts as waiting before its first test. -/
def announced (entry : LockEntry) (write : Bool) : LockEntry :=
  if write then { entry with waitingWriters := entry.waitingWriters + 1 } else entry

/-- Past the loop. -/
def acquired (entry : LockEntry) (write : Bool) : LockEntry :=
  if write then { entry with waitingWriters := entry.waitingWriters - 1, writer := true }
  else { entry with readers := entry.readers + 1 }

/-- The gate is given back and every waiter is notified. -/
def given (entry : LockEntry) (write : Bool) : LockEntry :=
  if write then { entry with writer := false, waiters := [] }
  else { entry with readers := entry.readers - 1, waiters := [] }

end LockEntry

namespace PathLock

def setGate (store : LockStore) (gate : Nat) (entry : LockEntry) : LockStore :=
  { store with gates := Function.update store.gates gate entry }

/-- `_entry`. -/
def fetch (store : LockStore) (key : String) (write : Bool) : LockStore × PathUser :=
  match store.registry key with
  | some gate =>
    let entry := store.gates gate
    (setGate store gate { entry with users := entry.users + 1 }, .fetched key gate write)
  | none =>
    ({ setGate store store.created { users := 1 } with
        registry := Function.update store.registry key (some store.created)
        created := store.created + 1 }, .fetched key store.created write)

/-- One test of the waiting loop: the thread waits, or is inside. -/
def test (store : LockStore) (entry : LockEntry) (key : String) (gate : Nat) (write : Bool) :
    LockStore × PathUser :=
  if entry.blocks write then
    ({ setGate store gate { entry with waiters := entry.waiters ++ [store.nextWaiter] } with
        nextWaiter := store.nextWaiter + 1 }, .waiting key gate write store.nextWaiter)
  else (setGate store gate (entry.acquired write), .inside key gate write)

/-- `_release_entry`. -/
def releaseEntry (store : LockStore) (key : String) (gate : Nat) : LockStore :=
  let entry := { store.gates gate with users := (store.gates gate).users - 1 }
  let store := setGate store gate entry
  if entry.users = 0 then { store with registry := Function.update store.registry key none }
  else store

/-- `notify_all` has reached the waiter. -/
def notified (store : LockStore) (gate waiter : Nat) : Bool :=
  !(store.gates gate).waiters.contains waiter

/-- What a thread does in its next section. -/
def resume (store : LockStore) (user : PathUser) (_ : Unit) : Option (LockStore × PathUser) :=
  match user with
  | .entering key write => some (fetch store key write)
  | .fetched key gate write =>
    some (test store ((store.gates gate).announced write) key gate write)
  | .waiting key gate write waiter =>
    if notified store gate waiter then some (test store (store.gates gate) key gate write)
    else none
  | .inside key gate write =>
    some (setGate store gate ((store.gates gate).given write), .left key gate)
  | .left key gate => some (releaseEntry store key gate, .gone)
  | .gone => none

def starts : PathUser → Bool
  | .entering _ _ => true
  | _ => false

/-- The threads of one process. -/
def program : Tasks.Program LockStore PathUser Unit where
  starts := starts
  resume := resume
  restart _ := none

end PathLock

end SherryAgent.Source.PubBase
