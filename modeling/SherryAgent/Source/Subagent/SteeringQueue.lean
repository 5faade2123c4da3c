import Mathlib.Data.List.Basic
import SherryAgent.Library.Machine
import SherryAgent.Library.Table
import SherryAgent.Source.PyText
import SherryAgent.Source.Subagent.Record

/-!
# The steering queue

`announce/steering_queue.py` over `registry/pending_injections.py`: the queue of one
session (its bare key is `key`) as the tasks that run on it, one constructor for each
place a task waits. A store call may raise. The carrier message of an item is its
record's content.
-/

namespace SherryAgent.Source.Subagent

open SherryAgent.Library SherryAgent.Source

inductive PendingInjectionStatus where
  | pending | consumed
  deriving DecidableEq

structure PendingInjection where
  runId : String
  requesterSessionKey : String
  content : String
  status : PendingInjectionStatus := .pending
  createdAt : Time
  deriving DecidableEq

/-- A completion message, with the `run_id` of its metadata. -/
structure Injection where
  runId : Option String
  content : String
  createdAt : Time

structure SteeringItem where
  record : PendingInjection
  consumed : Bool := false
  deriving DecidableEq

def SteeringItem.runId (item : SteeringItem) : String := item.record.runId

/-- `SESSION_KEY_PREFIX`. -/
def sessionKeyPrefix : String := "agent:main:session:"

/-- `normalize_session_key`. -/
def normalizeSessionKey (raw : String) : String :=
  let trimmed := PyText.strip raw
  if sessionKeyPrefix.toList.isPrefixOf (PyText.lower trimmed).toList then
    String.ofList (trimmed.toList.drop sessionKeyPrefix.length)
  else trimmed

/-! ## `PendingInjectionStore` -/

/-- The row of a run. -/
def injectionRow (rows : List PendingInjection) (runId : String) : Option PendingInjection :=
  rows.find? fun row => row.runId == runId

/-- `INSERT OR IGNORE`. -/
def insertOrIgnore (rows : List PendingInjection) (record : PendingInjection) :
    List PendingInjection :=
  if (injectionRow rows record.runId).isSome then rows else rows ++ [record]

/-- `_MARK_CONSUMED_SQL`: whether a row changed, and the rows. -/
def markConsumed (rows : List PendingInjection) (runId : String) :
    Bool × List PendingInjection :=
  let hit := fun row : PendingInjection => row.runId == runId && row.status == .pending
  (rows.any hit, Table.updateWhere hit ({ · with status := .consumed }) rows)

/-- `list_pending`. -/
def listPending (rows : List PendingInjection) : List PendingInjection :=
  (rows.filter fun row => row.status == .pending).mergeSort fun a b => decide (a.createdAt ≤ b.createdAt)

/-! ## `SteeringQueue` -/

/-- `_SessionState`; `by_run_id` indexes the items. -/
structure SessionState where
  items : List SteeringItem := []
  hydrated : Bool := false
  hydrating : Bool := false
  deriving DecidableEq

namespace SessionState

/-- `run_id in state.by_run_id`. -/
def queues (state : SessionState) (runId : String) : Bool :=
  state.items.any fun item => item.runId == runId

/-- The early return of `_ensure_hydrated`. -/
def touched (state : SessionState) : Bool := state.hydrated || state.hydrating

/-- The merging loop of `_ensure_hydrated`. -/
def merge (key : String) (state : SessionState) (rows : List PendingInjection) : SessionState :=
  rows.foldl (fun state row =>
    if normalizeSessionKey row.requesterSessionKey != key || state.queues row.runId then state
    else { state with items := state.items ++ [{ record := row }] }) state

/-- The rest of `_ensure_hydrated` on the answer of `list_pending`, none if it raised. -/
def hydrate (key : String) (state : SessionState) :
    Option (List PendingInjection) → SessionState
  | none => { state with hydrating := false }
  | some rows => { merge key { state with hydrating := false } rows with hydrated := true }

/-- The item an enqueue returns, and the state with it queued. -/
def append (state : SessionState) (record : PendingInjection) : SteeringItem × SessionState :=
  match state.items.find? fun item => item.runId == record.runId with
  | some existing => (existing, state)
  | none => ({ record }, { state with items := state.items ++ [{ record }] })

/-- `_discard`. -/
def discard (state : SessionState) (runId : String) : SessionState :=
  { state with items := state.items.filter fun item => item.runId != runId }

end SessionState

/-- The table, the memory of the running process, and two records no task reads: the run
ids drains have returned, and those enqueues have returned an item for since the queue
was last emptied. -/
structure QueueStore where
  rows : List PendingInjection := []
  state : SessionState := {}
  returned : List String := []
  owed : List String := []
  deriving DecidableEq

/-- Where a task waits. `drained` keeps what was owed when the drain emptied the queue. -/
inductive QueueTask where
  | enqueue (sessionKey : String) (injection : Injection)
  | enqueueLoading (record : PendingInjection)
  | enqueueLoaded (record : PendingInjection) (answer : Option (List PendingInjection))
  | enqueueInserting (record : PendingInjection) (item : SteeringItem)
  | enqueueSelecting (record : PendingInjection) (item : SteeringItem)
  | enqueueStored (record : PendingInjection) (item : SteeringItem)
      (persisted : Option PendingInjection)
  | enqueued (item : Option SteeringItem)
  | drain (sessionKey : String)
  | drainLoading
  | drainLoaded (answer : Option (List PendingInjection))
  | marking (owed : List String) (finished rest : List SteeringItem)
  | drained (owed : List String) (items : List SteeringItem)
  | rehydrate (sessionKey : String)
  | rehydrateLoading
  | rehydrateLoaded (answer : Option (List PendingInjection))
  | rehydrated (items : List SteeringItem)
  | raised

namespace SteeringQueue

/-- `_record_from_message`, none if it raises. -/
def recordFromMessage (injection : Injection) (bareKey : String) : Option PendingInjection :=
  match injection.runId with
  | none => none
  | some runId =>
    if runId.isEmpty then none
    else some {
      runId
      requesterSessionKey := bareKey
      content := injection.content
      createdAt := injection.createdAt }

/-- The locked section of `enqueue_steering`. -/
def queueUp (store : QueueStore) (record : PendingInjection) : QueueStore × QueueTask :=
  ({ store with state := (store.state.append record).2 },
    .enqueueInserting record (store.state.append record).1)

/-- The locked section of `drain`. -/
def takeAll (store : QueueStore) : QueueStore × QueueTask :=
  let emptied := { store with state := { store.state with items := [] }, owed := [] }
  if store.state.items.isEmpty then (emptied, .drained store.owed [])
  else (emptied, .marking store.owed [] store.state.items)

/-- The flag set before `list_pending` is awaited. -/
def startLoading (store : QueueStore) : QueueStore :=
  { store with state := { store.state with hydrating := true } }

/-- `_ensure_hydrated` after `list_pending`. -/
def endLoading (key : String) (store : QueueStore) (answer : Option (List PendingInjection)) :
    QueueStore :=
  { store with state := store.state.hydrate key answer }

/-- The answer of `list_pending`. -/
def load (store : QueueStore) (ok : Bool) : Option (List PendingInjection) :=
  if ok then some (listPending store.rows) else none

/-- What a task does from where it waits to where it waits next; `ok` is false when the
store call it waits for raises. -/
def resume (key : String) (store : QueueStore) (task : QueueTask) (ok : Bool) :
    Option (QueueStore × QueueTask) :=
  match task with
  | .enqueue _ injection =>
    match recordFromMessage injection key with
    | none => some (store, .raised)
    | some record =>
      if store.state.touched then some (queueUp store record)
      else some (startLoading store, .enqueueLoading record)
  | .enqueueLoading record => some (store, .enqueueLoaded record (load store ok))
  | .enqueueLoaded record answer => some (queueUp (endLoading key store answer) record)
  | .enqueueInserting record item =>
    if ok then some ({ store with rows := insertOrIgnore store.rows record },
      .enqueueSelecting record item)
    else some (store, .raised)
  | .enqueueSelecting record item =>
    if ok then some (store, .enqueueStored record item (injectionRow store.rows record.runId))
    else some (store, .raised)
  | .enqueueStored record item persisted =>
    match persisted with
    | none => some (store, .raised)
    | some row =>
      if row.status = .consumed then
        some ({ store with state := store.state.discard record.runId }, .enqueued none)
      else some ({ store with owed := store.owed ++ [record.runId] }, .enqueued (some item))
  | .drain _ =>
    if store.state.touched then some (takeAll store) else some (startLoading store, .drainLoading)
  | .drainLoading => some (store, .drainLoaded (load store ok))
  | .drainLoaded answer => some (takeAll (endLoading key store answer))
  | .marking owed finished rest =>
    match rest with
    | [] =>
      some ({ store with returned := store.returned ++ finished.map (·.runId) },
        .drained owed finished)
    | item :: rest =>
      if ok then
        some ({ store with rows := (markConsumed store.rows item.runId).2 },
          .marking owed
            (finished ++ [{ item with consumed := (markConsumed store.rows item.runId).1 }]) rest)
      else some (store, .marking owed (finished ++ [{ item with consumed := false }]) rest)
  | .rehydrate _ =>
    if store.state.touched then some (store, .rehydrated store.state.items)
    else some (startLoading store, .rehydrateLoading)
  | .rehydrateLoading => some (store, .rehydrateLoaded (load store ok))
  | .rehydrateLoaded answer =>
    some (endLoading key store answer, .rehydrated (store.state.hydrate key answer).items)
  | .enqueued _ | .drained _ _ | .rehydrated _ | .raised => none

/-- The three public calls, for the session. -/
def starts (key : String) : QueueTask → Bool
  | .enqueue sessionKey _ | .drain sessionKey | .rehydrate sessionKey =>
    normalizeSessionKey sessionKey == key
  | _ => false

/-- The queue of a session; a restart keeps the table. -/
def program (key : String) : Tasks.Program QueueStore QueueTask Bool where
  starts := starts key
  resume := resume key
  restart store := some { store with state := {}, owed := [] }

end SteeringQueue

end SherryAgent.Source.Subagent
