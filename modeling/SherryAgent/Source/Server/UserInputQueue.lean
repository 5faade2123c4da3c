import Mathlib.Data.Rat.Defs
import Mathlib.Algebra.Order.Ring.Unbundled.Rat
import SherryAgent.Library.Table

/-!
# The durable user-input queue

`server/queue/user_input_queue.py`: every mutating operation is one
`BEGIN IMMEDIATE` transaction over the table, rolled back when it raises. SQLite
refuses a statement that would break the primary key or the partial unique index
over the active rows.
-/

namespace SherryAgent.Source.Server

open SherryAgent.Library

/-- `MAX_ACTIVE_PER_SESSION`. -/
def maxActivePerSession : Nat := 20

/-- `_EXPIRY_SECONDS`. -/
def expirySeconds : Rat := 86400

inductive UserInputQueueStatus where
  | queued | claimed | delivered | failed | voided
  deriving DecidableEq

namespace UserInputQueueStatus

/-- `UserInputQueueStatus(status)`. -/
def ofText : String → Option UserInputQueueStatus
  | "QUEUED" => some .queued
  | "CLAIMED" => some .claimed
  | "DELIVERED" => some .delivered
  | "FAILED" => some .failed
  | "VOIDED" => some .voided
  | _ => none

def value : UserInputQueueStatus → String
  | queued => "QUEUED"
  | claimed => "CLAIMED"
  | delivered => "DELIVERED"
  | failed => "FAILED"
  | voided => "VOIDED"

/-- `_ACTIVE_STATUSES_SQL`. -/
def active (status : UserInputQueueStatus) : Bool := status == .queued || status == .claimed

/-- `_TERMINAL_STATUSES`. -/
def terminal (status : UserInputQueueStatus) : Bool :=
  status == .delivered || status == .failed || status == .voided

end UserInputQueueStatus

inductive InputSource where
  | user | cron
  deriving DecidableEq

def InputSource.ofText : String → Option InputSource
  | "user" => some .user
  | "cron" => some .cron
  | _ => none

structure UserInputQueueRow where
  id : String
  sessionId : String
  payload : String
  source : InputSource
  replyTarget : Option String := none
  clientMsgId : Option String := none
  status : UserInputQueueStatus := .queued
  createdAt : Rat
  updatedAt : Rat
  expiresAt : Rat
  priority : Int := 0
  deriving DecidableEq

namespace UserInputQueueRow

def active (row : UserInputQueueRow) : Bool := row.status.active

def queuedIn (sessionId : String) (row : UserInputQueueRow) : Bool :=
  row.sessionId == sessionId && row.status == .queued

end UserInputQueueRow

abbrev QueueTable := List UserInputQueueRow

inductive QueueError where
  | queueFull (message : String)
  | valueError (message : String)
  | integrityError (message : String)
  | lookupError (message : String)
  deriving DecidableEq

/-- The statements of one transaction: what a statement wrote stays in the working
table when a later one raises. -/
abbrev Txn := ExceptT QueueError (StateM QueueTable)

/-- `write_transaction`: committed on success, rolled back when the block raises. -/
def writeTransaction {α : Type} (block : Txn α) (table : QueueTable) :
    Except QueueError α × QueueTable :=
  match block.run.run table with
  | (.ok value, working) => (.ok value, working)
  | (.error error, _) => (.error error, table)

namespace QueueRepository

/-- The key of a row in `uq_user_input_queue_client_msg_active`. -/
def dedupKey (row : UserInputQueueRow) : Option String :=
  if row.active then row.clientMsgId else none

/-- The table a write leaves, unless it breaks the primary key or the unique index. -/
def write (rows : QueueTable) : Txn Unit :=
  if ¬(rows.map (·.id)).Nodup then
    throw (.integrityError "UNIQUE constraint failed: user_input_queue.id")
  else if ¬(rows.filterMap dedupKey).Nodup then
    throw (.integrityError "UNIQUE constraint failed: user_input_queue.client_msg_id")
  else set rows

/-- `UPDATE ... WHERE ... RETURNING`: the rows after the update. -/
def update (p : UserInputQueueRow → Bool) (f : UserInputQueueRow → UserInputQueueRow) :
    Txn (List UserInputQueueRow) := do
  let rows ← get
  write (Table.updateWhere p f rows)
  pure ((rows.filter p).map f)

def findActiveByClientMsg (clientMsgId : String) : Txn (Option UserInputQueueRow) := do
  let rows ← get
  pure (Table.selectWhere (fun row => row.clientMsgId == some clientMsgId && row.active)
    (fun a b => decide (a.createdAt ≤ b.createdAt)) 1 rows).head?

def countActive (sessionId : String) (rows : QueueTable) : Nat :=
  rows.countP fun row => row.sessionId == sessionId && row.active

/-- `_INSERT_QUEUED_SQL` and `_INSERT_CLAIMED_SQL`. -/
def insert (row : UserInputQueueRow) : Txn Unit := do
  let rows ← get
  write (rows ++ [row])

def fetchById (rowId : String) : Txn UserInputQueueRow := do
  match (← get).find? fun row => row.id == rowId with
  | none => throw (.lookupError s!"row {rowId} vanished inside its own transaction")
  | some row => pure row

/-- `(priority DESC, created_at ASC, id ASC)`. -/
def claimsBefore (a b : UserInputQueueRow) : Bool :=
  decide (b.priority < a.priority) || (a.priority == b.priority &&
    (decide (a.createdAt < b.createdAt) || (a.createdAt == b.createdAt && decide (a.id ≤ b.id))))

/-- 1-based rank of the row among its session's QUEUED rows, 0 when it is not queued. -/
def queuedPosition (row : UserInputQueueRow) : Txn Nat := do
  if row.status ≠ .queued then pure 0
  else pure ((← get).countP fun other => other.queuedIn row.sessionId && claimsBefore other row)

/-- `_CLAIM_NEXT_SQL`. -/
def claimNext (sessionId : String) (now : Rat) : Txn (Option UserInputQueueRow) := do
  let next := Table.selectWhere (fun row => row.queuedIn sessionId && decide (now < row.expiresAt))
    claimsBefore 1 (← get)
  let claimed ← update (fun row => next.any fun chosen => row.id == chosen.id)
    ({ · with status := .claimed, updatedAt := now })
  pure claimed.head?

/-- `_CANCEL_QUEUED_SQL`. -/
def cancelQueued (rowId : String) (now : Rat) : Txn Bool := do
  let voided ← update (fun row => row.id == rowId && row.status == .queued)
    ({ · with status := .voided, updatedAt := now })
  pure !voided.isEmpty

/-- `_UPDATE_PAYLOAD_SQL`. -/
def updatePayload (rowId payload : String) (now : Rat) : Txn (Option UserInputQueueRow) := do
  let updated ← update (fun row => row.id == rowId && row.status == .queued)
    ({ · with payload, updatedAt := now })
  pure updated.head?

/-- `_PRIORITIZE_SQL`. -/
def prioritize (sessionId rowId : String) (now : Rat) : Txn Bool := do
  let flagged ← update
    (fun row => row.id == rowId && row.sessionId == sessionId && row.status == .queued)
    ({ · with priority := 1, updatedAt := now })
  pure !flagged.isEmpty

/-- `_MARK_TERMINAL_SQL`. -/
def markTerminal (terminal : UserInputQueueStatus) (rowId : String) (now : Rat) : Txn Bool := do
  let finished ← update (fun row => row.id == rowId && row.active)
    ({ · with status := terminal, updatedAt := now })
  pure !finished.isEmpty

/-- `_RECOVER_SQL`. -/
def recover (sessionId : String) (now : Rat) : Txn Nat := do
  let voided ← update
    (fun row => row.sessionId == sessionId && row.active && decide (row.expiresAt ≤ now))
    ({ · with status := .voided, updatedAt := now })
  pure voided.length

/-- `_REQUEUE_CLAIMED_SQL`. -/
def requeueClaimed (sessionId : String) (now : Rat) : Txn Nat := do
  let requeued ← update (fun row => row.sessionId == sessionId && row.status == .claimed)
    ({ · with status := .queued, updatedAt := now })
  pure requeued.length

def deleteSession (sessionId : String) : Txn Nat := do
  let rows ← get
  set (Table.deleteWhere (fun row => row.sessionId == sessionId) rows)
  pure (rows.countP fun row => row.sessionId == sessionId)

end QueueRepository

namespace UserInputQueue

/-- The capacity check of `enqueue` and `insert_claimed`. -/
def requireCapacity (sessionId : String) : Txn Unit := do
  let activeCount := QueueRepository.countActive sessionId (← get)
  if maxActivePerSession ≤ activeCount then
    throw (.queueFull (s!"input queue full for session '{sessionId}': " ++
      s!"{activeCount} active rows >= cap {maxActivePerSession}"))

/-- The arguments of `enqueue` and `insert_claimed`. -/
structure Submission where
  sessionId : String
  payload : String
  source : String
  replyTarget : Option String := none
  clientMsgId : Option String := none

def Submission.row (submission : Submission) (source : InputSource) (rowId : String) (now : Rat)
    (status : UserInputQueueStatus) : UserInputQueueRow where
  id := rowId
  sessionId := submission.sessionId
  payload := submission.payload
  source
  replyTarget := submission.replyTarget
  clientMsgId := submission.clientMsgId
  status
  createdAt := now
  updatedAt := now
  expiresAt := now + expirySeconds

def sourceError (source : String) : QueueError :=
  .valueError s!"source must be 'user' or 'cron', got '{source}'"

/-- The dedup lookup: the active row with the key of the submission. -/
def activeDuplicate : Option String → Txn (Option UserInputQueueRow)
  | none => pure none
  | some clientMsgId => QueueRepository.findActiveByClientMsg clientMsgId

/-- `enqueue`; `now` and `rowId` are the clock reading and the `uuid4` of the call. -/
def enqueue (submission : Submission) (now : Rat) (rowId : String) (table : QueueTable) :
    Except QueueError (UserInputQueueRow × Nat) × QueueTable :=
  match InputSource.ofText submission.source with
  | none => (.error (sourceError submission.source), table)
  | some source => writeTransaction (do
      match ← activeDuplicate submission.clientMsgId with
      | some row => pure (row, ← QueueRepository.queuedPosition row)
      | none =>
        requireCapacity submission.sessionId
        QueueRepository.insert (submission.row source rowId now .queued)
        let inserted ← QueueRepository.fetchById rowId
        pure (inserted, ← QueueRepository.queuedPosition inserted)) table

/-- `insert_claimed`: the same without the dedup lookup. -/
def insertClaimed (submission : Submission) (now : Rat) (rowId : String) (table : QueueTable) :
    Except QueueError UserInputQueueRow × QueueTable :=
  match InputSource.ofText submission.source with
  | none => (.error (sourceError submission.source), table)
  | some source => writeTransaction (do
      requireCapacity submission.sessionId
      QueueRepository.insert (submission.row source rowId now .claimed)
      QueueRepository.fetchById rowId) table

/-- `mark_terminal`. -/
def markTerminal (rowId status : String) (now : Rat) (table : QueueTable) :
    Except QueueError Bool × QueueTable :=
  match UserInputQueueStatus.ofText status with
  | none => (.error (.valueError s!"'{status}' is not a valid UserInputQueueStatus"), table)
  | some terminal =>
    if !terminal.terminal then
      (.error (.valueError ("mark_terminal requires a terminal status " ++
        s!"(DELIVERED | FAILED | VOIDED), got '{terminal.value}'")), table)
    else writeTransaction (QueueRepository.markTerminal terminal rowId now) table

/-- The mutating operations. -/
inductive Op where
  | enqueue (submission : Submission)
  | insertClaimed (submission : Submission)
  | claimNext (sessionId : String)
  | cancelQueued (rowId : String)
  | updatePayload (rowId payload : String)
  | prioritize (sessionId rowId : String)
  | markTerminal (rowId status : String)
  | requeueClaimed (sessionId : String)
  | recover (sessionId : String)
  | deleteSession (sessionId : String)

/-- One call: the error it raises if any, and the table it leaves. -/
def Op.call (op : Op) (now : Rat) (rowId : String) (table : QueueTable) :
    Except QueueError Unit × QueueTable :=
  let unit {α : Type} (result : Except QueueError α × QueueTable) :
      Except QueueError Unit × QueueTable := (result.1.map fun _ => (), result.2)
  match op with
  | .enqueue submission => unit (UserInputQueue.enqueue submission now rowId table)
  | .insertClaimed submission => unit (UserInputQueue.insertClaimed submission now rowId table)
  | .claimNext sessionId => unit (writeTransaction (QueueRepository.claimNext sessionId now) table)
  | .cancelQueued row => unit (writeTransaction (QueueRepository.cancelQueued row now) table)
  | .updatePayload row payload =>
    unit (writeTransaction (QueueRepository.updatePayload row payload now) table)
  | .prioritize sessionId row =>
    unit (writeTransaction (QueueRepository.prioritize sessionId row now) table)
  | .markTerminal row status => unit (UserInputQueue.markTerminal row status now table)
  | .requeueClaimed sessionId =>
    unit (writeTransaction (QueueRepository.requeueClaimed sessionId now) table)
  | .recover sessionId => unit (writeTransaction (QueueRepository.recover sessionId now) table)
  | .deleteSession sessionId =>
    unit (writeTransaction (QueueRepository.deleteSession sessionId) table)

/-- A call with the clock reading and the row id it draws. -/
structure Request where
  op : Op
  now : Rat
  rowId : String

/-- The table after a sequence of calls. -/
def run (requests : List Request) (table : QueueTable) : QueueTable :=
  requests.foldl (fun table request => (request.op.call request.now request.rowId table).2) table

end UserInputQueue

end SherryAgent.Source.Server
