import Mathlib.Algebra.Order.Ring.Unbundled.Rat
import Mathlib.Data.Rat.Defs
import SherryAgent.Library.Resumption
import SherryAgent.Library.Table

/-!
# The effect intent log and its worker

`runtime/effects/intent_log.py`: one row per `(kind, key)`, each function one
committed statement. A payload is the JSON text of its column; what `json.loads`
makes of it is up to the handler that receives it. The bookkeeping columns
`created_at` and `updated_at` are written but never read, and are left out.

`runtime/effects/worker.py`: one tick claims the due intents one after the
other, runs the handler of each and records one outcome. `EffectWorker._loop` and
`server/service/effects/boot.py`: the process-wide worker runs one tick at a time; a tick ends early
when a statement raises, the worker is cancelled or the process dies. Boot replays the log before a
worker runs. Enqueues come at any time.
-/

namespace SherryAgent.Source.Effects

open SherryAgent.Library SherryAgent.Library.Resumption
open SherryAgent.Library.Resumption

inductive IntentStatus where
  | pending | inFlight | done | abandoned
  deriving DecidableEq

/-- A row of `effect_intent`. -/
structure IntentRow where
  id : Nat
  kind : String
  key : String
  payload : String
  generation : Nat
  status : IntentStatus
  attempts : Nat
  dueAt : Rat
  deriving DecidableEq

/-- The table; `sequence` is the last id `AUTOINCREMENT` gave out. -/
structure IntentTable where
  rows : List IntentRow := []
  sequence : Nat := 0

/-- One handler outcome. -/
structure EffectResult where
  done : Bool := false
  retryAfterS : Option Rat := none
  abandon : Bool := false
  deriving DecidableEq

/-- The `effects.*` settings the worker reads. -/
inductive Setting where
  | maxAttempts | retryInitialS | retryMaxS
  deriving DecidableEq

/-- The statements on the table, and what the worker asks of the process around it. -/
inductive Op where
  | upsert (kind key payload : String) (dueAt : Rat)
  | selectUpserted (kind key : String)
  | markInFlight (id generation : Nat)
  | markDone (id generation : Nat)
  | markRetry (id generation : Nat) (nextDueAt : Rat)
  | markAbandoned (id generation : Nat)
  | fetchPending (now : Rat) (limit : Nat)
  | resetInFlight (now : Rat)
  /-- `time.time()`. -/
  | clock
  /-- `self._handlers.get(kind)`. -/
  | hasHandler (kind : String)
  | setting (name : Setting)
  /-- `await handler(row.payload)`; an exception is an error. -/
  | handler (row : IntentRow)
  deriving DecidableEq

abbrev Op.Ans : Op → Type
  | .upsert .. => Unit
  | .selectUpserted .. => Option (Nat × Nat)
  | .markInFlight .. => Bool
  | .markDone .. => Bool
  | .markRetry .. => Bool
  | .markAbandoned .. => Bool
  | .fetchPending .. => List IntentRow
  | .resetInFlight _ => Unit
  | .clock => Rat
  | .hasHandler _ => Bool
  | .setting _ => Int
  | .handler _ => Except String EffectResult

abbrev effects : Effects := ⟨Op, Op.Ans⟩

abbrev Task := Prog effects

/-- What the process around the log answers. -/
inductive Input where
  | tick
  | time (now : Rat)
  | registered (found : Bool)
  | value (n : Int)
  | outcome (result : Except String EffectResult)

namespace IntentTable

/-- `INSERT ... ON CONFLICT(kind, key) DO UPDATE`. The insert draws its id before it meets the
conflict, so an update leaves a gap in the ids. -/
def upsert (table : IntentTable) (kind key payload : String) (dueAt : Rat) : IntentTable :=
  if table.rows.any fun row => row.kind == kind && row.key == key then
    { rows := Table.updateWhere (fun row => row.kind == kind && row.key == key)
        (fun row => { row with payload, generation := row.generation + 1, status := .pending
                               attempts := 0, dueAt }) table.rows
      sequence := table.sequence + 1 }
  else
    { rows := table.rows ++
        [{ id := table.sequence + 1, kind, key, payload, generation := 1, status := .pending
           attempts := 0, dueAt }]
      sequence := table.sequence + 1 }

/-- The row of `WHERE id = ? AND generation = ? AND status = ?`. -/
def guarded (id generation : Nat) (status : IntentStatus) (row : IntentRow) : Bool :=
  row.id == id && row.generation == generation && row.status == status

/-- `UPDATE ... WHERE id = ? AND generation = ? AND status = ?`, and whether it hit a row. -/
def compareAndSet (table : IntentTable) (id generation : Nat) (status : IntentStatus)
    (set : IntentRow → IntentRow) : Bool × IntentTable :=
  (table.rows.any (guarded id generation status),
    { table with rows := Table.updateWhere (guarded id generation status) set table.rows })

/-- `ORDER BY due_at ASC, id ASC`. -/
def dueFirst (a b : IntentRow) : Bool :=
  decide (a.dueAt < b.dueAt) || (a.dueAt == b.dueAt && decide (a.id ≤ b.id))

end IntentTable

open IntentTable in
/-- One atomic statement, or one answer of the process around the log. -/
def exec : (op : Op) → IntentTable → Input → Option (op.Ans × IntentTable)
  | .upsert kind key payload dueAt, table, _ => some ((), table.upsert kind key payload dueAt)
  | .selectUpserted kind key, table, _ =>
    some ((table.rows.find? fun row => row.kind == kind && row.key == key).map
      fun row => (row.id, row.generation), table)
  | .markInFlight id generation, table, _ =>
    some (table.compareAndSet id generation .pending ({ · with status := .inFlight }))
  | .markDone id generation, table, _ =>
    some (table.compareAndSet id generation .inFlight ({ · with status := .done }))
  | .markRetry id generation nextDueAt, table, _ =>
    some (table.compareAndSet id generation .inFlight
      fun row => { row with status := .pending, attempts := row.attempts + 1, dueAt := nextDueAt })
  | .markAbandoned id generation, table, _ =>
    some (table.compareAndSet id generation .inFlight ({ · with status := .abandoned }))
  | .fetchPending now limit, table, _ =>
    some (Table.selectWhere (fun row => row.status == .pending && decide (row.dueAt ≤ now)) dueFirst
      limit table.rows, table)
  | .resetInFlight now, table, _ =>
    some ((), { table with
      rows := Table.updateWhere (fun row => row.status == .inFlight)
        ({ · with status := .pending, dueAt := now }) table.rows })
  | .clock, table, .time now => some (now, table)
  | .hasHandler _, table, .registered found => some (found, table)
  | .setting _, table, .value n => some (n, table)
  | .handler _, table, .outcome result => some (result, table)
  | _, _, _ => none

def perform (op : Op) : Task op.Ans := Prog.perform (E := effects) op

/-- `enqueue`: the id and generation it returns come from a second statement. -/
def enqueue (kind key payload : String) (dueAt : Option Rat) : Task (Except String (Nat × Nat)) := do
  let now ← perform .clock
  perform (.upsert kind key payload (dueAt.getD now))
  match ← perform (.selectUpserted kind key) with
  | none => pure (.error "effect_intent upsert vanished")
  | some (id, generation) => pure (.ok (id, generation))

def fetchPending (limit : Nat) : Task (List IntentRow) := do
  let now ← perform .clock
  perform (.fetchPending now limit)

/-- `replay_pending`. -/
def replayPending : Task (List IntentRow) := do
  let now ← perform .clock
  perform (.resetInFlight now)
  fetchPending 1000

/-! ## The worker -/

/-- `_retry`. -/
def retry (row : IntentRow) (retryAfterS : Option Rat) : Task Unit := do
  let delay ← match retryAfterS with
    | some delay => pure delay
    | none => do
      let initial ← perform (.setting .retryInitialS)
      pure ((initial * 2 ^ row.attempts : Int) : Rat)
  let cap ← perform (.setting .retryMaxS)
  let delay := min delay (cap : Rat)
  let now ← perform .clock
  let _ ← perform (.markRetry row.id row.generation (now + max 0 delay))

/-- The body of the loop of `_tick`. -/
def serve (row : IntentRow) : Task Unit := do
  if !(← perform (.hasHandler row.kind)) then
    -- a handler may be registered later: the row stays pending
    pure ()
  else if !(← perform (.markInFlight row.id row.generation)) then
    pure ()
  else if (← perform (.setting .maxAttempts)) ≤ row.attempts then
    let _ ← perform (.markAbandoned row.id row.generation)
  else
    match ← perform (.handler row) with
    | .error _ => retry row none
    | .ok result =>
      if result.done then
        let _ ← perform (.markDone row.id row.generation)
      else if result.abandon then
        let _ ← perform (.markAbandoned row.id row.generation)
      else retry row result.retryAfterS

/-- `_tick`. -/
def tick : Task Unit := do
  let rows ← fetchPending 50
  let _ ← rows.mapM serve

/-- The calls that reach the log. -/
inductive Call where
  | enqueue (kind key payload : String) (dueAt : Option Rat)
  | tick
  | replay

/-- What a call returns. -/
inductive Reply where
  | enqueued (intent : Except String (Nat × Nat))
  | ticked
  | replayed (rows : List IntentRow)

def code : Call → Task Reply
  | .enqueue kind key payload dueAt => .enqueued <$> enqueue kind key payload dueAt
  | .tick => (fun _ => .ticked) <$> tick
  | .replay => .replayed <$> replayPending

/-- Any number of enqueues, worker ticks and restarts over one log. -/
def system : System effects IntentTable Input Call Reply := ⟨exec, code⟩

/-! ## One server process after the other -/

/-- What counts against the attempts of an intent, in order. -/
inductive Entry where
  | invoked (row : IntentRow)
  /-- `replay_pending`, with the rows that were in flight. -/
  | replayed (caught : List IntentRow)

structure Server where
  table : IntentTable := {}
  log : List Entry := []
  /-- What is left of the tick in progress, and what it has done. -/
  worker : Option (Task Unit × List (Event effects)) := none

inductive Move where
  | enqueued (kind key payload : String) (dueAt : Rat)
  | ticks
  | advances (input : Input)
  | finishes
  | interrupted
  | replays (now : Rat)

namespace Server

/-- The handler runs when `serve` calls it. -/
def entries : Op → List Entry
  | .handler row => [.invoked row]
  | _ => []

def step (server : Server) : Move → Option Server
  | .enqueued kind key payload dueAt =>
    some { server with table := server.table.upsert kind key payload dueAt }
  | .ticks =>
    match server.worker with
    | none => some { server with worker := some (tick, []) }
    | some _ => none
  | .advances input =>
    match server.worker with
    | some (.call op next, h) =>
      (exec op server.table input).map fun result =>
        { table := result.2, log := server.log ++ entries op
          worker := some (next result.1, h ++ [⟨op, result.1⟩]) }
    | _ => none
  | .finishes =>
    match server.worker with
    | some (.done _, _) => some { server with worker := none }
    | _ => none
  | .interrupted => some { server with worker := none }
  | .replays now =>
    match server.worker with
    | none =>
      (exec (.resetInFlight now) server.table .tick).map fun result =>
        { server with
          table := result.2
          log := server.log ++
            [.replayed (server.table.rows.filter fun row => row.status == .inFlight)] }
    | some _ => none

end Server

end SherryAgent.Source.Effects
