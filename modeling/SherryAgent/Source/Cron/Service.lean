import Mathlib.Logic.Function.Basic
import SherryAgent.Library.Machine

/-!
# The cron service

`skills/builtin/core/cron/scripts/base.py`: jobs are objects of one process, loaded from
`cron_jobs.json` and held across the execution of a job while the loaded store may be
replaced. A task is where it stands between two awaits or at the execution lock; `log`
records what happened to the jobs, for the statements only.

The next run of a cron expression and the outcome of a job's turn are taken as they come;
the message of a job and the record of its last run are its `body`.
-/

namespace SherryAgent.Source.Cron

open SherryAgent.Library

/-! ## Jobs -/

/-- `CronSchedule`. -/
inductive CronSchedule where
  | atTime (atMs : Option Nat)
  | every (everyMs : Option Nat)
  | cron (expr tz : Option String)
  deriving DecidableEq

/-- The fields of a `CronJob` beside its state. -/
structure JobFields where
  id : String
  enabled : Bool := true
  schedule : CronSchedule
  body : String := ""
  /-- `payload.kind == "system_event"`. -/
  systemEvent : Bool := false
  deleteAfterRun : Bool := false
  deriving DecidableEq

/-- An entry of `cron_jobs.json`. -/
structure JobRecord extends JobFields where
  nextRunAtMs : Option Nat := none
  deriving DecidableEq

/-- `schedule.kind == "at"`. -/
def CronSchedule.oneShot : CronSchedule → Bool
  | .atTime _ => true
  | _ => false

/-- `schedule.kind == "every"`. -/
def CronSchedule.interval : CronSchedule → Bool
  | .every _ => true
  | _ => false

/-- A `CronJob` object; `state` is its `CronJobState` object. -/
structure CronJob extends JobFields where
  state : Nat

/-- `croniter(expr, now, tz)`. -/
abbrev Croniter := String → Option String → Nat → Option Nat

/-- A time that counts as true. -/
def truthy (time : Option Nat) : Option Nat := time.filter (· ≠ 0)

/-- `_compute_next_run`. -/
def computeNextRun (croniter : Croniter) (schedule : CronSchedule) (now : Nat)
    (anchor : Option Nat) : Option Nat :=
  match schedule with
  | .atTime atMs => (truthy atMs).filter (now < ·)
  | .every everyMs =>
    (truthy everyMs).map fun period =>
      let next := (truthy anchor).getD now + period
      if next ≤ now then next + ((now - next) / period + 1) * period else next
  | .cron expr tz => (expr.filter (· ≠ "")).bind fun expr => croniter expr tz now

/-! ## The service -/

/-- How an execution was asked for: by the timer, by `run_job`, or by `run_job` with `force`. -/
inductive Caller where
  | timer
  | manual
  | forced
  deriving DecidableEq

inductive CronEvent where
  /-- The service was started. -/
  | started
  /-- Its process is a new one. -/
  | restarted
  | claimed (id : String) (slot now : Nat) (caller : Caller)
  /-- The last locked section of an execution. -/
  | finished (id : String) (oneShot : Bool)
  | released (id : String)
  | added (id : String)
  | replaced (id : String) (record : JobRecord)
  | removed (id : String)
  | enabled (id : String)
  | disabled (id : String)
  /-- The job file was written by another process. -/
  | external
  deriving DecidableEq

/-- The job file (`none` when it cannot be parsed), the service and its objects. -/
structure CronState where
  file : Option (List JobRecord)
  mtime : Nat := 0
  clock : Nat := 0
  store : Option (List Nat) := none
  lastMtime : Nat := 0
  jobs : Nat → CronJob := fun _ => { id := "", schedule := .every none, state := 0 }
  states : Nat → Option Nat := fun _ => none
  created : Nat := 0
  runningJobs : List String := []
  log : List CronEvent := []

namespace CronState

variable (s : CronState)

def note (event : CronEvent) : CronState := { s with log := s.log ++ [event] }

def setClock (clock : Nat) : CronState := { s with clock }

/-- The id of a job object. -/
def idOf (job : Nat) : String := (s.jobs job).id

/-- `job.state.next_run_at_ms`. -/
def nextRun (job : Nat) : Option Nat := s.states (s.jobs job).state

def recordOf (job : Nat) : JobRecord :=
  { (s.jobs job).toJobFields with nextRunAtMs := s.nextRun job }

/-- `store.jobs`. -/
def storeJobs : List Nat := s.store.getD []

/-- `next((j for j in store.jobs if j.id == job_id), None)`. -/
def find (id : String) : Option Nat := s.storeJobs.find? fun job => s.idOf job == id

/-- `job.state.next_run_at_ms = time`. -/
def setNextRun (job : Nat) (time : Option Nat) : CronState :=
  { s with states := Function.update s.states (s.jobs job).state time }

def setJob (job : Nat) (value : CronJob) : CronState :=
  { s with jobs := Function.update s.jobs job value }

/-- `store.jobs = [j for j in store.jobs if j.id != job_id]`. -/
def drop (id : String) : CronState :=
  { s with store := s.store.map fun (jobs : List Nat) => jobs.filter fun job => s.idOf job != id }

/-- A new job object with a new state object. -/
def create (record : JobRecord) : CronState :=
  { s with
    jobs := Function.update s.jobs s.created { record.toJobFields with state := s.created }
    states := Function.update s.states s.created record.nextRunAtMs
    created := s.created + 1 }

/-- `store.jobs.append(job)` with a new object. -/
def append (record : JobRecord) : CronState :=
  { s.create record with store := s.store.map (· ++ [s.created]) }

/-- `store.jobs[store.jobs.index(existing)] = job` with a new object. -/
def replace (existing : Nat) (record : JobRecord) : CronState :=
  { s.create record with
    store := s.store.map fun (jobs : List Nat) =>
      jobs.map fun job => if job = existing then s.created else job }

/-- The objects of the loaded records, in order. -/
def createAll : List JobRecord → CronState → CronState
  | [], s => s
  | record :: rest, s => createAll rest (s.create record)

/-- The part of `_load_store` that reads the file. -/
def reload : CronState :=
  match s.file with
  | some records =>
    { createAll records s with
      store := some (List.range' s.created records.length), lastMtime := s.mtime }
  | none => { s with store := some [] }

/-- `_load_store`. -/
def load : CronState :=
  if s.store.isSome ∧ s.mtime = s.lastMtime then s else s.reload

/-- `_save_store`. -/
def save : CronState :=
  match s.store with
  | none => s
  | some jobs =>
    { s with file := some (jobs.map s.recordOf), mtime := s.mtime + 1, lastMtime := s.mtime + 1 }

end CronState

/-! ## Starting and collecting -/

section Service

variable (croniter : Croniter)

/-- The body of the loop of `_recompute_next_runs`. -/
def recomputeJob (now : Nat) (s : CronState) (job : Nat) : CronState :=
  if (s.jobs job).enabled then
    if (s.jobs job).schedule.interval ∧ (s.nextRun job).any (now < ·) then s
    else s.setNextRun job (computeNextRun croniter (s.jobs job).schedule now none)
  else s

/-- `_recompute_next_runs`. -/
def recompute (now : Nat) (s : CronState) : CronState :=
  s.storeJobs.foldl (recomputeJob croniter now) s

/-- `due_jobs`. -/
def dueJobs (s : CronState) (now : Nat) : List Nat :=
  s.storeJobs.filter fun job =>
    (s.jobs job).enabled && (truthy (s.nextRun job)).any (· ≤ now)

/-! ## Executions -/

/-- The claim of `_execute_job`; `false` when it is refused. -/
def claim (s : CronState) (job now : Nat) (caller : Caller) : CronState × Bool :=
  let id := s.idOf job
  if id ∈ s.runningJobs then (s, false)
  else
    let s := s.load
    match s.find id with
    | none => (s, false)
    | some current =>
      if caller = .timer ∧ (s.nextRun current).any (now < ·) then (s, false)
      else
        let slot := (truthy (s.nextRun current)).getD now
        let s := if current = job then s else s.setJob job (s.jobs current)
        let s := s.setNextRun current
          (computeNextRun croniter (s.jobs current).schedule slot (some slot))
        let s := { s with runningJobs := s.runningJobs ++ [id] }
        ((s.note (.claimed id slot now caller)).save, true)

/-- The last locked section of `_execute_job`. -/
def finish (s : CronState) (job : Nat) : CronState :=
  let id := s.idOf job
  let oneShot := (s.jobs job).schedule.oneShot
  let s := s.note (.finished id oneShot)
  if oneShot then
    if (s.jobs job).deleteAfterRun then (s.drop id).save
    else ((s.setJob job { s.jobs job with enabled := false }).setNextRun job none).save
  else s.save

/-- `_running_jobs.discard`. -/
def release (s : CronState) (job : Nat) : CronState :=
  let s := s.note (.released (s.idOf job))
  { s with runningJobs := s.runningJobs.filter (· ≠ s.idOf job) }

/-! ## Edits -/

inductive Edit where
  | add (fields : JobFields)
  | replace (id : String) (fields : JobFields) (enabled : Option Bool)
  | remove (id : String)
  | enable (id : String) (enabled : Bool)

/-- The record of an added job. -/
def addedRecord (now : Nat) (fields : JobFields) : JobRecord :=
  { fields with
    enabled := true, systemEvent := false
    nextRunAtMs := computeNextRun croniter fields.schedule now none }

/-- The record of a replaced job; a system job becomes an ordinary one. -/
def replacedRecord (now : Nat) (id : String) (fields : JobFields) (enabled : Bool) : JobRecord :=
  { fields with
    id, enabled, systemEvent := false
    nextRunAtMs := if enabled then computeNextRun croniter fields.schedule now none else none }

/-- The store after an edit, before it is saved; `none` when there is nothing to save. An added
job's id is new. -/
def applyEdit (s : CronState) (now : Nat) : Edit → Option CronState
  | .add fields =>
    if (s.find fields.id).isSome then none
    else some ((s.append (addedRecord croniter now fields)).note (.added fields.id))
  | .replace id fields enabled =>
    (s.find id).map fun existing =>
      let record := replacedRecord croniter now id fields (enabled.getD (s.jobs existing).enabled)
      (s.replace existing record).note (.replaced id record)
  | .remove id =>
    (s.find id).bind fun job =>
      if (s.jobs job).systemEvent then none else some ((s.drop id).note (.removed id))
  | .enable id enabled =>
    (s.find id).map fun job =>
      let s := s.setJob job { s.jobs job with enabled }
      if enabled then
        (s.setNextRun job (computeNextRun croniter (s.jobs job).schedule now none)).note
          (.enabled id)
      else (s.setNextRun job none).note (.disabled id)

/-! ## Tasks -/

/-- Whoever awaits an execution: a tick with the due jobs left, or `run_job`. -/
inductive Awaiter where
  | tick (rest : List Nat)
  | runJob

/-- Where a task stands: `start` before and after it computes the slots, a tick, a tick with
the due jobs it has left, `run_job` before its lookup and before the claim, an execution in
the job's turn, behind the breaker, before its last section and before its release, an edit
before and behind its change, and another process about to write the file. -/
inductive CronTask where
  | start
  | starting
  | tick
  | due (jobs : List Nat)
  | runJob (id : String) (force : Bool)
  | claiming (job : Nat) (force : Bool)
  | working (job : Nat) (awaiter : Awaiter)
  | breaking (job : Nat) (awaiter : Awaiter)
  | finishing (job : Nat) (awaiter : Awaiter)
  | releasing (job : Nat) (awaiter : Awaiter) (aborted : Bool)
  | editing (edit : Edit)
  | saving
  | external (file : Option (List JobRecord))
  | gone

/-- How a job's turn ends: with the success that saves the store, without a save, with the
failure that trips the breaker (one-shots are not counted), or cancelled. -/
inductive Turn where
  | succeeds
  | ends
  | trips
  | cancelled
  deriving DecidableEq

structure CronInput where
  now : Nat
  turn : Turn := .ends

/-- Where an execution goes on once its claim is decided. -/
def awaited (job : Nat) (claimed : CronState × Bool) (awaiter : Awaiter) (refused : CronTask) :
    CronState × CronTask :=
  (claimed.1, if claimed.2 then .working job awaiter else refused)

/-- What a task does up to its next await or lock. -/
def act (s : CronState) (task : CronTask) (input : CronInput) : Option (CronState × CronTask) :=
  match task with
  | .start =>
    some (recompute croniter input.now (s.load.note .started), .starting)
  | .starting => some (s.save, .gone)
  | .tick => some (s.load, .due (dueJobs s.load input.now))
  | .due [] => some (s.save, .gone)
  | .due (job :: rest) =>
    some (awaited job (claim croniter s job input.now .timer) (.tick rest) (.due rest))
  | .runJob id force =>
    let s := s.load
    match s.find id with
    | none => some (s, .gone)
    | some job => some (s, if force || (s.jobs job).enabled then .claiming job force else .gone)
  | .claiming job force =>
    let caller := if force then .forced else .manual
    some (awaited job (claim croniter s job input.now caller) .runJob .gone)
  | .working job awaiter =>
    match input.turn with
    | .succeeds => some (s.save, .finishing job awaiter)
    | .ends => some (s, .finishing job awaiter)
    | .trips =>
      if (s.jobs job).schedule.oneShot then some (s, .finishing job awaiter)
      else some (s.setJob job { s.jobs job with enabled := false }, .breaking job awaiter)
    | .cancelled => some (s, .releasing job awaiter true)
  | .breaking job awaiter => some (s.save, .finishing job awaiter)
  | .finishing job awaiter =>
    if input.turn = .cancelled then some (s, .releasing job awaiter true)
    else some (finish s job, .releasing job awaiter false)
  | .releasing job awaiter aborted =>
    some (release s job,
      match awaiter with
      | .tick rest => if aborted then .gone else .due rest
      | .runJob => .gone)
  | .editing edit =>
    match applyEdit croniter s.load input.now edit with
    | some s => some (s, .saving)
    | none => some (s.load, .gone)
  | .saving => some (s.save, .gone)
  | .external file => some ({ s with file, mtime := s.mtime + 1 }.note .external, .gone)
  | .gone => none

/-- Time does not go back. -/
def resume (s : CronState) (task : CronTask) (input : CronInput) : Option (CronState × CronTask) :=
  if input.now < s.clock then none
  else act croniter (s.setClock input.now) task input

def starts : CronTask → Bool
  | .start | .tick | .runJob _ _ | .editing _ | .external _ => true
  | _ => false

/-- A new process has the file and the clock. -/
def restart (s : CronState) : CronState :=
  { file := s.file, mtime := s.mtime, clock := s.clock, log := s.log ++ [.restarted] }

/-- The tasks of the service. -/
def program : Tasks.Program CronState CronTask CronInput where
  starts := starts
  resume := resume croniter
  restart s := some (restart s)

end Service

end SherryAgent.Source.Cron
