import Mathlib.Data.List.Find
import SherryAgent.Source.Cron.Service

/-!
# Job objects and job records

The loaded store is read as the records of its objects (`memory`); a record is looked up by
its id in the memory and in the file alike. `Grown` says what any operation of the service
keeps of the objects.
-/

namespace SherryAgent.Contracts.Cron

open SherryAgent.Library SherryAgent.Source.Cron

/-! ## Records -/

/-- The records of the loaded jobs. -/
def memory (s : CronState) : Option (List JobRecord) := s.store.map fun jobs => jobs.map s.recordOf

/-- The record of a job. -/
def lookup (records : Option (List JobRecord)) (id : String) : Option JobRecord :=
  records.bind fun records => records.find? fun record => record.id == id

variable {s s' : CronState} {job other now : Nat} {id : String}

theorem lookup_memory (s : CronState) (id : String) :
    lookup (memory s) id = (s.find id).map s.recordOf := by
  unfold lookup memory CronState.find CronState.storeJobs
  cases s.store with
  | none => rfl
  | some jobs => simp [List.find?_map, Function.comp_def, CronState.recordOf, CronState.idOf]

theorem idOf_of_find (found : s.find id = some job) : s.idOf job = id :=
  beq_iff_eq.mp (List.find?_some (p := fun job => s.idOf job == id) found)

theorem mem_of_find (found : s.find id = some job) : job ∈ s.storeJobs :=
  List.mem_of_find?_eq_some found

theorem store_of_find (found : s.find id = some job) : s.store.isSome := by
  unfold CronState.find CronState.storeJobs at found
  cases store : s.store with
  | none => rw [store] at found; cases found
  | some jobs => rfl

/-- The store looks the same to a search by id. -/
theorem find_congr (jobs : s'.storeJobs = s.storeJobs)
    (same : ∀ job ∈ s.storeJobs, s'.idOf job = s.idOf job) : s'.find id = s.find id := by
  unfold CronState.find
  rw [jobs]
  apply List.find?_congr
  intro job member
  rw [same job member]

/-! ## Times -/

@[simp] theorem truthy_none : truthy none = none := rfl

theorem truthy_of_pos {time : Nat} (positive : 0 < time) : truthy (some time) = some time := by
  unfold truthy
  rw [Option.filter_some, if_pos (by simpa using Nat.ne_of_gt positive)]

theorem truthy_some_getD (time : Nat) : (truthy (some time)).getD time = time := by
  rcases Nat.eq_zero_or_pos time with zero | positive
  · rw [zero]
    rfl
  · rw [truthy_of_pos positive]
    rfl

/-- The first slot of a grid, from the time or from a consumed slot given as the time. -/
theorem computeNextRun_every {croniter : Croniter} {period now : Nat} {anchor : Option Nat}
    (positive : 0 < period) (base : (truthy anchor).getD now = now) :
    computeNextRun croniter (.every (some period)) now anchor = some (now + period) := by
  unfold computeNextRun
  simp only [truthy_of_pos positive, base, Option.map_some, Option.some.injEq]
  rw [if_neg (by omega)]

/-! ## Objects -/

/-- The jobs of the store exist, and a state object belongs to jobs of one id. -/
structure Heap (s : CronState) : Prop where
  live : ∀ job ∈ s.storeJobs, job < s.created
  state : ∀ job < s.created, (s.jobs job).state < s.created
  owner : ∀ job < s.created, s.idOf (s.jobs job).state = s.idOf job

/-- Objects are only added, and keep their ids. -/
structure Grown (s s' : CronState) : Prop where
  heap : Heap s'
  created : s.created ≤ s'.created
  sameId : ∀ job < s.created, s'.idOf job = s.idOf job

theorem Grown.refl (heap : Heap s) : Grown s s := ⟨heap, Nat.le_refl _, fun _ _ => rfl⟩

theorem Grown.trans {s'' : CronState} (first : Grown s s') (second : Grown s' s'') :
    Grown s s'' where
  heap := second.heap
  created := Nat.le_trans first.created second.created
  sameId job bound := by
    rw [second.sameId job (Nat.lt_of_lt_of_le bound first.created), first.sameId job bound]

/-- The objects stay as they are, in a store of some of them. -/
theorem Grown.frame (heap : Heap s) (jobs : s'.jobs = s.jobs) (created : s'.created = s.created)
    (live : ∀ job ∈ s'.storeJobs, job ∈ s.storeJobs) : Grown s s' where
  heap :=
    { live := fun job member => by rw [created]; exact heap.live job (live job member)
      state := by rw [created, jobs]; exact heap.state
      owner := by unfold CronState.idOf; rw [created, jobs]; exact heap.owner }
  created := Nat.le_of_eq created.symm
  sameId job _ := by unfold CronState.idOf; rw [jobs]

/-- A job object is written with a state object of its own id. -/
theorem Grown.setJob (heap : Heap s) {value : CronJob} (sameId : value.id = s.idOf job)
    (bound : value.state < s.created) (owner : s.idOf value.state = s.idOf job) :
    Grown s (s.setJob job value) := by
  have ids : ∀ other, (s.setJob job value).idOf other = s.idOf other := by
    intro other
    unfold CronState.setJob CronState.idOf
    by_cases here : other = job
    · subst here
      simpa [CronState.idOf] using sameId
    · simp [Function.update_of_ne here]
  refine ⟨⟨heap.live, ?_, ?_⟩, Nat.le_refl _, fun other _ => ids other⟩
  · intro other created
    by_cases here : other = job
    · subst here
      simpa [CronState.setJob] using bound
    · simpa [CronState.setJob, Function.update_of_ne here] using heap.state other created
  · intro other created
    rw [ids, ids]
    by_cases here : other = job
    · subst here
      simpa [CronState.setJob] using owner
    · simpa [CronState.setJob, Function.update_of_ne here] using heap.owner other created

/-! ## Slots of other jobs -/

@[simp] theorem nextRun_setNextRun (s : CronState) (job : Nat) (time : Option Nat) :
    (s.setNextRun job time).nextRun job = time := by
  simp [CronState.setNextRun, CronState.nextRun]

theorem nextRun_setNextRun_of_ne (heap : Heap s) (bound : job < s.created)
    (bound' : other < s.created) (different : s.idOf job ≠ s.idOf other) (time : Option Nat) :
    (s.setNextRun job time).nextRun other = s.nextRun other := by
  have apart : (s.jobs other).state ≠ (s.jobs job).state := by
    intro shared
    apply different
    rw [← heap.owner job bound, ← heap.owner other bound', shared]
  simp [CronState.setNextRun, CronState.nextRun, Function.update_of_ne apart]

theorem nextRun_setJob_of_ne (s : CronState) (different : other ≠ job) (value : CronJob) :
    (s.setJob job value).nextRun other = s.nextRun other := by
  simp [CronState.setJob, CronState.nextRun, Function.update_of_ne different]

/-- Removing a job leaves the search for another as it is. -/
theorem find_drop_of_ne {dropped : String} (different : id ≠ dropped) :
    (s.drop dropped).find id = s.find id := by
  unfold CronState.drop CronState.find CronState.storeJobs
  cases s.store with
  | none => rfl
  | some jobs =>
    dsimp only [Option.map_some, Option.getD_some]
    rw [List.find?_filter]
    apply List.find?_congr
    intro job member
    unfold CronState.idOf
    by_cases here : (s.jobs job).id = id
    · simp [here, different]
    · simp [here]

/-! ## New objects -/

theorem Grown.create (heap : Heap s) (record : JobRecord) : Grown s (s.create record) := by
  have ids : ∀ other < s.created, (s.create record).idOf other = s.idOf other := by
    intro other bound
    simp [CronState.create, CronState.idOf, Function.update_of_ne (Nat.ne_of_lt bound)]
  refine ⟨⟨?_, ?_, ?_⟩, Nat.le_succ _, ids⟩
  · intro other member
    exact Nat.lt_succ_of_lt (heap.live other member)
  · intro other bound
    rcases Nat.lt_succ_iff_lt_or_eq.mp bound with old | new
    · have state := heap.state other old
      simp only [CronState.create, Function.update_of_ne (Nat.ne_of_lt old)]
      omega
    · subst new
      simp [CronState.create]
  · intro other bound
    rcases Nat.lt_succ_iff_lt_or_eq.mp bound with old | new
    · have unchanged : (s.create record).jobs other = s.jobs other := by
        simp [CronState.create, Function.update_of_ne (Nat.ne_of_lt old)]
      rw [unchanged, ids _ (heap.state other old), ids other old, heap.owner other old]
    · subst new
      simp [CronState.create]

/-! ## Loading and saving -/

section Loading

/-- Loading the records leaves older objects alone. -/
theorem createAll_recordOf (records : List JobRecord) (s : CronState) (bound : job < s.created)
    (state : (s.jobs job).state < s.created) :
    (CronState.createAll records s).recordOf job = s.recordOf job := by
  induction records generalizing s with
  | nil => rfl
  | cons record rest ih =>
    have unchanged : (s.create record).jobs job = s.jobs job := by
      simp [CronState.create, Function.update_of_ne (Nat.ne_of_lt bound)]
    rw [CronState.createAll, ih _ (Nat.lt_succ_of_lt bound)]
    · unfold CronState.recordOf CronState.nextRun
      rw [unchanged]
      simp [CronState.create, Function.update_of_ne (Nat.ne_of_lt state)]
    · rw [unchanged]
      exact Nat.lt_succ_of_lt state

theorem createAll_records (records : List JobRecord) (s : CronState) :
    (List.range' s.created records.length).map (CronState.createAll records s).recordOf =
      records := by
  induction records generalizing s with
  | nil => rfl
  | cons record rest ih =>
    have head : (CronState.createAll rest (s.create record)).recordOf s.created = record := by
      rw [createAll_recordOf]
      · simp [CronState.create, CronState.recordOf, CronState.nextRun]
      · exact Nat.lt_succ_self _
      · simp [CronState.create]
    rw [List.length_cons, List.range'_succ, List.map_cons, CronState.createAll, head]
    exact congrArg _ (ih (s.create record))

theorem createAll_created (records : List JobRecord) (s : CronState) :
    (CronState.createAll records s).created = s.created + records.length := by
  induction records generalizing s with
  | nil => rfl
  | cons record rest ih =>
    rw [CronState.createAll, ih, List.length_cons]
    simp only [CronState.create]
    omega

/-- What loading the records does not touch. -/
structure Aside (s s' : CronState) : Prop where
  file : s'.file = s.file
  mtime : s'.mtime = s.mtime
  clock : s'.clock = s.clock
  runningJobs : s'.runningJobs = s.runningJobs
  log : s'.log = s.log

theorem Aside.createAll (records : List JobRecord) (s : CronState) :
    Aside s (CronState.createAll records s) ∧
      (CronState.createAll records s).store = s.store := by
  induction records generalizing s with
  | nil => exact ⟨⟨rfl, rfl, rfl, rfl, rfl⟩, rfl⟩
  | cons record rest ih =>
    obtain ⟨aside, store⟩ := ih (s.create record)
    exact ⟨⟨aside.file, aside.mtime, aside.clock, aside.runningJobs, aside.log⟩, store⟩

theorem Aside.reload (s : CronState) : Aside s s.reload := by
  unfold CronState.reload
  cases file : s.file with
  | none => exact ⟨file.symm, rfl, rfl, rfl, rfl⟩
  | some records =>
    obtain ⟨aside, -⟩ := Aside.createAll records s
    exact ⟨aside.file, aside.mtime, aside.clock, aside.runningJobs, aside.log⟩

theorem Aside.load (s : CronState) : Aside s s.load := by
  unfold CronState.load
  split
  · exact ⟨rfl, rfl, rfl, rfl, rfl⟩
  · exact Aside.reload s

/-- A reload puts the records of the file into the memory. -/
theorem memory_reload (s : CronState) : memory s.reload = some (s.file.getD []) := by
  unfold CronState.reload memory
  cases s.file with
  | none => rfl
  | some records => exact congrArg some (createAll_records records s)

theorem load_cases (s : CronState) :
    (s.store.isSome ∧ s.mtime = s.lastMtime ∧ s.load = s) ∨
      (¬(s.store.isSome ∧ s.mtime = s.lastMtime) ∧ s.load = s.reload) := by
  unfold CronState.load
  by_cases current : s.store.isSome ∧ s.mtime = s.lastMtime
  · exact .inl ⟨current.1, current.2, if_pos current⟩
  · exact .inr ⟨current, if_neg current⟩

/-- Loading does not look at the clock. -/
theorem load_setClock (s : CronState) (clock : Nat) :
    (s.setClock clock).load = s.load.setClock clock := by
  have created : ∀ (records : List JobRecord) (s : CronState),
      CronState.createAll records (s.setClock clock) =
        (CronState.createAll records s).setClock clock := by
    intro records
    induction records with
    | nil => exact fun _ => rfl
    | cons record rest ih => exact fun s => ih (s.create record)
  have reload : (s.setClock clock).reload = s.reload.setClock clock := by
    unfold CronState.reload
    have file : (s.setClock clock).file = s.file := rfl
    rw [file]
    cases s.file with
    | none => rfl
    | some records =>
      simp only [created]
      rfl
  unfold CronState.load
  rw [reload]
  have current : ((s.setClock clock).store.isSome ∧
      (s.setClock clock).mtime = (s.setClock clock).lastMtime) ↔
        (s.store.isSome ∧ s.mtime = s.lastMtime) := Iff.rfl
  by_cases fresh : s.store.isSome ∧ s.mtime = s.lastMtime
  · rw [if_pos fresh, if_pos (current.mpr fresh)]
  · rw [if_neg fresh, if_neg fun held => fresh (current.mp held)]

theorem store_load (s : CronState) : s.load.store.isSome := by
  rcases load_cases s with ⟨loaded, -, same⟩ | ⟨-, reloads⟩
  · rw [same]
    exact loaded
  · rw [reloads]
    unfold CronState.reload
    cases s.file <;> rfl

theorem Grown.createAll (records : List JobRecord) (heap : Heap s) :
    Grown s (CronState.createAll records s) := by
  induction records generalizing s with
  | nil => exact .refl heap
  | cons record rest ih =>
    have first := Grown.create heap record
    exact first.trans (ih first.heap)

theorem Grown.reload (heap : Heap s) : Grown s s.reload := by
  unfold CronState.reload
  cases s.file with
  | none => exact .frame heap rfl rfl (by simp [CronState.storeJobs])
  | some records =>
    have created := Grown.createAll records heap
    refine ⟨⟨?_, created.heap.state, created.heap.owner⟩, created.created, created.sameId⟩
    intro job member
    have within := (List.mem_range'_1.mp member).2
    rw [← createAll_created] at within
    exact within

theorem Grown.load (heap : Heap s) : Grown s s.load := by
  rcases load_cases s with ⟨-, -, same⟩ | ⟨-, reloads⟩
  · rw [same]
    exact .refl heap
  · rw [reloads]
    exact .reload heap

/-- What saving changes: the file has the records of the memory. -/
theorem file_save (s : CronState) : s.save.file = (memory s).or s.file := by
  unfold CronState.save memory
  cases s.store <;> rfl

@[simp] theorem memory_save (s : CronState) : memory s.save = memory s := by
  unfold CronState.save memory
  cases store : s.store with
  | none => simp [store]
  | some jobs => rfl

@[simp] theorem store_save (s : CronState) : s.save.store = s.store := by
  unfold CronState.save
  cases store : s.store with
  | none => exact store
  | some jobs => rfl

@[simp] theorem jobs_save (s : CronState) : s.save.jobs = s.jobs := by
  unfold CronState.save
  cases s.store <;> rfl

@[simp] theorem states_save (s : CronState) : s.save.states = s.states := by
  unfold CronState.save
  cases s.store <;> rfl

@[simp] theorem created_save (s : CronState) : s.save.created = s.created := by
  unfold CronState.save
  cases s.store <;> rfl

@[simp] theorem log_save (s : CronState) : s.save.log = s.log := by
  unfold CronState.save
  cases s.store <;> rfl

@[simp] theorem clock_save (s : CronState) : s.save.clock = s.clock := by
  unfold CronState.save
  cases s.store <;> rfl

@[simp] theorem runningJobs_save (s : CronState) : s.save.runningJobs = s.runningJobs := by
  unfold CronState.save
  cases s.store <;> rfl

theorem synced_save (loaded : s.store.isSome) : s.save.mtime = s.save.lastMtime := by
  unfold CronState.save
  cases store : s.store with
  | none => rw [store] at loaded; cases loaded
  | some jobs => rfl

theorem Grown.save (heap : Heap s) : Grown s s.save :=
  .frame heap (by simp) (by simp) (by simp [CronState.storeJobs])

theorem Grown.note (heap : Heap s) (event : CronEvent) : Grown s (s.note event) :=
  .frame heap rfl rfl fun _ member => member

theorem Grown.setNextRun (heap : Heap s) (time : Option Nat) : Grown s (s.setNextRun job time) :=
  .frame heap rfl rfl fun _ member => member

theorem Grown.drop (heap : Heap s) (id : String) : Grown s (s.drop id) := by
  have jobs : (s.drop id).jobs = s.jobs := rfl
  apply Grown.frame heap jobs rfl
  intro job member
  unfold CronState.drop CronState.storeJobs at member
  unfold CronState.storeJobs
  cases store : s.store with
  | none => rw [store] at member; exact member
  | some jobs =>
    rw [store] at member
    exact (List.mem_filter.mp member).1

/-- Fields other than the id are assigned. -/
theorem Grown.assign (heap : Heap s) (bound : job < s.created) {value : CronJob}
    (sameId : value.id = s.idOf job) (state : value.state = (s.jobs job).state) :
    Grown s (s.setJob job value) := by
  apply Grown.setJob heap sameId
  · rw [state]
    exact heap.state job bound
  · rw [state]
    exact heap.owner job bound

end Loading

/-! ## Executions -/

/-- The execution is taken: nobody executes the job, the store has it, and its slot is due if
the timer asks. -/
structure Takes (s : CronState) (job now : Nat) (caller : Caller) (current : Nat) : Prop where
  idle : s.idOf job ∉ s.runningJobs
  found : s.load.find (s.idOf job) = some current
  due : caller = .timer → (s.load.nextRun current).any (now < ·) = false

/-- `slot_ms`. -/
def slotOf (s : CronState) (current now : Nat) : Nat := (truthy (s.nextRun current)).getD now

/-- The held object takes the fields of the stored one. -/
def sync (s : CronState) (job current : Nat) : CronState :=
  if current = job then s else s.setJob job (s.jobs current)

variable {croniter : Croniter} {caller : Caller} {current : Nat}

/-- The loaded store with the slot consumed. -/
def advanced (croniter : Croniter) (s : CronState) (job now current : Nat) : CronState :=
  let slot := slotOf s current now
  (sync s job current).setNextRun current
    (computeNextRun croniter ((sync s job current).jobs current).schedule slot (some slot))

def begun (s : CronState) (id : String) : CronState :=
  { s with runningJobs := s.runningJobs ++ [id] }

/-- The state after a claim. -/
def taken (croniter : Croniter) (s : CronState) (id : String) (job now : Nat) (caller : Caller)
    (current : Nat) : CronState :=
  ((begun (advanced croniter s job now current) id).note
    (.claimed id (slotOf s current now) now caller)).save

theorem claim_cases (croniter : Croniter) (s : CronState) (job now : Nat) (caller : Caller) :
    (∃ current, Takes s job now caller current ∧
      claim croniter s job now caller =
        (taken croniter s.load (s.idOf job) job now caller current, true)) ∨
    claim croniter s job now caller = (s, false) ∨
    claim croniter s job now caller = (s.load, false) := by
  unfold claim
  by_cases running : s.idOf job ∈ s.runningJobs
  · simp [running]
  · simp only [running, if_false]
    cases found : s.load.find (s.idOf job) with
    | none => simp
    | some current =>
      by_cases late : caller = .timer ∧ (s.load.nextRun current).any (now < ·) = true
      · simp [late]
      · refine .inl ⟨current, ⟨running, found, ?_⟩, ?_⟩
        · intro timer
          exact Bool.eq_false_iff.mpr fun later => late ⟨timer, later⟩
        · simp only [late, if_false]
          unfold taken begun advanced sync slotOf
          split <;> rfl

theorem Grown.recomputeJob (heap : Heap s) : Grown s (recomputeJob croniter now s job) := by
  unfold Source.Cron.recomputeJob
  split
  · split
    · exact .refl heap
    · exact .setNextRun heap _
  · exact .refl heap

theorem Grown.recompute (heap : Heap s) : Grown s (recompute croniter now s) := by
  unfold Source.Cron.recompute
  generalize s.storeJobs = jobs
  induction jobs generalizing s with
  | nil => exact .refl heap
  | cons job rest ih =>
    have first : Grown s (Source.Cron.recomputeJob croniter now s job) := .recomputeJob heap
    exact first.trans (ih first.heap)

theorem Grown.sync (heap : Heap s) (live : current < s.created)
    (same : s.idOf current = s.idOf job) : Grown s (sync s job current) := by
  unfold Cron.sync
  split
  · exact .refl heap
  · apply Grown.setJob heap same (heap.state current live)
    rw [heap.owner current live, same]

theorem Grown.advanced (croniter : Croniter) (now : Nat) (heap : Heap s)
    (found : s.find (s.idOf job) = some current) :
    Grown s (advanced croniter s job now current) := by
  have live := heap.live current (mem_of_find found)
  have synced := Grown.sync heap live (idOf_of_find found)
  exact synced.trans (.setNextRun synced.heap _)

theorem Grown.begun (heap : Heap s) (id : String) : Grown s (begun s id) :=
  .frame heap rfl rfl fun _ member => member

theorem Grown.taken (heap : Heap s) (found : s.find (s.idOf job) = some current) :
    Grown s (taken croniter s id job now caller current) := by
  have slot := Grown.advanced croniter now heap found
  have running := slot.trans (.begun slot.heap id)
  have noted := running.trans (.note running.heap (.claimed id (slotOf s current now) now caller))
  exact noted.trans (.save noted.heap)

theorem Grown.claim (heap : Heap s) (held : job < s.created) :
    Grown s (claim croniter s job now caller).1 := by
  have loaded := Grown.load heap
  rcases claim_cases croniter s job now caller with ⟨current, takes, result⟩ | result | result
  · rw [result]
    have found := takes.found
    rw [← loaded.sameId job held] at found
    exact loaded.trans (.taken loaded.heap found)
  · rw [result]
    exact .refl heap
  · rw [result]
    exact loaded

/-- The job is disabled and has no next run. -/
def retire (s : CronState) (job : Nat) : CronState :=
  (s.setJob job { s.jobs job with enabled := false }).setNextRun job none

theorem Grown.retire (heap : Heap s) (held : job < s.created) : Grown s (retire s job) := by
  have disabled : Grown s (s.setJob job { s.jobs job with enabled := false }) :=
    .assign heap held rfl rfl
  exact disabled.trans (.setNextRun disabled.heap _)

/-- What the last section of an execution does. -/
theorem finish_cases (s : CronState) (job : Nat) :
    finish s job =
      (match (s.jobs job).schedule.oneShot, (s.jobs job).deleteAfterRun with
      | true, true => (s.note (.finished (s.idOf job) true)).drop (s.idOf job)
      | true, false => retire (s.note (.finished (s.idOf job) true)) job
      | false, _ => s.note (.finished (s.idOf job) false)).save := by
  unfold finish
  cases oneShot : (s.jobs job).schedule.oneShot with
  | true =>
    cases delete : (s.jobs job).deleteAfterRun with
    | true => simp [CronState.note, delete]
    | false => simp [CronState.note, delete, retire]
  | false => rfl

theorem Grown.finish (heap : Heap s) (held : job < s.created) : Grown s (finish s job) := by
  rw [finish_cases]
  have noted (oneShot : Bool) := Grown.note heap (.finished (s.idOf job) oneShot)
  split
  · have dropped := (noted true).trans (.drop (noted true).heap (s.idOf job))
    exact dropped.trans (.save dropped.heap)
  · have retired := (noted true).trans (.retire (noted true).heap held)
    exact retired.trans (.save retired.heap)
  · exact (noted false).trans (.save (noted false).heap)

theorem Grown.release (heap : Heap s) : Grown s (release s job) :=
  .frame heap rfl rfl fun _ member => member

/-! ## Edits -/

theorem Grown.append (heap : Heap s) (record : JobRecord) : Grown s (s.append record) := by
  have created := Grown.create heap record
  refine ⟨⟨?_, created.heap.state, created.heap.owner⟩, created.created, created.sameId⟩
  intro job member
  unfold CronState.append CronState.storeJobs at member
  cases store : s.store with
  | none => simp [store] at member
  | some jobs =>
    simp only [store, Option.map_some, Option.getD_some, List.mem_append, List.mem_singleton]
      at member
    rcases member with old | new
    · exact Nat.lt_succ_of_lt (heap.live job (by simpa [CronState.storeJobs, store] using old))
    · rw [new]
      exact Nat.lt_succ_self _

theorem Grown.replace (heap : Heap s) (existing : Nat) (record : JobRecord) :
    Grown s (s.replace existing record) := by
  have created := Grown.create heap record
  refine ⟨⟨?_, created.heap.state, created.heap.owner⟩, created.created, created.sameId⟩
  intro job member
  unfold CronState.replace CronState.storeJobs at member
  cases store : s.store with
  | none => simp [store] at member
  | some jobs =>
    simp only [store, Option.map_some, Option.getD_some, List.mem_map] at member
    obtain ⟨old, within, rfl⟩ := member
    split
    · exact Nat.lt_succ_self _
    · exact Nat.lt_succ_of_lt (heap.live old (by simpa [CronState.storeJobs, store] using within))

theorem Grown.applyEdit {edit : Edit} (heap : Heap s)
    (edited : applyEdit croniter s now edit = some s') : Grown s s' := by
  cases edit with
  | add fields =>
    simp only [Source.Cron.applyEdit, Option.ite_none_left_eq_some, Option.some.injEq] at edited
    obtain ⟨-, result⟩ := edited
    rw [← result]
    have appended := Grown.append heap (addedRecord croniter now fields)
    exact appended.trans (.note appended.heap _)
  | replace id fields enabled =>
    obtain ⟨existing, found, result⟩ := Option.map_eq_some_iff.mp edited
    rw [← result]
    have replaced := Grown.replace heap existing
      (replacedRecord croniter now id fields (enabled.getD (s.jobs existing).enabled))
    exact replaced.trans (.note replaced.heap _)
  | remove id =>
    obtain ⟨job, found, removed⟩ := Option.bind_eq_some_iff.mp edited
    simp only [Option.ite_none_left_eq_some, Option.some.injEq] at removed
    obtain ⟨-, result⟩ := removed
    rw [← result]
    have dropped := Grown.drop heap id
    exact dropped.trans (.note dropped.heap _)
  | enable id enabled =>
    obtain ⟨job, found, result⟩ := Option.map_eq_some_iff.mp edited
    rw [← result]
    have assigned : Grown s (s.setJob job { s.jobs job with enabled }) :=
      .assign heap (heap.live job (mem_of_find found)) rfl rfl
    have written (time : Option Nat) : Grown s ((s.setJob job _).setNextRun job time) :=
      assigned.trans (.setNextRun assigned.heap time)
    dsimp only
    split
    · exact (written _).trans (.note (written _).heap _)
    · exact (written none).trans (.note (written none).heap _)

/-! ## Tasks -/

/-- The job objects a task still uses. -/
def holds : CronTask → List Nat
  | .due jobs => jobs
  | .claiming job _ => [job]
  | .working job awaiter | .breaking job awaiter | .finishing job awaiter
  | .releasing job awaiter _ =>
    match awaiter with
    | .tick rest => job :: rest
    | .runJob => [job]
  | _ => []

theorem dueJobs_live (heap : Heap s) (member : job ∈ dueJobs s now) : job < s.created :=
  heap.live job (List.mem_filter.mp member).1

/-- Everything a task can do. -/
inductive Acts (croniter : Croniter) (s : CronState) (now : Nat) :
    CronTask → CronState → CronTask → Prop where
  | start : Acts croniter s now .start (recompute croniter now (s.load.note .started)) .starting
  | starting : Acts croniter s now .starting s.save .gone
  | tick : Acts croniter s now .tick s.load (.due (dueJobs s.load now))
  | ticked : Acts croniter s now (.due []) s.save .gone
  | due (job : Nat) (rest : List Nat) :
    Acts croniter s now (.due (job :: rest)) (claim croniter s job now .timer).1
      (if (claim croniter s job now .timer).2 then .working job (.tick rest) else .due rest)
  | dismiss (id : String) (force : Bool) : Acts croniter s now (.runJob id force) s.load .gone
  | accept (id : String) (force : Bool) (job : Nat) (found : s.load.find id = some job) :
    Acts croniter s now (.runJob id force) s.load (.claiming job force)
  | claiming (job : Nat) (force : Bool) (caller : Caller)
    (asked : caller = if force then .forced else .manual) :
    Acts croniter s now (.claiming job force) (claim croniter s job now caller).1
      (if (claim croniter s job now caller).2 then .working job .runJob else .gone)
  | succeed (job : Nat) (awaiter : Awaiter) :
    Acts croniter s now (.working job awaiter) s.save (.finishing job awaiter)
  | turn (job : Nat) (awaiter : Awaiter) :
    Acts croniter s now (.working job awaiter) s (.finishing job awaiter)
  | trip (job : Nat) (awaiter : Awaiter) (recurring : (s.jobs job).schedule.oneShot = false) :
    Acts croniter s now (.working job awaiter)
      (s.setJob job { s.jobs job with enabled := false }) (.breaking job awaiter)
  | broken (job : Nat) (awaiter : Awaiter) :
    Acts croniter s now (.breaking job awaiter) s.save (.finishing job awaiter)
  | finish (job : Nat) (awaiter : Awaiter) :
    Acts croniter s now (.finishing job awaiter) (finish s job) (.releasing job awaiter false)
  | abandon (job : Nat) (awaiter : Awaiter) :
    Acts croniter s now (.working job awaiter) s (.releasing job awaiter true)
  | abort (job : Nat) (awaiter : Awaiter) :
    Acts croniter s now (.finishing job awaiter) s (.releasing job awaiter true)
  | release (job : Nat) (awaiter : Awaiter) (aborted : Bool) :
    Acts croniter s now (.releasing job awaiter aborted) (release s job)
      (match awaiter with
      | .tick rest => if aborted then .gone else .due rest
      | .runJob => .gone)
  | edit (edit : Edit) (after : CronState)
    (edited : applyEdit croniter s.load now edit = some after) :
    Acts croniter s now (.editing edit) after .saving
  | ignored (edit : Edit) : Acts croniter s now (.editing edit) s.load .gone
  | saving : Acts croniter s now .saving s.save .gone
  | external (file : Option (List JobRecord)) :
    Acts croniter s now (.external file) ({ s with file, mtime := s.mtime + 1 }.note .external) .gone

theorem act_cases {task after : CronTask} {input : CronInput}
    (acted : act croniter s task input = some (s', after)) :
    Acts croniter s input.now task s' after := by
  cases task with
  | start | starting | tick | breaking job awaiter | releasing job awaiter aborted | saving
  | external file =>
    obtain ⟨rfl, rfl⟩ := Prod.mk.inj (Option.some.inj acted)
    constructor
  | due jobs =>
    cases jobs with
    | nil =>
      obtain ⟨rfl, rfl⟩ := Prod.mk.inj (Option.some.inj acted)
      exact .ticked
    | cons job rest =>
      obtain ⟨rfl, rfl⟩ := Prod.mk.inj (Option.some.inj acted)
      exact .due job rest
  | runJob id force =>
    simp only [act] at acted
    cases found : s.load.find id with
    | none =>
      rw [found] at acted
      obtain ⟨rfl, rfl⟩ := Prod.mk.inj (Option.some.inj acted)
      exact .dismiss id force
    | some job =>
      rw [found] at acted
      obtain ⟨rfl, rfl⟩ := Prod.mk.inj (Option.some.inj acted)
      split
      · exact .accept id force job found
      · exact .dismiss id force
  | claiming job force =>
    obtain ⟨rfl, rfl⟩ := Prod.mk.inj (Option.some.inj acted)
    exact .claiming job force _ rfl
  | working job awaiter =>
    simp only [act] at acted
    cases turn : input.turn with
    | succeeds =>
      rw [turn] at acted
      obtain ⟨rfl, rfl⟩ := Prod.mk.inj (Option.some.inj acted)
      exact .succeed job awaiter
    | ends =>
      rw [turn] at acted
      obtain ⟨rfl, rfl⟩ := Prod.mk.inj (Option.some.inj acted)
      exact .turn job awaiter
    | trips =>
      rw [turn] at acted
      cases oneShot : (s.jobs job).schedule.oneShot with
      | true =>
        simp only [oneShot, if_true, Option.some.injEq, Prod.mk.injEq] at acted
        obtain ⟨rfl, rfl⟩ := acted
        exact .turn job awaiter
      | false =>
        simp only [oneShot, Bool.false_eq_true, if_false, Option.some.injEq, Prod.mk.injEq]
          at acted
        obtain ⟨rfl, rfl⟩ := acted
        exact .trip job awaiter oneShot
    | cancelled =>
      rw [turn] at acted
      obtain ⟨rfl, rfl⟩ := Prod.mk.inj (Option.some.inj acted)
      exact .abandon job awaiter
  | finishing job awaiter =>
    simp only [act] at acted
    split at acted
    · obtain ⟨rfl, rfl⟩ := Prod.mk.inj (Option.some.inj acted)
      exact .abort job awaiter
    · obtain ⟨rfl, rfl⟩ := Prod.mk.inj (Option.some.inj acted)
      exact .finish job awaiter
  | editing edit =>
    simp only [act] at acted
    cases edited : applyEdit croniter s.load input.now edit with
    | none =>
      rw [edited] at acted
      obtain ⟨rfl, rfl⟩ := Prod.mk.inj (Option.some.inj acted)
      exact .ignored edit
    | some result =>
      rw [edited] at acted
      obtain ⟨rfl, rfl⟩ := Prod.mk.inj (Option.some.inj acted)
      exact .edit edit _ edited
  | gone => cases acted

/-- What is held stays allocated. -/
theorem Grown.holds (grown : Grown s s') {jobs jobs' : List Nat}
    (held : ∀ job ∈ jobs, job < s.created) (fewer : ∀ job ∈ jobs', job ∈ jobs) :
    ∀ job ∈ jobs', job < s'.created :=
  fun job member => Nat.lt_of_lt_of_le (held job (fewer job member)) grown.created

/-- A task only adds objects, and those it holds exist. -/
theorem Acts.grown {task after : CronTask} (acts : Acts croniter s now task s' after)
    (heap : Heap s) (held : ∀ job ∈ holds task, job < s.created) :
    Grown s s' ∧ ∀ job ∈ holds after, job < s'.created := by
  have loaded := Grown.load heap
  have empty : ∀ job ∈ ([] : List Nat), job < s'.created := fun _ member => absurd member List.not_mem_nil
  cases acts with
  | start =>
    have noted := loaded.trans (.note loaded.heap .started)
    exact ⟨noted.trans (.recompute noted.heap), empty⟩
  | starting | ticked | saving => exact ⟨.save heap, empty⟩
  | tick => exact ⟨loaded, fun job member => dueJobs_live loaded.heap member⟩
  | due job rest =>
    have claimed : Grown s (claim croniter s job now .timer).1 :=
      .claim heap (held job List.mem_cons_self)
    refine ⟨claimed, claimed.holds held ?_⟩
    split
    · exact fun _ member => member
    · exact fun _ member => List.mem_cons_of_mem _ member
  | dismiss | ignored => exact ⟨loaded, empty⟩
  | accept id force job found =>
    refine ⟨loaded, ?_⟩
    simpa [Cron.holds] using loaded.heap.live job (mem_of_find found)
  | claiming job force caller =>
    have claimed : Grown s (claim croniter s job now caller).1 :=
      .claim heap (held job List.mem_cons_self)
    refine ⟨claimed, claimed.holds held ?_⟩
    split
    · exact fun _ member => member
    · exact fun _ member => absurd member List.not_mem_nil
  | succeed job awaiter | broken job awaiter =>
    have saved := Grown.save heap
    exact ⟨saved, saved.holds held fun _ member => member⟩
  | turn job awaiter | abandon job awaiter | abort job awaiter => exact ⟨.refl heap, held⟩
  | trip job awaiter =>
    have bound : job < s.created := held job (by cases awaiter <;> exact List.mem_cons_self)
    have assigned : Grown s (s.setJob job { s.jobs job with enabled := false }) :=
      .assign heap bound rfl rfl
    exact ⟨assigned, assigned.holds held fun _ member => member⟩
  | finish job awaiter =>
    have bound : job < s.created := held job (by cases awaiter <;> exact List.mem_cons_self)
    have finished : Grown s (Source.Cron.finish s job) := .finish heap bound
    exact ⟨finished, finished.holds held fun _ member => member⟩
  | release job awaiter aborted =>
    have released : Grown s (Source.Cron.release s job) := .release heap
    refine ⟨released, released.holds held ?_⟩
    cases awaiter with
    | runJob => exact fun _ member => absurd member List.not_mem_nil
    | tick rest =>
      dsimp only
      split
      · exact fun _ member => absurd member List.not_mem_nil
      · exact fun _ member => List.mem_cons_of_mem _ member
  | edit edit after edited => exact ⟨loaded.trans (.applyEdit loaded.heap edited), empty⟩
  | external file => exact ⟨.frame heap rfl rfl fun _ member => member, empty⟩

/-! ## The world -/

abbrev World := Tasks.World CronState CronTask
abbrev Choice := Tasks.Choice CronTask CronInput

/-- A process about to start on a file. -/
def initial (file : Option (List JobRecord)) (mtime clock : Nat) : World :=
  { store := { file, mtime, clock } }

/-- What a resumed task does, at its own time. -/
theorem resume_cases {task after : CronTask} {input : CronInput}
    (resumed : resume croniter s task input = some (s', after)) :
    s.clock ≤ input.now ∧
      Acts croniter (s.setClock input.now) input.now task s' after := by
  unfold resume at resumed
  split at resumed
  · cases resumed
  · exact ⟨by omega, act_cases resumed⟩

/-- The objects of the store and of the tasks exist. -/
structure Shaped (w : World) : Prop where
  heap : Heap w.store
  held : ∀ task ∈ w.tasks, ∀ job ∈ holds task, job < w.store.created

theorem Heap.of_none (store : s.store = none) (created : s.created = 0) : Heap s := by
  refine ⟨?_, ?_, ?_⟩
  · unfold CronState.storeJobs
    simp [store]
  · rw [created]
    exact fun _ bound => absurd bound (Nat.not_lt_zero _)
  · rw [created]
    exact fun _ bound => absurd bound (Nat.not_lt_zero _)

theorem Shaped.initial {file : Option (List JobRecord)} {mtime clock : Nat} :
    Shaped (initial file mtime clock) where
  heap := .of_none rfl rfl
  held _ member := absurd member List.not_mem_nil

theorem holds_of_starts {task : CronTask} (starts : starts task = true) : holds task = [] := by
  cases task <;> first | rfl | cases starts

/-- The time of the step is set before the task acts. -/
theorem Heap.setClock (heap : Heap s) (clock : Nat) : Heap (s.setClock clock) :=
  ⟨heap.live, heap.state, heap.owner⟩

theorem Shaped.step {w w' : World} {choice : Choice} (shaped : Shaped w)
    (stepped : (program croniter).step w choice = some w') : Shaped w' := by
  rcases (program croniter).step_cases stepped with
    ⟨task, -, starts, store, tasks⟩ | ⟨index, input, task, after, -, resumes⟩ | ⟨-, restarted, tasks⟩
  · refine ⟨by rw [store]; exact shaped.heap, ?_⟩
    intro other member
    rw [store]
    rw [tasks] at member
    rcases List.mem_append.mp member with old | new
    · exact shaped.held other old
    · rw [List.mem_singleton.mp new, holds_of_starts starts]
      exact fun _ member => absurd member List.not_mem_nil
  · obtain ⟨-, acts⟩ := resume_cases resumes.resumed
    obtain ⟨grown, held⟩ := acts.grown (shaped.heap.setClock _) (shaped.held task resumes.mem)
    refine ⟨grown.heap, ?_⟩
    intro other member
    rcases resumes.mem_after member with new | old
    · rw [new]
      exact held
    · exact grown.holds (shaped.held other old) fun _ member => member
  · have result := Option.some.inj restarted
    refine ⟨by rw [← result]; exact .of_none rfl rfl, ?_⟩
    rw [tasks]
    exact fun _ member => absurd member List.not_mem_nil

end SherryAgent.Contracts.Cron
