import Mathlib.Data.List.DropRight
import SherryAgent.Contracts.Cron

/-!
# Interval jobs keep their grid

`_execute_job` asks for the slot after the one it consumes with that slot as the current
time, so a slot that is already past is not skipped.

* `slots_spaced` — while every claim of a job comes less than one period after its slot, the
  slots grow by multiples of the period and no grid point is run late.
* `late_claim_fires_again` — one late claim, and the next slot is run at once.
-/

namespace SherryAgent.Guarantees.CronIntervals

open SherryAgent.Library SherryAgent.Source.Cron SherryAgent.Contracts.Cron

/-! ## Claims -/

/-- A claim of a job: the slot it consumes and its time. -/
structure Claim where
  slot : Nat
  now : Nat
  deriving DecidableEq

/-- The claims of a job. -/
def claims (id : String) (log : List CronEvent) : List Claim :=
  log.filterMap fun
    | .claimed other slot now _ => if other = id then some ⟨slot, now⟩ else none
    | _ => none

def isStart : CronEvent → Bool
  | .started | .restarted => true
  | _ => false

/-- What happened since the service last started. -/
def sinceStart (log : List CronEvent) : List CronEvent := log.rtakeWhile fun event => !isStart event

/-- The first grid point strictly after the claim. -/
def Claim.gridPoint (claim : Claim) (period : Nat) : Nat :=
  claim.slot + ((claim.now - claim.slot) / period + 1) * period

/-- Slots grow, no claim comes before the grid point after an earlier one, and between two
starts the slots are a whole number of periods apart. -/
structure Spaced (id : String) (period : Nat) (log : List CronEvent) : Prop where
  skips : (claims id log).Pairwise fun first later =>
    first.slot < later.slot ∧ first.gridPoint period ≤ later.now
  phase : (claims id (sinceStart log)).Pairwise fun first later =>
    ∃ k, later.slot = first.slot + k * period

/-- The task does not claim the job a whole period after its slot. -/
def PunctualTask (id : String) (period : Nat) (s : CronState) (now : Nat) : CronTask → Prop
  | .due (job :: _) => s.idOf job = id → id ∉ s.runningJobs → ∀ current ∈ s.load.find id,
      ∀ slot ∈ truthy (s.load.nextRun current), now < slot + period
  | _ => True

/-- The timer claims the job less than one period after its slot. -/
def Punctual (id : String) (period : Nat) (w : World) : Choice → Prop
  | .run index input => ∀ task ∈ w.tasks[index]?, PunctualTask id period w.store input.now task
  | _ => True

/-- Starts, restarts and timer ticks: nobody edits or runs a job. -/
def Unattended : Choice → Prop
  | .spawn .start | .spawn .tick | .run _ _ | .restart => True
  | _ => False

instance (id : String) (period : Nat) (s : CronState) (now : Nat) :
    (task : CronTask) → Decidable (PunctualTask id period s now task)
  | .due (_ :: _) => inferInstanceAs (Decidable (_ → _ → ∀ current ∈ s.load.find id, _))
  | .due [] | .start | .starting | .tick | .runJob _ _ | .claiming _ _ | .working _ _
  | .breaking _ _ | .finishing _ _ | .releasing _ _ _ | .editing _ | .saving | .external _
  | .gone => isTrue trivial

instance (id : String) (period : Nat) (w : World) :
    (choice : Choice) → Decidable (Punctual id period w choice)
  | .run index input =>
    inferInstanceAs (Decidable (∀ task ∈ w.tasks[index]?,
      PunctualTask id period w.store input.now task))
  | .spawn _ | .restart => isTrue trivial

instance : (choice : Choice) → Decidable (Unattended choice)
  | .spawn .start | .spawn .tick | .run _ _ | .restart => isTrue trivial
  | .spawn .starting | .spawn (.due _) | .spawn (.runJob _ _) | .spawn (.claiming _ _)
  | .spawn (.working _ _) | .spawn (.breaking _ _) | .spawn (.finishing _ _)
  | .spawn (.releasing _ _ _) | .spawn (.editing _) | .spawn .saving | .spawn (.external _)
  | .spawn .gone => isFalse fun held => held

/-- The records of the job are on this interval. -/
def OnInterval (id : String) (period : Nat) (file : Option (List JobRecord)) : Prop :=
  ∀ record ∈ file.getD [], record.id = id → record.schedule = .every (some period)

variable {croniter : Croniter} {id : String} {period : Nat} {s s' : CronState} {job : Nat}

theorem claims_append (log : List CronEvent) (event : CronEvent) :
    claims id (log ++ [event]) = claims id log ++ claims id [event] :=
  List.filterMap_append

theorem sinceStart_append {event : CronEvent} (log : List CronEvent)
    (other : isStart event = false) : sinceStart (log ++ [event]) = sinceStart log ++ [event] := by
  unfold sinceStart
  rw [List.rtakeWhile_concat, if_pos (by simpa using other)]

theorem sinceStart_start {event : CronEvent} (log : List CronEvent)
    (start : isStart event = true) : sinceStart (log ++ [event]) = [] := by
  unfold sinceStart
  rw [List.rtakeWhile_concat, if_neg (by simpa using start)]

theorem mem_sinceStart {log : List CronEvent} {claim : Claim}
    (member : claim ∈ claims id (sinceStart log)) : claim ∈ claims id log := by
  obtain ⟨front, whole⟩ := List.rtakeWhile_suffix (fun event => !isStart event) log
  obtain ⟨event, within, found⟩ := List.mem_filterMap.mp member
  apply List.mem_filterMap.mpr
  refine ⟨event, ?_, found⟩
  rw [← whole]
  exact List.mem_append_right _ within

/-! ## The job between two operations -/

/-- The time is set, at least a period after the claim's slot. -/
def Beyond (period : Nat) (claim : Claim) (time : Option Nat) : Prop :=
  ∃ next, time = some next ∧ claim.slot + period ≤ next

/-- The next slot of the job lies beyond its claims, in memory and on file; between two starts
it is on their grid. -/
structure Pace (id : String) (period : Nat) (s : CronState) : Prop where
  made : ∀ claim ∈ claims id s.log,
    claim.slot ≤ claim.now ∧ claim.now < claim.slot + period ∧ claim.now ≤ s.clock
  loaded : ∀ claim ∈ claims id s.log, ∀ job, s.find id = some job →
    Beyond period claim (s.nextRun job)
  filed : ∀ claim ∈ claims id s.log, ∀ record, lookup s.file id = some record →
    Beyond period claim record.nextRunAtMs
  grid : ∀ claim ∈ claims id (sinceStart s.log), ∀ job, s.find id = some job →
    ∃ k, s.nextRun job = some (claim.slot + k * period)
  fresh : s.store = none → claims id (sinceStart s.log) = []
  synced : s.store.isSome → s.mtime = s.lastMtime ∨ (s.file = none ∧ s.find id = none)
  spaced : Spaced id period s.log

/-- Every object and record of the job is on its interval. -/
structure Regular (id : String) (period : Nat) (s : CronState) : Prop where
  objects : ∀ job < s.created, s.idOf job = id → (s.jobs job).schedule = .every (some period)
  file : OnInterval id period s.file

/-- The job is left alone. -/
structure Quiet (id : String) (s s' : CronState) : Prop where
  claims : claims id s'.log = claims id s.log
  since : CronIntervals.claims id (sinceStart s'.log) = CronIntervals.claims id (sinceStart s.log)
  file : s'.file = s.file
  clock : s.clock ≤ s'.clock
  store : s'.store = none → s.store = none
  stamps : s'.store.isSome → s.store.isSome ∧ (s.mtime = s.lastMtime → s'.mtime = s'.lastMtime)
  find : s'.find id = s.find id
  next : ∀ job, s.find id = some job → s'.nextRun job = s.nextRun job

theorem Pace.quiet (pace : Pace id period s) (quiet : Quiet id s s') : Pace id period s' := by
  refine ⟨?_, ?_, ?_, ?_, ?_, ?_, ?_⟩
  · rw [quiet.claims]
    intro claim member
    have made := pace.made claim member
    exact ⟨made.1, made.2.1, Nat.le_trans made.2.2 quiet.clock⟩
  · rw [quiet.claims, quiet.find]
    intro claim member job found
    rw [quiet.next job found]
    exact pace.loaded claim member job found
  · rw [quiet.claims, quiet.file]
    exact pace.filed
  · rw [quiet.since, quiet.find]
    intro claim member job found
    rw [quiet.next job found]
    exact pace.grid claim member job found
  · rw [quiet.since]
    exact fun none => pace.fresh (quiet.store none)
  · intro loaded
    have stamps := quiet.stamps loaded
    rw [quiet.file, quiet.find]
    exact (pace.synced stamps.1).imp_left stamps.2
  · refine ⟨?_, ?_⟩
    · rw [quiet.claims]
      exact pace.spaced.skips
    · rw [quiet.since]
      exact pace.spaced.phase

theorem Quiet.trans {s'' : CronState} (first : Quiet id s s') (second : Quiet id s' s'') :
    Quiet id s s'' where
  claims := second.claims.trans first.claims
  since := second.since.trans first.since
  file := second.file.trans first.file
  clock := Nat.le_trans first.clock second.clock
  store none := first.store (second.store none)
  stamps loaded :=
    have second := second.stamps loaded
    have first := first.stamps second.1
    ⟨first.1, fun synced => second.2 (first.2 synced)⟩
  find := second.find.trans first.find
  next job found := by
    rw [second.next job (by rw [first.find]; exact found), first.next job found]

theorem Quiet.note {event : CronEvent} (other : isStart event = false)
    (unclaimed : CronIntervals.claims id [event] = []) : Quiet id s (s.note event) where
  claims := by
    unfold CronState.note
    rw [claims_append, unclaimed, List.append_nil]
  since := by
    unfold CronState.note
    rw [sinceStart_append _ other, claims_append, unclaimed, List.append_nil]
  file := rfl
  clock := Nat.le_refl _
  store none := none
  stamps loaded := ⟨loaded, fun synced => synced⟩
  find := rfl
  next _ _ := rfl

/-- The objects of other jobs are written. -/
theorem Quiet.of_objects (jobs : s'.storeJobs = s.storeJobs)
    (sameId : ∀ job ∈ s.storeJobs, s'.idOf job = s.idOf job)
    (next : ∀ job, s.find id = some job → s'.nextRun job = s.nextRun job)
    (rest : s'.log = s.log ∧ s'.file = s.file ∧ s'.clock = s.clock ∧ s'.store = s.store ∧
      s'.mtime = s.mtime ∧ s'.lastMtime = s.lastMtime) : Quiet id s s' := by
  obtain ⟨log, file, clock, store, mtime, lastMtime⟩ := rest
  refine ⟨by rw [log], by rw [log], file, Nat.le_of_eq clock.symm, ?_, ?_, ?_, next⟩
  · rw [store]
    exact fun none => none
  · rw [store, mtime, lastMtime]
    exact fun loaded => ⟨loaded, fun synced => synced⟩
  · exact find_congr jobs sameId

theorem Quiet.setNextRun (heap : Heap s) (bound : job < s.created) (other : s.idOf job ≠ id)
    (time : Option Nat) : Quiet id s (s.setNextRun job time) := by
  refine Quiet.of_objects rfl (fun _ _ => rfl) ?_ ⟨rfl, rfl, rfl, rfl, rfl, rfl⟩
  intro found here
  apply nextRun_setNextRun_of_ne heap bound (heap.live found (mem_of_find here))
  rw [idOf_of_find here]
  exact other

theorem Quiet.setJob (other : s.idOf job ≠ id) {value : CronJob}
    (sameId : value.id = s.idOf job) : Quiet id s (s.setJob job value) := by
  refine Quiet.of_objects rfl ?_ ?_ ⟨rfl, rfl, rfl, rfl, rfl, rfl⟩
  · intro found _
    unfold CronState.setJob CronState.idOf
    by_cases here : found = job
    · subst here
      simpa [CronState.idOf] using sameId
    · simp [Function.update_of_ne here]
  · intro found here
    apply nextRun_setJob_of_ne
    intro same
    subst same
    exact other (idOf_of_find here)

/-- Only the flag of a job is written. -/
theorem Quiet.disable : Quiet id s (s.setJob job { s.jobs job with enabled := false }) := by
  refine Quiet.of_objects rfl ?_ ?_ ⟨rfl, rfl, rfl, rfl, rfl, rfl⟩
  · intro found _
    unfold CronState.setJob CronState.idOf
    by_cases here : found = job
    · subst here
      simp
    · simp [Function.update_of_ne here]
  · intro found _
    unfold CronState.setJob CronState.nextRun
    by_cases here : found = job
    · subst here
      simp
    · simp [Function.update_of_ne here]

theorem Quiet.drop {dropped : String} (other : id ≠ dropped) : Quiet id s (s.drop dropped) where
  claims := rfl
  since := rfl
  file := rfl
  clock := Nat.le_refl _
  store none := Option.map_eq_none_iff.mp none
  stamps loaded := ⟨by rw [← Option.isSome_map]; exact loaded, fun synced => synced⟩
  find := find_drop_of_ne other
  next _ _ := rfl

/-! ## One operation -/

/-- Saving brings the file in line with the memory. -/
theorem Pace.of_memory (opened : s.store.isSome)
    (made : ∀ claim ∈ claims id s.log,
      claim.slot ≤ claim.now ∧ claim.now < claim.slot + period ∧ claim.now ≤ s.clock)
    (loaded : ∀ claim ∈ claims id s.log, ∀ job, s.find id = some job →
      Beyond period claim (s.nextRun job))
    (grid : ∀ claim ∈ claims id (sinceStart s.log), ∀ job, s.find id = some job →
      ∃ k, s.nextRun job = some (claim.slot + k * period))
    (spaced : Spaced id period s.log) : Pace id period s.save := by
  have find : s.save.find id = s.find id :=
    find_congr (by simp [CronState.storeJobs]) (by simp [CronState.idOf])
  have next : ∀ job, s.save.nextRun job = s.nextRun job := by simp [CronState.nextRun]
  refine ⟨by simpa using made, ?_, ?_, ?_, ?_, fun _ => .inl (synced_save opened),
    by simpa using spaced⟩
  · rw [log_save, find]
    intro claim member job found
    rw [next]
    exact loaded claim member job found
  · rw [log_save, file_save]
    intro claim member record found
    obtain ⟨jobs, store⟩ := Option.isSome_iff_exists.mp opened
    have held : lookup (memory s) id = some record := by
      simpa [memory, store] using found
    rw [lookup_memory] at held
    obtain ⟨job, here, rfl⟩ := Option.map_eq_some_iff.mp held
    exact loaded claim member job here
  · rw [log_save, find]
    intro claim member job found
    rw [next]
    exact grid claim member job found
  · rw [store_save]
    intro none
    rw [none] at opened
    cases opened

theorem Pace.save (pace : Pace id period s) : Pace id period s.save := by
  cases store : s.store with
  | none =>
    have same : s.save = s := by
      unfold CronState.save
      rw [store]
    rw [same]
    exact pace
  | some jobs =>
    exact .of_memory (by rw [store]; rfl) pace.made pace.loaded pace.grid pace.spaced

theorem Pace.load (pace : Pace id period s) : Pace id period s.load := by
  rcases load_cases s with ⟨-, -, same⟩ | ⟨stale, reloads⟩
  · rw [same]
    exact pace
  · rw [reloads]
    have aside := Aside.reload s
    -- a reload finds the records of the file
    have read : ∀ job, s.reload.find id = some job →
        lookup s.file id = some (s.reload.recordOf job) := by
      intro job found
      have held := lookup_memory s.reload id
      rw [found, memory_reload] at held
      cases file : s.file with
      | none => rw [file] at held; cases held
      | some records => rw [file] at held; exact held
    refine ⟨by rw [aside.log, aside.clock]; exact pace.made, ?_, ?_, ?_, ?_, ?_,
      by rw [aside.log]; exact pace.spaced⟩
    · rw [aside.log]
      intro claim member job found
      exact pace.filed claim member _ (read job found)
    · rw [aside.log, aside.file]
      exact pace.filed
    · rw [aside.log]
      intro claim member job found
      -- only a store that has nothing of the job is replaced
      have none : s.store = none := by
        cases store : s.store with
        | none => rfl
        | some jobs =>
          have loaded : s.store.isSome := by rw [store]; rfl
          rcases pace.synced loaded with synced | ⟨file, -⟩
          · exact absurd ⟨loaded, synced⟩ stale
          · have read := read job found
            rw [file] at read
            cases read
      rw [pace.fresh none] at member
      exact absurd member List.not_mem_nil
    · intro none
      have loaded := store_load s
      rw [reloads, none] at loaded
      cases loaded
    · intro _
      cases file : s.file with
      | none =>
        refine .inr ⟨aside.file.trans file, ?_⟩
        simp [CronState.reload, file, CronState.find, CronState.storeJobs]
      | some records =>
        refine .inl ?_
        simp only [CronState.reload, file]
        exact (Aside.createAll records s).1.mtime

/-- A slot counted from the present lies beyond every claim. -/
theorem Pace.reanchor {now : Nat} (pace : Pace id period s)
    (since : claims id (sinceStart s.log) = []) (time : s.clock ≤ now) :
    Pace id period (s.setNextRun job (some (now + period))) := by
  have next : ∀ other, (s.setNextRun job (some (now + period))).nextRun other = s.nextRun other ∨
      (s.setNextRun job (some (now + period))).nextRun other = some (now + period) := by
    intro other
    unfold CronState.setNextRun CronState.nextRun
    by_cases shared : (s.jobs other).state = (s.jobs job).state
    · exact .inr (by simp [shared])
    · exact .inl (by simp [Function.update_of_ne shared])
  refine ⟨pace.made, ?_, pace.filed, ?_, pace.fresh, pace.synced, pace.spaced⟩
  · intro claim member other found
    rcases next other with same | anchored
    · rw [same]
      exact pace.loaded claim member other found
    · rw [anchored]
      have made := pace.made claim member
      exact ⟨_, rfl, by omega⟩
  · intro claim member
    have here : claim ∈ claims id (sinceStart s.log) := member
    rw [since] at here
    exact absurd here List.not_mem_nil

theorem Pace.recomputeJob {now : Nat} (positive : 0 < period) (heap : Heap s)
    (regular : Regular id period s) (live : job < s.created) (pace : Pace id period s)
    (since : claims id (sinceStart s.log) = []) (time : s.clock ≤ now) :
    Pace id period (recomputeJob croniter now s job) := by
  unfold Source.Cron.recomputeJob
  split
  · split
    · exact pace
    · by_cases here : s.idOf job = id
      · rw [regular.objects job live here, computeNextRun_every positive rfl]
        exact pace.reanchor since time
      · exact pace.quiet (.setNextRun heap live here _)
  · exact pace

/-- What recomputing the slots leaves alone. -/
theorem recomputeJob_frame (croniter : Croniter) (s : CronState) (now job : Nat) :
    (recomputeJob croniter now s job).jobs = s.jobs ∧
    (recomputeJob croniter now s job).created = s.created ∧
    (recomputeJob croniter now s job).log = s.log ∧
    (recomputeJob croniter now s job).clock = s.clock ∧
    (recomputeJob croniter now s job).file = s.file := by
  unfold Source.Cron.recomputeJob
  split
  · split <;> exact ⟨rfl, rfl, rfl, rfl, rfl⟩
  · exact ⟨rfl, rfl, rfl, rfl, rfl⟩

theorem Pace.recompute {now : Nat} (positive : 0 < period) (heap : Heap s)
    (regular : Regular id period s) (pace : Pace id period s)
    (since : claims id (sinceStart s.log) = []) (time : s.clock ≤ now) :
    Pace id period (recompute croniter now s) ∧ Regular id period (recompute croniter now s) := by
  unfold Source.Cron.recompute
  have live := heap.live
  revert live
  generalize s.storeJobs = jobs
  intro live
  induction jobs generalizing s with
  | nil => exact ⟨pace, regular⟩
  | cons job rest ih =>
    obtain ⟨jobs, created, log, clock, file⟩ := recomputeJob_frame croniter s now job
    apply ih (Grown.recomputeJob heap).heap
    · refine ⟨?_, by rw [file]; exact regular.file⟩
      unfold CronState.idOf
      rw [jobs, created]
      exact regular.objects
    · exact pace.recomputeJob positive heap regular (live job List.mem_cons_self) since time
    · rw [log]
      exact since
    · rw [clock]
      exact time
    · rw [created]
      exact fun other member => live other (List.mem_cons_of_mem _ member)

/-! ## One claim -/

/-- The claim of another job. -/
theorem Quiet.sync {current : Nat} (other : s.idOf job ≠ id)
    (same : s.idOf current = s.idOf job) : Quiet id s (sync s job current) := by
  unfold Contracts.Cron.sync
  split
  · exact .of_objects rfl (fun _ _ => rfl) (fun _ _ => rfl) ⟨rfl, rfl, rfl, rfl, rfl, rfl⟩
  · exact .setJob other same

theorem Pace.taken_other {current now : Nat} {caller : Caller} (heap : Heap s)
    (pace : Pace id period s) (other : s.idOf job ≠ id)
    (found : s.find (s.idOf job) = some current) :
    Pace id period (taken croniter s (s.idOf job) job now caller current) := by
  have live := heap.live current (mem_of_find found)
  have same := idOf_of_find found
  have synced := Grown.sync heap live same
  have quiet : Quiet id s (advanced croniter s job now current) := by
    apply (Quiet.sync other same).trans
    apply Quiet.setNextRun synced.heap (Nat.lt_of_lt_of_le live synced.created)
    rw [synced.sameId current live, same]
    exact other
  unfold taken
  apply Pace.save
  apply pace.quiet
  apply quiet.trans
  have begun : Quiet id (advanced croniter s job now current)
      (begun (advanced croniter s job now current) (s.idOf job)) :=
    .of_objects rfl (fun _ _ => rfl) (fun _ _ => rfl) ⟨rfl, rfl, rfl, rfl, rfl, rfl⟩
  exact begun.trans (.note rfl (by simp [claims, other]))

/-- A claim in time consumes a slot that has come, beyond the earlier claims and on their
grid. -/
theorem Pace.slot {current now : Nat} (positive : 0 < period) (pace : Pace id period s)
    (found : s.find id = some current) (due : (s.nextRun current).any (now < ·) = false)
    (timely : ∀ slot, truthy (s.nextRun current) = some slot → now < slot + period) :
    slotOf s current now ≤ now ∧ now < slotOf s current now + period ∧
    (∀ claim ∈ claims id s.log, claim.slot + period ≤ slotOf s current now) ∧
    (∀ claim ∈ claims id (sinceStart s.log), ∃ k, slotOf s current now = claim.slot + k * period) := by
  have value : ∀ next, s.nextRun current = some next → 0 < next →
      slotOf s current now = next := by
    intro next set later
    unfold slotOf
    rw [set, truthy_of_pos later]
    rfl
  refine ⟨?_, ?_, ?_, ?_⟩
  · unfold slotOf
    cases slot : truthy (s.nextRun current) with
    | none => exact Nat.le_refl _
    | some slot' =>
      obtain ⟨set, -⟩ := Option.filter_eq_some_iff.mp slot
      rw [set] at due
      simpa using due
  · unfold slotOf
    cases slot : truthy (s.nextRun current) with
    | none =>
      simp only [Option.getD_none]
      omega
    | some slot' => exact timely slot' slot
  · intro claim member
    obtain ⟨next, set, beyond⟩ := pace.loaded claim member current found
    rw [value next set (by omega)]
    exact beyond
  · intro claim member
    obtain ⟨k, set⟩ := pace.grid claim member current found
    obtain ⟨next, set', beyond⟩ := pace.loaded claim (mem_sinceStart member) current found
    refine ⟨k, ?_⟩
    rw [value next set' (by omega)]
    exact Option.some.inj (set'.symm.trans set)

theorem advanced_own {current : Nat} (croniter : Croniter) (now : Nat) (positive : 0 < period) (heap : Heap s)
    (regular : Regular id period s) (found : s.find id = some current)
    (here : s.idOf job = id) :
    (advanced croniter s job now current).find id = some current ∧
    (advanced croniter s job now current).nextRun current =
      some (slotOf s current now + period) := by
  have live := heap.live current (mem_of_find found)
  have same : s.idOf current = s.idOf job := (idOf_of_find found).trans here.symm
  have grown := Grown.sync heap live same
  have unchanged : (sync s job current).jobs current = s.jobs current := by
    unfold sync
    split
    · rfl
    · rename_i apart
      simp [CronState.setJob, Function.update_of_ne apart]
  have jobs : (sync s job current).storeJobs = s.storeJobs := by
    unfold sync
    split <;> rfl
  unfold advanced
  refine ⟨?_, ?_⟩
  · rw [← found]
    exact find_congr jobs fun other member => grown.sameId other (heap.live other member)
  · dsimp only
    rw [nextRun_setNextRun, unchanged, regular.objects current live (idOf_of_find found)]
    exact computeNextRun_every positive (truthy_some_getD _)

theorem gridPoint_of_punctual {claim : Claim} (from_slot : claim.slot ≤ claim.now)
    (timely : claim.now < claim.slot + period) : claim.gridPoint period = claim.slot + period := by
  unfold Claim.gridPoint
  rw [Nat.div_eq_of_lt (by omega)]
  omega

theorem advanced_frame (croniter : Croniter) (s : CronState) (job now current : Nat) :
    (advanced croniter s job now current).log = s.log ∧
    (advanced croniter s job now current).file = s.file ∧
    (advanced croniter s job now current).clock = s.clock ∧
    (advanced croniter s job now current).store = s.store ∧
    (advanced croniter s job now current).mtime = s.mtime ∧
    (advanced croniter s job now current).lastMtime = s.lastMtime := by
  unfold advanced sync
  split <;> exact ⟨rfl, rfl, rfl, rfl, rfl, rfl⟩

theorem Pace.taken_own {current now : Nat} {caller : Caller} (positive : 0 < period)
    (heap : Heap s) (regular : Regular id period s) (pace : Pace id period s)
    (here : s.idOf job = id) (found : s.find id = some current) (time : s.clock = now)
    (due : (s.nextRun current).any (now < ·) = false)
    (timely : ∀ slot, truthy (s.nextRun current) = some slot → now < slot + period) :
    Pace id period (taken croniter s id job now caller current) := by
  obtain ⟨come, late, beyond, grid⟩ := pace.slot positive found due timely
  obtain ⟨find, next⟩ := advanced_own croniter now positive heap regular found here
  obtain ⟨log, file, clock, store, mtime, lastMtime⟩ :=
    advanced_frame croniter s job now current
  unfold taken
  generalize taking : (begun (advanced croniter s job now current) id).note
    (.claimed id (slotOf s current now) now caller) = after
  have made : claims id after.log = claims id s.log ++ [⟨slotOf s current now, now⟩] := by
    rw [← taking]
    unfold CronState.note begun
    rw [log, claims_append]
    simp [claims]
  have since : claims id (sinceStart after.log) =
      claims id (sinceStart s.log) ++ [⟨slotOf s current now, now⟩] := by
    rw [← taking]
    unfold CronState.note begun
    rw [log, sinceStart_append _ rfl, claims_append]
    simp [claims]
  have only : ∀ other, after.find id = some other →
      after.nextRun other = some (slotOf s current now + period) := by
    rw [← taking]
    intro other reached
    have same : (advanced croniter s job now current).find id = some other := reached
    rw [find] at same
    rw [← Option.some.inj same]
    exact next
  have beyond' : ∀ claim ∈ claims id after.log,
      claim.slot + period ≤ slotOf s current now + period := by
    rw [made]
    intro claim member
    rcases List.mem_append.mp member with old | new
    · have := beyond claim old
      omega
    · rw [List.mem_singleton.mp new]
  apply Pace.of_memory
  · rw [← taking]
    have store' : ((begun (advanced croniter s job now current) id).note
      (.claimed id (slotOf s current now) now caller)).store = s.store := store
    rw [store']
    exact store_of_find found
  · rw [made, ← taking]
    intro claim member
    have clock' : ((begun (advanced croniter s job now current) id).note
      (.claimed id (slotOf s current now) now caller)).clock = now := clock.trans time
    rw [clock']
    rcases List.mem_append.mp member with old | new
    · rw [← time]
      exact pace.made claim old
    · rw [List.mem_singleton.mp new]
      exact ⟨come, late, Nat.le_refl _⟩
  · intro claim member other reached
    exact ⟨_, only other reached, beyond' claim member⟩
  · rw [since]
    intro claim member other reached
    rw [only other reached]
    rcases List.mem_append.mp member with old | new
    · obtain ⟨k, slot⟩ := grid claim old
      exact ⟨k + 1, by rw [slot, Nat.add_mul, Nat.one_mul, Nat.add_assoc]⟩
    · rw [List.mem_singleton.mp new]
      exact ⟨1, by rw [Nat.one_mul]⟩
  · constructor
    · rw [made]
      apply List.pairwise_append.mpr
      refine ⟨pace.spaced.skips, List.pairwise_singleton _ _, ?_⟩
      intro first old later new
      rw [List.mem_singleton.mp new]
      have earlier := pace.made first old
      have reached := beyond first old
      rw [gridPoint_of_punctual earlier.1 earlier.2.1]
      dsimp only
      omega
    · rw [since]
      apply List.pairwise_append.mpr
      refine ⟨pace.spaced.phase, List.pairwise_singleton _ _, ?_⟩
      intro first old later new
      rw [List.mem_singleton.mp new]
      exact grid first old

theorem Pace.finish (heap : Heap s) (regular : Regular id period s) (held : job < s.created)
    (pace : Pace id period s) : Pace id period (finish s job) := by
  rw [finish_cases]
  apply Pace.save
  have noted (oneShot : Bool) : Quiet id s (s.note (.finished (s.idOf job) oneShot)) :=
    .note rfl rfl
  have other (oneShot : (s.jobs job).schedule.oneShot = true) : s.idOf job ≠ id := by
    intro here
    rw [regular.objects job held here] at oneShot
    cases oneShot
  split
  · rename_i oneShot _
    exact pace.quiet ((noted true).trans (.drop (other oneShot).symm))
  · rename_i oneShot _
    have disabled : Quiet id s ((s.note (.finished (s.idOf job) true)).setJob job
        { s.jobs job with enabled := false }) := (noted true).trans .disable
    have grown := Grown.note heap (.finished (s.idOf job) true)
    have assigned : Grown (s.note (.finished (s.idOf job) true))
        ((s.note (.finished (s.idOf job) true)).setJob job { s.jobs job with enabled := false }) :=
      .assign grown.heap held rfl rfl
    apply pace.quiet
    apply disabled.trans
    apply Quiet.setNextRun assigned.heap (Nat.lt_of_lt_of_le held assigned.created)
    rw [assigned.sameId job held]
    exact other oneShot
  · exact pace.quiet (noted false)

/-! ## The schedules -/

theorem Regular.frame (regular : Regular id period s) (jobs : s'.jobs = s.jobs)
    (created : s'.created = s.created) (file : s'.file = s.file) : Regular id period s' := by
  refine ⟨?_, by rw [file]; exact regular.file⟩
  unfold CronState.idOf
  rw [jobs, created]
  exact regular.objects

theorem Regular.setJob (regular : Regular id period s) {value : CronJob}
    (sameId : value.id = s.idOf job)
    (schedule : s.idOf job = id → value.schedule = .every (some period)) :
    Regular id period (s.setJob job value) := by
  refine ⟨?_, regular.file⟩
  intro other bound
  unfold CronState.setJob CronState.idOf
  by_cases here : other = job
  · subst here
    simpa [sameId] using schedule
  · simpa [Function.update_of_ne here, CronState.idOf] using regular.objects other bound

theorem Regular.sync {current : Nat} (regular : Regular id period s) (live : current < s.created)
    (same : s.idOf current = s.idOf job) : Regular id period (sync s job current) := by
  unfold Contracts.Cron.sync
  split
  · exact regular
  · exact regular.setJob same fun here => regular.objects current live (same.trans here)

theorem Regular.save (heap : Heap s) (regular : Regular id period s) :
    Regular id period s.save := by
  refine ⟨?_, ?_⟩
  · rw [created_save]
    unfold CronState.idOf
    rw [jobs_save]
    exact regular.objects
  · unfold OnInterval
    rw [file_save]
    unfold memory
    cases store : s.store with
    | none => exact regular.file
    | some jobs =>
      intro record member here
      obtain ⟨job, within, rfl⟩ := List.mem_map.mp member
      have live : job < s.created := by
        apply heap.live
        simpa [CronState.storeJobs, store] using within
      exact regular.objects job live here

theorem Regular.createAll (records : List JobRecord) (regular : Regular id period s)
    (schedules : ∀ record ∈ records, record.id = id → record.schedule = .every (some period)) :
    Regular id period (CronState.createAll records s) := by
  induction records generalizing s with
  | nil => exact regular
  | cons record rest ih =>
    apply ih _ fun other member => schedules other (List.mem_cons_of_mem _ member)
    refine ⟨?_, regular.file⟩
    intro job bound
    unfold CronState.create CronState.idOf
    rcases Nat.lt_succ_iff_lt_or_eq.mp bound with old | new
    · simpa [Function.update_of_ne (Nat.ne_of_lt old), CronState.idOf] using
        regular.objects job old
    · subst new
      simpa using schedules record List.mem_cons_self

theorem Regular.load (regular : Regular id period s) : Regular id period s.load := by
  rcases load_cases s with ⟨-, -, same⟩ | ⟨-, reloads⟩
  · rw [same]
    exact regular
  · rw [reloads]
    have aside := Aside.reload s
    refine ⟨?_, by rw [aside.file]; exact regular.file⟩
    unfold CronState.reload
    cases file : s.file with
    | none => exact regular.objects
    | some records =>
      have schedules := regular.file
      rw [file] at schedules
      exact (regular.createAll records schedules).objects

theorem Regular.taken {current now : Nat} {caller : Caller} (heap : Heap s)
    (regular : Regular id period s) (found : s.find (s.idOf job) = some current) :
    Regular id period (taken croniter s (s.idOf job) job now caller current) := by
  have live := heap.live current (mem_of_find found)
  have same := idOf_of_find found
  unfold Contracts.Cron.taken
  apply Regular.save
  · have slot := Grown.advanced croniter now heap found
    exact (((Grown.begun slot.heap _).trans (.note (Grown.begun slot.heap _).heap _))).heap
  · exact (regular.sync live same).frame rfl rfl rfl

theorem Regular.finish (heap : Heap s) (regular : Regular id period s) (held : job < s.created) :
    Regular id period (finish s job) := by
  rw [finish_cases]
  have noted (oneShot : Bool) := Grown.note heap (.finished (s.idOf job) oneShot)
  split
  · exact .save (Grown.drop (noted true).heap _).heap (regular.frame rfl rfl rfl)
  · apply Regular.save (Grown.retire (noted true).heap held).heap
    have disabled : Regular id period (s.setJob job { s.jobs job with enabled := false }) :=
      regular.setJob rfl (regular.objects job held)
    exact disabled.frame rfl rfl rfl
  · exact .save (noted false).heap (regular.frame rfl rfl rfl)

/-! ## Runs -/

/-- A task that only a start or a tick leads to. -/
def timed : CronTask → Bool
  | .runJob _ _ | .claiming _ _ | .editing _ | .saving | .external _ => false
  | _ => true

structure Inv (id : String) (period : Nat) (w : World) : Prop where
  shaped : Shaped w
  timed : ∀ task ∈ w.tasks, timed task = true
  regular : Regular id period w.store
  pace : Pace id period w.store

theorem Pace.claim {now : Nat} (positive : 0 < period) (heap : Heap s) (held : job < s.created)
    (regular : Regular id period s) (pace : Pace id period s) (time : s.clock = now)
    (timely : ∀ current slot, s.idOf job = id → id ∉ s.runningJobs →
      s.load.find id = some current → truthy (s.load.nextRun current) = some slot →
        now < slot + period) :
    Regular id period (claim croniter s job now .timer).1 ∧
      Pace id period (claim croniter s job now .timer).1 := by
  rcases claim_cases croniter s job now .timer with ⟨current, takes, result⟩ | result | result
  · rw [result]
    have loaded := Grown.load heap
    have sameId := loaded.sameId job held
    have found := takes.found
    rw [← sameId] at found ⊢
    refine ⟨regular.load.taken loaded.heap found, ?_⟩
    by_cases here : s.idOf job = id
    · rw [sameId, here] at found ⊢
      apply pace.load.taken_own positive loaded.heap regular.load (sameId.trans here) found _
        (takes.due rfl) fun slot set => timely current slot here (here ▸ takes.idle) found set
      rw [(Aside.load s).clock]
      exact time
    · exact pace.load.taken_other loaded.heap (by rw [sameId]; exact here) found
  · rw [result]
    exact ⟨regular, pace⟩
  · rw [result]
    exact ⟨regular.load, pace.load⟩

theorem Pace.start {now : Nat} (positive : 0 < period) (heap : Heap s)
    (regular : Regular id period s) (pace : Pace id period s) (time : s.clock = now) :
    Pace id period (Source.Cron.recompute croniter now (s.load.note .started)) ∧
      Regular id period (Source.Cron.recompute croniter now (s.load.note .started)) := by
  have loaded := Grown.load heap
  have started : Pace id period (s.load.note .started) := by
    have same : claims id (s.load.note .started).log = claims id s.load.log := by
      unfold CronState.note
      rw [claims_append]
      simp [claims]
    have since : claims id (sinceStart (s.load.note .started).log) = [] := by
      unfold CronState.note
      rw [sinceStart_start _ rfl]
      rfl
    have pace := pace.load
    refine ⟨by rw [same]; exact pace.made, by rw [same]; exact pace.loaded,
      by rw [same]; exact pace.filed, by simp [since], fun _ => since, pace.synced, ?_⟩
    exact ⟨by rw [same]; exact pace.spaced.skips, by simp [since]⟩
  apply started.recompute positive (loaded.trans (.note loaded.heap .started)).heap
  · exact regular.load.frame rfl rfl rfl
  · unfold CronState.note
    rw [sinceStart_start _ rfl]
    rfl
  · have clock : (s.load.note .started).clock = s.clock := (Aside.load s).clock
    rw [clock]
    omega

theorem Pace.acts {now : Nat} {task after : CronTask} (acts : Acts croniter s now task s' after)
    (positive : 0 < period) (heap : Heap s) (held : ∀ job ∈ holds task, job < s.created)
    (regular : Regular id period s) (pace : Pace id period s) (time : s.clock = now)
    (auto : CronIntervals.timed task = true)
    (timely : ∀ job rest current slot, task = .due (job :: rest) → s.idOf job = id →
      id ∉ s.runningJobs → s.load.find id = some current →
        truthy (s.load.nextRun current) = some slot → now < slot + period) :
    Regular id period s' ∧ Pace id period s' ∧ CronIntervals.timed after = true := by
  cases acts with
  | start =>
    obtain ⟨paced, regular'⟩ := pace.start positive heap regular time
    exact ⟨regular', paced, rfl⟩
  | starting | ticked => exact ⟨regular.save heap, pace.save, rfl⟩
  | tick => exact ⟨regular.load, pace.load, rfl⟩
  | due job rest =>
    obtain ⟨regular', paced⟩ := pace.claim positive heap (held job List.mem_cons_self) regular time
      fun current slot => timely job rest current slot rfl
    refine ⟨regular', paced, ?_⟩
    split <;> rfl
  | dismiss | accept | claiming | edit | ignored | saving | external => cases auto
  | succeed job awaiter | broken job awaiter => exact ⟨regular.save heap, pace.save, rfl⟩
  | turn job awaiter | abandon job awaiter | abort job awaiter => exact ⟨regular, pace, rfl⟩
  | trip job awaiter =>
    have bound : job < s.created := held job (by cases awaiter <;> exact List.mem_cons_self)
    exact ⟨regular.setJob rfl (regular.objects job bound), pace.quiet .disable, rfl⟩
  | finish job awaiter =>
    have bound : job < s.created := held job (by cases awaiter <;> exact List.mem_cons_self)
    exact ⟨regular.finish heap bound, pace.finish heap regular bound, rfl⟩
  | release job awaiter aborted =>
    refine ⟨regular.frame rfl rfl rfl, ?_, ?_⟩
    · have noted : Quiet id s (s.note (.released (s.idOf job))) := .note rfl rfl
      apply pace.quiet (noted.trans _)
      exact .of_objects rfl (fun _ _ => rfl) (fun _ _ => rfl) ⟨rfl, rfl, rfl, rfl, rfl, rfl⟩
    · cases awaiter with
      | runJob => rfl
      | tick rest => cases aborted <;> rfl

theorem Inv.initial {file : Option (List JobRecord)} {mtime clock : Nat}
    (onInterval : OnInterval id period file) : Inv id period (initial file mtime clock) where
  shaped := .initial
  timed _ member := absurd member List.not_mem_nil
  regular := ⟨fun _ bound => absurd bound (Nat.not_lt_zero _), onInterval⟩
  pace :=
    { made := fun _ member => absurd member List.not_mem_nil
      loaded := fun _ member => absurd member List.not_mem_nil
      filed := fun _ member => absurd member List.not_mem_nil
      grid := fun _ member => absurd member List.not_mem_nil
      fresh := fun _ => rfl
      synced := fun loaded => absurd loaded Bool.false_ne_true
      spaced := ⟨List.Pairwise.nil, List.Pairwise.nil⟩ }

theorem Inv.step {w w' : World} {choice : Choice} (positive : 0 < period) (inv : Inv id period w)
    (alone : Unattended choice) (timely : Punctual id period w choice)
    (stepped : (program croniter).step w choice = some w') : Inv id period w' := by
  have shaped := inv.shaped.step stepped
  rcases (program croniter).step_cases stepped with
    ⟨task, spawned, -, store, tasks⟩ | ⟨index, input, task, after, ran, resumes⟩ |
      ⟨-, restarted, tasks⟩
  · subst spawned
    refine ⟨shaped, ?_, by rw [store]; exact inv.regular, by rw [store]; exact inv.pace⟩
    rw [tasks]
    intro other member
    rcases List.mem_append.mp member with old | new
    · exact inv.timed other old
    · rw [List.mem_singleton.mp new]
      cases task with
      | start | tick => rfl
      | _ => cases alone
  · subst ran
    obtain ⟨time, acts⟩ := resume_cases resumes.resumed
    have clock : Quiet id w.store (w.store.setClock input.now) :=
      ⟨rfl, rfl, rfl, time, fun none => none, fun loaded => ⟨loaded, fun synced => synced⟩, rfl,
        fun _ _ => rfl⟩
    have timely' : ∀ job rest current slot, task = .due (job :: rest) →
        (w.store.setClock input.now).idOf job = id →
        id ∉ (w.store.setClock input.now).runningJobs →
        (w.store.setClock input.now).load.find id = some current →
        truthy ((w.store.setClock input.now).load.nextRun current) = some slot →
          input.now < slot + period := by
      rw [load_setClock]
      intro job rest current slot due here idle found set
      have punctual := timely task resumes.at_index
      rw [due] at punctual
      exact punctual here idle current found slot set
    obtain ⟨regular, pace, auto⟩ := (inv.pace.quiet clock).acts acts positive
      (inv.shaped.heap.setClock _) (inv.shaped.held task resumes.mem)
      (inv.regular.frame rfl rfl rfl) rfl (inv.timed task resumes.mem) timely'
    refine ⟨shaped, ?_, regular, pace⟩
    intro other member
    rcases resumes.mem_after member with new | old
    · rw [new]
      exact auto
    · exact inv.timed other old
  · have result := Option.some.inj restarted
    have log : w'.store.log = w.store.log ++ [.restarted] := by rw [← result]; rfl
    have file : w'.store.file = w.store.file := by rw [← result]; rfl
    have clock : w'.store.clock = w.store.clock := by rw [← result]; rfl
    have none : w'.store.store = none := by rw [← result]; rfl
    have created : w'.store.created = 0 := by rw [← result]; rfl
    have same : claims id w'.store.log = claims id w.store.log := by
      rw [log, claims_append]
      simp [claims]
    have since : claims id (sinceStart w'.store.log) = [] := by
      rw [log, sinceStart_start _ rfl]
      rfl
    have lost : w'.store.find id = Option.none := by
      simp [CronState.find, CronState.storeJobs, none]
    refine ⟨shaped, by simp [tasks], ⟨by simp [created], by rw [file]; exact inv.regular.file⟩, ?_⟩
    refine ⟨by rw [same, clock]; exact inv.pace.made, by simp [lost],
      by rw [same, file]; exact inv.pace.filed, by simp [since], fun _ => since, by simp [none], ?_⟩
    exact ⟨by rw [same]; exact inv.pace.spaced.skips, by simp [since]⟩

/-- **Fixed-phase intervals.** In every run of starts, restarts and timer ticks, at any times
and with executions of any duration, in which the timer claims the job less than one period
after its slot: the slots grow, two slots between starts are a whole number of periods apart,
and after a claim the job is not claimed before the first grid point past it. -/
theorem slots_spaced {croniter : Croniter} {id : String} {period mtime clock : Nat}
    {file : Option (List JobRecord)} {w : World} (positive : 0 < period)
    (onInterval : OnInterval id period file)
    (run : (program croniter).Runs
      (fun w choice => Unattended choice ∧ Punctual id period w choice) (initial file mtime clock) w) : Spaced id period w.store.log := by
  have inv : Inv id period w :=
    run.invariant (Inv id period) (.initial onInterval)
      fun _ _ _ inv allowed stepped => inv.step positive allowed.1 allowed.2 stepped
  exact inv.pace.spaced

/-! ## One job -/

def minutely : JobRecord :=
  { id := "j", schedule := .every (some 60), nextRunAtMs := some 60 }

/-- The service starts and a tick at the given time executes the job. -/
def execution (start tick : Nat) : List Choice :=
  [.spawn .start, .run 0 { now := start }, .run 0 { now := start }, .spawn .tick,
    .run 1 { now := tick }, .run 1 { now := tick }, .run 1 { now := tick },
    .run 1 { now := tick }, .run 1 { now := tick }, .run 1 { now := tick }]

/-- A second tick that executes it. -/
def nextTick (tick : Nat) : List Choice :=
  [.spawn .tick, .run 2 { now := tick }, .run 2 { now := tick }]

theorem slots_spaced_twice :
    ∃ w, (program fun _ _ _ => none).Runs
      (fun w choice => Unattended choice ∧ Punctual "j" 60 w choice)
      (initial (some [minutely]) 1 0) w ∧
      claims "j" w.store.log = [⟨60, 65⟩, ⟨120, 170⟩] ∧ Spaced "j" 60 w.store.log := by
  have played : (Machine.play (program fun _ _ _ => none).step
      (fun w choice => decide (Unattended choice ∧ Punctual "j" 60 w choice))
      (initial (some [minutely]) 1 0) (execution 10 65 ++ nextTick 170)).any
      (fun w => decide (claims "j" w.store.log = [⟨60, 65⟩, ⟨120, 170⟩])) = true := by
    decide +kernel
  obtain ⟨w, run, test⟩ := Machine.Runs.exists_of_play played
  have punctual : (program fun _ _ _ => none).Runs
      (fun w choice => Unattended choice ∧ Punctual "j" 60 w choice)
      (initial (some [minutely]) 1 0) w :=
    run.mono fun _ _ allowed => of_decide_eq_true allowed
  exact ⟨w, punctual, of_decide_eq_true test, slots_spaced (by decide) (by
    intro record member _
    rw [List.mem_singleton.mp member]
    rfl) punctual⟩

/-- The slot of 60 is claimed at 210; the slot of 120 is claimed at once after it, before the
grid point 240. -/
theorem late_claim_fires_again :
    ∃ w, (program fun _ _ _ => none).Runs (fun _ choice => Unattended choice)
      (initial (some [minutely]) 1 0) w ∧ OnInterval "j" 60 (some [minutely]) ∧
      ¬Spaced "j" 60 w.store.log := by
  have played : (Machine.play (program fun _ _ _ => none).step
      (fun _ choice => decide (Unattended choice))
      (initial (some [minutely]) 1 0) (execution 10 210 ++ nextTick 210)).any
      (fun w => decide (claims "j" w.store.log = [⟨60, 210⟩, ⟨120, 210⟩])) = true := by
    decide +kernel
  obtain ⟨w, run, test⟩ := Machine.Runs.exists_of_play played
  have made := of_decide_eq_true test
  refine ⟨w, run.mono fun _ _ allowed => of_decide_eq_true allowed, ?_, ?_⟩
  · intro record member _
    rw [List.mem_singleton.mp member]
    rfl
  · intro spaced
    have skips := spaced.skips
    rw [made] at skips
    have late := (List.pairwise_cons.mp skips).1 ⟨120, 210⟩ List.mem_cons_self
    exact absurd late.2 (by decide)

end SherryAgent.Guarantees.CronIntervals
