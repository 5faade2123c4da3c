import Mathlib.Algebra.Order.Group.Nat
import SherryAgent.Source.Runtime.Lane

/-!
# Conservation of a lane's slots

The permits of a lane, free or handed to a caller that has not run yet, and its
active slots make up the limit. Every operation of the semaphore keeps their sum;
a replacement of the semaphore keeps it exactly when it finds a free slot under
the new limit, and else issues one permit more than the limit allows.

* `lane_conserves` — the law, for runs whose replacements find a free slot.
* `lowered_limit_overissues` — a limit lowered below the active slots: once these
  are released, two slots are active under a limit of one.
-/

namespace SherryAgent.Guarantees.Lane

open SherryAgent.Source.Runtime SherryAgent.Library.Resumption

abbrev LaneHistory := List (Event laneEffects)

abbrev LaneWorld := World laneEffects LaneStore LaneRequest LaneReply

/-! ## The semaphore -/

/-- The caller has been given a permit. -/
def granted (waiter : Waiter) : Bool :=
  match waiter.state with
  | .woken | .revoked => true
  | _ => false

/-- Permits that no active slot holds: free ones, and those handed to woken callers. -/
def permits (sem : Semaphore) : Nat := sem.value + sem.waiters.countP granted

section Semaphore

variable {sem after : Semaphore} {waiters woken : List Waiter} {ticket : Nat}

theorem wakeFirst_effects (wakes : Semaphore.wakeFirst waiters = some woken) :
    woken.countP granted = waiters.countP granted + 1 ∧ woken.length = waiters.length := by
  induction waiters generalizing woken with
  | nil => cases wakes
  | cons waiter rest ih =>
    rw [Semaphore.wakeFirst] at wakes
    split at wakes
    · rename_i waits
      cases wakes
      simp [List.countP_cons, granted, waits]
    · obtain ⟨others, later, rfl⟩ := Option.map_eq_some_iff.mp wakes
      obtain ⟨count, length⟩ := ih later
      simp only [List.countP_cons, List.length_cons, count, length, and_true]
      exact Nat.add_right_comm _ _ _

theorem wakeAll_effects (value : Nat) (waiters : List Waiter) :
    permits (Semaphore.wakeAll value waiters) = value + waiters.countP granted ∧
      (Semaphore.wakeAll value waiters).waiters.length = waiters.length := by
  induction value generalizing waiters with
  | zero => exact ⟨rfl, rfl⟩
  | succ value ih =>
    rw [Semaphore.wakeAll]
    split
    · rename_i woken wakes
      obtain ⟨count, length⟩ := wakeFirst_effects wakes
      obtain ⟨total, kept⟩ := ih woken
      exact ⟨by omega, kept.trans length⟩
    · exact ⟨rfl, rfl⟩

theorem release_effects (sem : Semaphore) :
    permits sem.release = permits sem + 1 ∧ sem.release.waiters.length = sem.waiters.length := by
  unfold Semaphore.release Semaphore.wakeUpNext
  split
  · rename_i woken wakes
    obtain ⟨count, length⟩ := wakeFirst_effects wakes
    dsimp only [permits] at count length ⊢
    exact ⟨by omega, length⟩
  · exact ⟨Nat.add_right_comm _ _ _, rfl⟩

theorem acquire_effects (sem : Semaphore) (ticket : Nat) :
    permits (sem.acquire ticket).2 + (sem.acquire ticket).1.toNat = permits sem ∧
      (sem.acquire ticket).2.waiters.length + (sem.acquire ticket).1.toNat =
        sem.waiters.length + 1 := by
  unfold Semaphore.acquire
  split
  · simp [permits, List.countP_append, granted]
  · rename_i free
    have positive : 0 < sem.value := by
      rw [Semaphore.locked, Bool.or_eq_true, not_or] at free
      exact Nat.pos_of_ne_zero (by simpa using free.1)
    dsimp only [permits, Bool.toNat_true]
    exact ⟨by omega, rfl⟩

theorem cancel_effects (sem : Semaphore) (ticket : Nat) :
    permits (sem.cancel ticket) = permits sem ∧
      (sem.cancel ticket).waiters.length = sem.waiters.length := by
  refine ⟨?_, by simp [Semaphore.cancel]⟩
  simp only [permits, Semaphore.cancel, List.countP_map]
  congr 1
  refine List.countP_congr fun waiter _ => ?_
  dsimp only [Function.comp_apply]
  split
  · cases state : waiter.state <;> simp [granted, state]
  · exact Iff.rfl

theorem resume_effects {acquired : Bool} (resumed : sem.resume ticket = some (acquired, after)) :
    permits after + acquired.toNat = permits sem ∧
      after.waiters.length + 1 = sem.waiters.length := by
  obtain ⟨waiter, found, resumed⟩ := Option.bind_eq_some_iff.mp resumed
  have member := List.mem_of_find?_eq_some found
  have length : (sem.waiters.erase waiter).length + 1 = sem.waiters.length := by
    rw [List.length_erase_of_mem member]
    exact Nat.sub_add_cancel (List.length_pos_of_mem member)
  have count : (sem.waiters.erase waiter).countP granted + (granted waiter).toNat =
      sem.waiters.countP granted := by
    rw [(List.perm_cons_erase member).countP_eq granted, List.countP_cons]
    cases granted waiter <;> rfl
  dsimp only at resumed
  split at resumed
  case h_1 => cases resumed
  all_goals
    rename_i state
    obtain ⟨rfl, rfl⟩ := Prod.mk.inj (Option.some.inj resumed)
    rw [(wakeAll_effects _ _).1, (wakeAll_effects _ _).2]
    simp only [granted, state, Bool.toNat_true, Bool.toNat_false] at count ⊢
    exact ⟨by dsimp only [permits]; omega, length⟩

end Semaphore

/-! ## The lane -/

/-- Permits that no active slot holds; a lane without a semaphore will get `max` of them. -/
def available (lane : Lane) : Nat := permits lane.ensureSem

/-- A replacement of the semaphore at this operation finds a free slot under the limit. -/
def Spare (store : LaneStore) : LaneOp → Prop
  | .acquire => store.draining = false → store.lane.rebindPending = true →
      store.lane.queued = 0 → store.lane.active < store.lane.max
  | .release => store.lane.rebindPending = true → store.lane.queued = 0 →
      store.lane.active - 1 < store.lane.max
  | .setMax maxConcurrent => store.lane.queued = 0 → 0 < maxConcurrent →
      store.lane.active < maxConcurrent
  | _ => True

instance (store : LaneStore) : (op : LaneOp) → Decidable (Spare store op)
  | .acquire => inferInstanceAs (Decidable (_ → _ → _ → _))
  | .release => inferInstanceAs (Decidable (_ → _ → _))
  | .setMax _ => inferInstanceAs (Decidable (_ → _ → _))
  | .resume _ | .cancel _ | .drain _ => inferInstanceAs (Decidable True)

structure Sound (lane : Lane) : Prop where
  queued : lane.queued = lane.ensureSem.waiters.length
  unused : lane.sem = none → lane.active = 0 ∧ lane.rebindPending = false
  conserved : lane.rebindPending = false → available lane + lane.active = lane.max

/-- A replacement conserves the slots exactly when one is free under the limit. -/
theorem rebind_conserves (lane : Lane) :
    available lane.rebind + lane.active = lane.max ↔ lane.active < lane.max := by
  have fresh : available lane.rebind = Nat.max 1 (lane.max - lane.active) := rfl
  have bound : Nat.max 1 (lane.max - lane.active) = 1 ∧ lane.max - lane.active ≤ 1 ∨
      Nat.max 1 (lane.max - lane.active) = lane.max - lane.active ∧
        1 ≤ lane.max - lane.active := by
    rcases Nat.le_total 1 (lane.max - lane.active) with low | high
    · exact .inr ⟨Nat.max_eq_right low, low⟩
    · exact .inl ⟨Nat.max_eq_left high, high⟩
  rw [fresh]
  omega

section Lane

variable {lane after : Lane} {ticket : Nat}

theorem rebind_sound (lane : Lane) (spare : lane.active < lane.max) (idle : lane.queued = 0) :
    Sound lane.rebind where
  queued := idle
  unused := fun missing => by cases missing
  conserved := fun _ => (rebind_conserves lane).mpr spare

theorem applyPendingRebind_sound (sound : Sound lane)
    (spare : lane.rebindPending = true → lane.queued = 0 → lane.active < lane.max) :
    Sound lane.applyPendingRebind := by
  unfold Lane.applyPendingRebind
  split
  · exact sound
  · rename_i applies
    obtain ⟨pending, idle, -⟩ := not_or.mp applies |>.imp id not_or.mp
    have idle : lane.queued = 0 := Nat.eq_zero_of_not_pos idle
    exact rebind_sound { lane with rebindPending := false }
      (spare (by simpa using pending) idle) idle

@[simp] theorem applyPendingRebind_active (lane : Lane) :
    lane.applyPendingRebind.active = lane.active := by
  unfold Lane.applyPendingRebind
  split <;> rfl

theorem Sound.of_sem (sem : Semaphore) (has : lane.sem = some sem)
    (queued : lane.queued = sem.waiters.length)
    (conserved : lane.rebindPending = false → permits sem + lane.active = lane.max) :
    Sound lane := by
  have current : lane.ensureSem = sem := by rw [Lane.ensureSem, has, Option.getD_some]
  refine ⟨current ▸ queued, fun missing => ?_, fun settled => ?_⟩
  · rw [has] at missing
    cases missing
  · rw [available, current]
    exact conserved settled

theorem acquire_sound (sound : Sound lane)
    (spare : lane.rebindPending = true → lane.queued = 0 → lane.active < lane.max) (ticket : Nat) :
    Sound (lane.acquire ticket).2 := by
  have sound := applyPendingRebind_sound sound spare
  have held := sound.conserved
  dsimp only [available] at held
  obtain ⟨total, length⟩ := acquire_effects lane.applyPendingRebind.ensureSem ticket
  unfold Lane.acquire
  dsimp only
  split
  · rename_i entered
    rw [entered, Bool.toNat_true] at total length
    refine .of_sem _ rfl (sound.queued.trans (Nat.succ.inj length).symm) fun settled => ?_
    have held := held settled
    dsimp only
    omega
  · rename_i parked
    rw [Bool.eq_false_of_not_eq_true parked, Bool.toNat_false] at total length
    refine .of_sem _ rfl ((congrArg (· + 1) sound.queued).trans length.symm) fun settled => ?_
    have held := held settled
    dsimp only
    omega

theorem resume_sound {acquired : Bool} (sound : Sound lane)
    (resumed : lane.resume ticket = some (acquired, after)) :
    Sound after ∧ after.active = lane.active + acquired.toNat := by
  obtain ⟨sem, has, resumed⟩ := Option.bind_eq_some_iff.mp resumed
  obtain ⟨⟨acquired', sem'⟩, woken, resumed⟩ := Option.bind_eq_some_iff.mp resumed
  obtain ⟨total, length⟩ := resume_effects woken
  have current : lane.ensureSem = sem := by rw [Lane.ensureSem, has, Option.getD_some]
  have queued := sound.queued
  have held := sound.conserved
  rw [available, current] at held
  rw [current] at queued
  obtain ⟨rfl, rfl⟩ := Prod.mk.inj (Option.some.inj resumed)
  cases acquired' with
  | true =>
    rw [if_pos rfl]
    refine ⟨.of_sem _ rfl (by dsimp only; omega) fun settled => ?_, rfl⟩
    have held := held settled
    rw [Bool.toNat_true] at total
    dsimp only
    omega
  | false =>
    rw [if_neg Bool.false_ne_true]
    refine ⟨.of_sem _ rfl (by dsimp only; omega) fun settled => ?_, rfl⟩
    have held := held settled
    rw [Bool.toNat_false] at total
    dsimp only
    omega

theorem release_sound (sound : Sound lane)
    (spare : lane.rebindPending = true → lane.queued = 0 → lane.active - 1 < lane.max) :
    Sound lane.release ∧ lane.release.active = lane.active - 1 := by
  unfold Lane.release
  split
  · rename_i idle
    exact ⟨sound, by omega⟩
  · rename_i busy
    obtain ⟨sem, has⟩ : ∃ sem, lane.sem = some sem :=
      Option.ne_none_iff_exists'.mp fun missing => busy (sound.unused missing).1
    have current : lane.ensureSem = sem := by rw [Lane.ensureSem, has, Option.getD_some]
    have queued := sound.queued
    have held := sound.conserved
    rw [available, current] at held
    rw [current] at queued
    obtain ⟨total, length⟩ := release_effects sem
    refine ⟨applyPendingRebind_sound (Sound.of_sem sem.release ?_ ?_ fun settled => ?_) spare,
      applyPendingRebind_active _⟩
    · rw [has, Option.map_some]
    · rw [length]
      exact queued
    · have held := held settled
      dsimp only
      omega

theorem setMax_sound {maxConcurrent : Nat} (sound : Sound lane)
    (spare : lane.queued = 0 → 0 < maxConcurrent → lane.active < maxConcurrent)
    (changed : lane.setMax maxConcurrent = some after) :
    Sound after ∧ after.active = lane.active := by
  unfold Lane.setMax at changed
  split at changed
  · cases changed
  · rename_i valid
    dsimp only at changed
    split at changed
    · rename_i missing
      cases changed
      obtain ⟨idle, settled⟩ := sound.unused missing
      have fresh : available { lane with max := maxConcurrent } = maxConcurrent := by
        rw [available, Lane.ensureSem, missing]
        rfl
      have queued := sound.queued
      rw [Lane.ensureSem, missing] at queued
      refine ⟨⟨?_, fun _ => ⟨idle, settled⟩, fun _ => ?_⟩, rfl⟩
      · rw [Lane.ensureSem, missing]
        exact queued
      · rw [fresh, idle, Nat.add_zero]
    · split at changed
      · cases changed
        rename_i present _
        obtain ⟨sem, has⟩ := Option.ne_none_iff_exists'.mp present
        have queued := sound.queued
        rw [Lane.ensureSem, has] at queued
        exact ⟨.of_sem _ has queued fun settled => (by cases settled), rfl⟩
      · rename_i idle
        cases changed
        have idle := Nat.eq_zero_of_not_pos idle
        exact ⟨rebind_sound { lane with max := maxConcurrent }
          (spare idle (Nat.not_lt.mp valid)) idle, rfl⟩

theorem cancel_sound (sound : Sound lane) (ticket : Nat) : Sound (lane.cancel ticket) := by
  cases has : lane.sem with
  | none =>
    have same : lane.cancel ticket = lane := by
      rw [Lane.cancel, has, Option.map_none, ← has]
    rw [same]
    exact sound
  | some sem =>
    have current : lane.ensureSem = sem := by rw [Lane.ensureSem, has, Option.getD_some]
    obtain ⟨total, length⟩ := cancel_effects sem ticket
    refine Sound.of_sem (sem.cancel ticket) ?_ ?_ fun settled => ?_
    · rw [Lane.cancel, has, Option.map_some]
    · rw [length, ← current]
      exact sound.queued
    · rw [total, ← current]
      exact sound.conserved settled

end Lane

/-! ## Callers -/

/-- Slots the operations gave the caller. -/
def taken (h : LaneHistory) : Nat :=
  (seen (E := laneEffects) (fun op ans => match op, ans with
    | .acquire, .entered => some ()
    | .resume _, true => some ()
    | _, _ => none) h).length

/-- Slots the caller gave back. -/
def returned (h : LaneHistory) : Nat :=
  (seen (E := laneEffects) (fun op _ => match op with
    | .release => some ()
    | _ => none) h).length

/-- Slots the caller holds. -/
def held (h : LaneHistory) : Nat := taken h - returned h

theorem taken_append (h rest : LaneHistory) : taken (h ++ rest) = taken h + taken rest := by
  simp [taken, seen]

theorem returned_append (h rest : LaneHistory) :
    returned (h ++ rest) = returned h + returned rest := by
  simp [returned, seen]

/-- A caller acquires once and releases the slot it holds. -/
def MayPerform (_ : LaneRequest) (h : LaneHistory) : LaneOp → Prop
  | .release => taken h = 1 ∧ returned h = 0
  | _ => taken h = 0 ∧ returned h = 0

theorem serveLane_issues (request : LaneRequest) :
    (serveLane request).Issues (MayPerform request) (fun _ _ => True) [] := by
  cases request with
  | slot =>
    refine (Prog.issues_perform_bind _ _ _).mpr ⟨⟨rfl, rfl⟩, fun admission => ?_⟩
    cases admission with
    | refused message => exact trivial
    | entered =>
      exact (Prog.issues_perform_bind _ _ _).mpr ⟨⟨rfl, rfl⟩, fun _ => trivial⟩
    | parked ticket =>
      refine (Prog.issues_perform_bind _ _ _).mpr ⟨⟨rfl, rfl⟩, fun acquired => ?_⟩
      cases acquired with
      | true => exact (Prog.issues_perform_bind _ _ _).mpr ⟨⟨rfl, rfl⟩, fun _ => trivial⟩
      | false => exact trivial
  | setMax maxConcurrent =>
    refine (Prog.issues_perform_bind _ _ _).mpr ⟨⟨rfl, rfl⟩, fun valid => ?_⟩
    cases valid <;> exact trivial
  | cancel ticket => exact (Prog.issues_perform_bind _ _ _).mpr ⟨⟨rfl, rfl⟩, fun _ => trivial⟩
  | drain draining => exact (Prog.issues_perform_bind _ _ _).mpr ⟨⟨rfl, rfl⟩, fun _ => trivial⟩

theorem held_append {request : LaneRequest} {h : LaneHistory} {op : LaneOp} (ans : op.Ans)
    (may : MayPerform request h op) :
    held (h ++ [⟨op, ans⟩]) + returned [⟨op, ans⟩] = held h + taken [⟨op, ans⟩] := by
  rw [held, held, taken_append, returned_append]
  cases op with
  | release =>
    obtain ⟨one, none_yet⟩ := may
    rw [one, none_yet]
    rfl
  | _ =>
    obtain ⟨no_slot, none_yet⟩ := may
    rw [no_slot, none_yet]
    simp [returned, seen]

theorem acquire_active (lane : Lane) (ticket : Nat) :
    (lane.acquire ticket).2.active =
      lane.active + taken [⟨.acquire, (lane.acquire ticket).1⟩] := by
  unfold Lane.acquire
  dsimp only
  split
  · exact congrArg (· + 1) (applyPendingRebind_active _)
  · exact applyPendingRebind_active _

theorem exec_sound {op : LaneOp} {store store' : LaneStore} {input : Unit}
    {ans : op.Ans}
    (executed : execLane op store input = some (ans, store')) (sound : Sound store.lane)
    (spare : Spare store op) :
    Sound store'.lane ∧ store'.lane.active + returned [⟨op, ans⟩] =
      store.lane.active + taken [⟨op, ans⟩] ∨
    op = .release ∧ store.lane.active = 0 := by
  cases op with
  | acquire =>
    rw [execLane] at executed
    split at executed
    · cases executed
      exact .inl ⟨sound, rfl⟩
    · rename_i open_gate
      simp only [Option.some.injEq, Prod.mk.injEq] at executed
      obtain ⟨rfl, rfl⟩ := executed
      have spare := spare (Bool.eq_false_of_not_eq_true open_gate)
      exact .inl ⟨acquire_sound sound spare _, acquire_active _ _⟩
  | resume ticket =>
    obtain ⟨⟨acquired, lane⟩, resumed, stored⟩ := Option.map_eq_some_iff.mp executed
    obtain ⟨rfl, rfl⟩ := Prod.mk.inj stored
    obtain ⟨kept, active⟩ := resume_sound sound resumed
    refine .inl ⟨kept, ?_⟩
    rw [active]
    cases acquired <;> rfl
  | release =>
    obtain ⟨-, rfl⟩ := Prod.mk.inj (Option.some.inj executed)
    obtain ⟨kept, active⟩ := release_sound sound spare
    by_cases idle : store.lane.active = 0
    · exact .inr ⟨rfl, idle⟩
    · refine .inl ⟨kept, ?_⟩
      change store.lane.release.active + 1 = store.lane.active
      omega
  | setMax maxConcurrent =>
    rw [execLane] at executed
    split at executed
    · cases executed
      exact .inl ⟨sound, rfl⟩
    · rename_i lane changed
      cases executed
      obtain ⟨kept, active⟩ := setMax_sound sound spare changed
      exact .inl ⟨kept, active⟩
  | cancel ticket =>
    cases executed
    exact .inl ⟨cancel_sound sound ticket, rfl⟩
  | drain draining =>
    cases executed
    exact .inl ⟨sound, rfl⟩

/-! ## Runs -/

/-- The slots all callers hold. -/
def slots (w : LaneWorld) : Nat := w.total fun thread => held thread.history

structure SoundWorld (w : LaneWorld) : Prop where
  honours : w.Honours MayPerform fun _ _ _ => True
  lane : Sound w.store.lane
  active : w.store.lane.active = slots w

/-- Every replacement of the semaphore finds a free slot under the new limit. -/
def Replaceable (w : LaneWorld) (choice : Choice LaneRequest Unit) : Prop :=
  ∀ thread op, w.pending choice = some (thread, op) → Spare w.store op

theorem soundWorld_initial (name : String) (max : Nat) :
    SoundWorld ⟨{ lane := { name, max } }, []⟩ where
  honours := fun _ member => absurd member List.not_mem_nil
  lane := ⟨rfl, fun _ => ⟨rfl, rfl⟩, fun _ => rfl⟩
  active := rfl

theorem soundWorld_step {w w' : LaneWorld} {choice : Choice LaneRequest Unit}
    (sound : SoundWorld w) (replaceable : Replaceable w choice)
    (stepped : laneSystem.step w choice = some w') : SoundWorld w' := by
  have honours := System.honours_step serveLane_issues sound.honours stepped
  rcases laneSystem.step_cases stepped with
    ⟨request, -, same, threads⟩ | ⟨i, input, thread, op, ans, rfl, fires⟩
  · refine ⟨honours, same ▸ sound.lane, ?_⟩
    rw [same, sound.active, slots, slots, World.total, World.total, threads,
      List.map_append, List.sum_append]
    rfl
  · obtain ⟨input', executed⟩ := fires.executed
    have may : MayPerform thread.request thread.history op := fires.issued sound.honours
    have spare := replaceable thread op (fires.pending input)
    obtain ⟨after, -, history, total⟩ := fires.total fun thread => held thread.history
    have change := held_append ans may
    change slots w' + _ = slots w + _ at total
    rw [history] at total
    have active := sound.active
    rcases exec_sound executed sound.lane spare with ⟨lane, counted⟩ | ⟨rfl, idle⟩
    · exact ⟨honours, lane, by omega⟩
    · -- a caller that releases holds a slot, so the lane is not idle
      have one : held thread.history = 1 := by rw [held, may.1, may.2]
      have none_left : held (thread.history ++ [⟨LaneOp.release, ans⟩]) = 0 := by
        rw [held, taken_append, returned_append, may.1, may.2]
        rfl
      omega

/-- Any callers in any interleaving: while every replacement of the semaphore finds a free
slot under the limit and no change is pending, the free and the active slots make up the
limit, so at most that many callers hold a slot. -/
theorem lane_conserves {w : LaneWorld} (name : String) (max : Nat)
    (run : laneSystem.Runs Replaceable ⟨{ lane := { name, max } }, []⟩ w) :
    w.store.lane.active = slots w ∧
      (w.store.lane.rebindPending = false →
        available w.store.lane + w.store.lane.active = w.store.lane.max ∧
          slots w ≤ w.store.lane.max) := by
  have sound : SoundWorld w := run.invariant SoundWorld (soundWorld_initial name max)
    fun _ _ _ sound replaceable stepped => soundWorld_step sound replaceable stepped
  refine ⟨sound.active, fun settled => ?_⟩
  have conserved := sound.lane.conserved settled
  have active := sound.active
  exact ⟨conserved, by omega⟩

/-- `Replaceable` for one choice. -/
def replaces (w : LaneWorld) (choice : Choice LaneRequest Unit) : Bool :=
  (w.pending choice).all fun (_, op) => decide (Spare w.store op)

theorem replaceable_of_replaces {w : LaneWorld} {choice : Choice LaneRequest Unit}
    (allowed : replaces w choice = true) : Replaceable w choice := by
  intro thread op pending
  rw [replaces, pending] at allowed
  exact of_decide_eq_true allowed

/-- A limit of one, raised to two while a caller waits: the change is deferred until the
next acquire, which takes the second slot. -/
def raised : List (Choice LaneRequest Unit) :=
  [.start .slot, .run 0 (), .start .slot, .run 1 (), .start (.setMax 2), .run 2 (), .run 0 (),
   .run 1 (), .start .slot, .run 3 ()]

theorem raised_limit_conserves : ∃ w,
    laneSystem.Runs Replaceable ⟨{ lane := { name := "core", max := 1 } }, []⟩ w ∧
      slots w = 2 ∧ available w.store.lane + w.store.lane.active = 2 := by
  have played : (laneSystem.play replaces ⟨{ lane := { name := "core", max := 1 } }, []⟩ raised).any
      (fun w => slots w == 2 && w.store.lane.rebindPending == false && w.store.lane.max == 2) =
        true := by
    decide +kernel
  obtain ⟨w, run, tested⟩ := System.Runs.exists_of_play played
  simp only [Bool.and_eq_true, beq_iff_eq] at tested
  obtain ⟨⟨both, settled⟩, limit⟩ := tested
  have run := run.mono fun _ _ => replaceable_of_replaces
  have conserved := (lane_conserves "core" 1 run).2 settled
  exact ⟨w, run, both, limit ▸ conserved.1⟩

/-- Two slots are held, the limit becomes one, both slots are released. -/
def lowered : List (Choice LaneRequest Unit) :=
  [.start .slot, .run 0 (), .start .slot, .run 1 (), .start (.setMax 1), .run 2 (), .run 0 (),
   .run 1 ()]

/-- The lane then has three permits under a limit of one, and two further callers hold
slots at the same time. -/
theorem lowered_limit_overissues : ∃ w w',
    laneSystem.Runs (fun _ _ => True) ⟨{ lane := { name := "core", max := 2 } }, []⟩ w ∧
      laneSystem.Runs (fun _ _ => True) w w' ∧
      w.store.lane.max = 1 ∧ w.store.lane.rebindPending = false ∧ slots w = 0 ∧
      available w.store.lane + w.store.lane.active = 3 ∧
      w'.store.lane.max = 1 ∧ w'.store.lane.rebindPending = false ∧ slots w' = 2 := by
  have played : ((laneSystem.play (fun _ _ => true)
      ⟨{ lane := { name := "core", max := 2 } }, []⟩ lowered).any fun w =>
        (laneSystem.play (fun _ _ => true) w
          [.start .slot, .run 3 (), .start .slot, .run 4 ()]).any fun w' =>
            w.store.lane.max == 1 && w.store.lane.rebindPending == false && slots w == 0 &&
              available w.store.lane + w.store.lane.active == 3 && w'.store.lane.max == 1 &&
              w'.store.lane.rebindPending == false && slots w' == 2) = true := by
    decide +kernel
  obtain ⟨w, w', first, second, tested⟩ := System.Runs.exists_of_play₂ played
  simp only [Bool.and_eq_true, beq_iff_eq] at tested
  obtain ⟨⟨⟨⟨⟨⟨limit, settled⟩, idle⟩, permits⟩, limit'⟩, settled'⟩, both⟩ := tested
  exact ⟨w, w', first.mono fun _ _ _ => trivial, second.mono fun _ _ _ => trivial, limit, settled,
    idle, permits, limit', settled', both⟩

end SherryAgent.Guarantees.Lane
