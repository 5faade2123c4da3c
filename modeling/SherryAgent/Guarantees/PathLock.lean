import SherryAgent.Source.PubBase.PathLock

/-!
# The path gate over any schedule

* `path_gate_safe` — over any threads on any paths, a writer inside is alone, all users of
  a path share one gate, an entry goes only without users, and no waiter is forgotten.
-/

namespace SherryAgent.Guarantees.PathLock

open SherryAgent.Library SherryAgent.Source.PubBase SherryAgent.Source.PubBase.PathLock

abbrev World := Tasks.World LockStore PathUser
abbrev Choice := Tasks.Choice PathUser Unit

variable {w w' : World} {store store' : LockStore} {task after : PathUser} {key : String}
  {gate : Nat} {write : Bool}

/-- The path and the gate of a thread that is counted as a user. -/
def owned : PathUser → Option (String × Nat)
  | .fetched key gate _ | .waiting key gate _ _ | .inside key gate _ | .left key gate =>
    some (key, gate)
  | .entering _ _ | .gone => none

def isInside (key : String) : PathUser → Bool
  | .inside other _ _ => other == key
  | _ => false

def isWaiting (key : String) : PathUser → Bool
  | .waiting other _ _ _ => other == key
  | _ => false

/-- The thread waits and has been notified. -/
def isNotified (store : LockStore) : PathUser → Bool
  | .waiting _ gate _ waiter => notified store gate waiter
  | _ => false

/-- What the gate promises in one state. -/
structure Safe (w : World) : Prop where
  excludes : ∀ (index : Nat) (key : String) (gate : Nat),
    w.tasks[index]? = some (.inside key gate true) →
      ∀ other ∈ w.tasks.eraseIdx index, isInside key other = false
  one_gate : ∀ task ∈ w.tasks, ∀ key gate, owned task = some (key, gate) →
    w.store.registry key = some gate
  removed : ∀ (choice : Choice) (w' : World) (key : String) (gate : Nat),
    program.step w choice = some w' → w.store.registry key = some gate →
      w'.store.registry key ≠ some gate →
        ∀ task ∈ w.tasks, isInside key task = false ∧ isWaiting key task = false
  awake : ∀ key, (∀ task ∈ w.tasks, isInside key task = false) →
    (∃ task ∈ w.tasks, isWaiting key task = true ∧ isNotified w.store task = true) ∨
      ∀ task ∈ w.tasks, isWaiting key task = false

/-! ## The counts of a gate -/

def uses (gate : Nat) (task : PathUser) : Bool := (owned task).any fun own => own.2 == gate

def reads (gate : Nat) : PathUser → Bool
  | .inside _ other write => other == gate && !write
  | _ => false

def writes (gate : Nat) : PathUser → Bool
  | .inside _ other write => other == gate && write
  | _ => false

def awaits (gate : Nat) : PathUser → Bool
  | .waiting _ other write _ => other == gate && write
  | _ => false

/-- The fields of a gate count its users; while nobody is inside, a waiter that is not
notified is a reader that a waiting writer holds back. -/
structure Counted (w : World) (gate : Nat) : Prop where
  users : (w.store.gates gate).users = w.tasks.countP (uses gate)
  readers : (w.store.gates gate).readers = w.tasks.countP (reads gate)
  writer : ((w.store.gates gate).writer.toNat) = w.tasks.countP (writes gate)
  waitingWriters : (w.store.gates gate).waitingWriters = w.tasks.countP (awaits gate)
  exclusive : (w.store.gates gate).writer = true → (w.store.gates gate).readers = 0
  forgotten : (w.store.gates gate).writer = false → (w.store.gates gate).readers = 0 →
    ∀ key write waiter, .waiting key gate write waiter ∈ w.tasks →
      waiter ∈ (w.store.gates gate).waiters →
        write = false ∧ 0 < (w.store.gates gate).waitingWriters

structure Inv (w : World) : Prop where
  counted : ∀ gate, Counted w gate
  registered : ∀ task ∈ w.tasks, ∀ key gate, owned task = some (key, gate) →
    w.store.registry key = some gate
  created : ∀ key gate, w.store.registry key = some gate → gate < w.store.created
  apart : ∀ key other gate, w.store.registry key = some gate →
    w.store.registry other = some gate → key = other
  issued : ∀ key gate write waiter, .waiting key gate write waiter ∈ w.tasks →
    waiter < w.store.nextWaiter

/-! ## One gate in one step -/

section Places

variable {waiter : Nat}

@[simp] theorem uses_waiting : uses gate (.waiting key gate write waiter) = true := by
  simp [uses, owned]

@[simp] theorem reads_waiting : reads gate (.waiting key gate write waiter) = false := rfl

@[simp] theorem writes_waiting : writes gate (.waiting key gate write waiter) = false := rfl

@[simp] theorem awaits_waiting : awaits gate (.waiting key gate write waiter) = write := by
  simp [awaits]

@[simp] theorem uses_inside : uses gate (.inside key gate write) = true := by
  simp [uses, owned]

@[simp] theorem reads_inside : reads gate (.inside key gate write) = !write := by
  simp [reads]

@[simp] theorem writes_inside : writes gate (.inside key gate write) = write := by
  simp [writes]

@[simp] theorem awaits_inside : awaits gate (.inside key gate write) = false := rfl

end Places

theorem idle_of_unused (unused : uses gate task = false) :
    reads gate task = false ∧ writes gate task = false ∧ awaits gate task = false := by
  cases task <;> simp_all [uses, owned, reads, writes, awaits]

/-- A gate the step does not touch. -/
theorem Counted.frame {index : Nat} (counted : Counted w gate)
    (resumes : program.Resumes w w' index task after ())
    (same : w'.store.gates gate = w.store.gates gate) (off : uses gate task = false)
    (off' : uses gate after = false) : Counted w' gate := by
  have idle := idle_of_unused off
  have idle' := idle_of_unused off'
  have used := resumes.countP (uses gate)
  have read := resumes.countP (reads gate)
  have written := resumes.countP (writes gate)
  have awaited := resumes.countP (awaits gate)
  simp only [off, off', idle.1, idle'.1, idle.2.1, idle'.2.1, idle.2.2, idle'.2.2]
    at used read written awaited
  constructor
  · rw [same, counted.users]
    omega
  · rw [same, counted.readers]
    omega
  · rw [same, counted.writer]
    omega
  · rw [same, counted.waitingWriters]
    omega
  · rw [same]
    exact counted.exclusive
  · rw [same]
    intro unwritten unread key write waiter member
    rcases resumes.mem_after member with new | old
    · subst new
      simp [uses, owned] at off'
    · exact counted.forgotten unwritten unread key write waiter old

/-- A step that changes no more of the gate than its users. -/
theorem Counted.recount {index : Nat} (key : String) (counted : Counted w gate)
    (resumes : program.Resumes w w' index task after ())
    (users : (w'.store.gates gate).users + (if uses gate task then 1 else 0) =
      (w.store.gates gate).users + (if uses gate after then 1 else 0))
    (same : w'.store.gates gate =
      { w.store.gates gate with users := (w'.store.gates gate).users })
    (idle : reads gate task = false ∧ writes gate task = false ∧ awaits gate task = false)
    (idle' : reads gate after = false ∧ writes gate after = false ∧ awaits gate after = false)
    (awake : isWaiting key after = false) (own : owned after = some (key, gate) ∨ owned after = none) :
    Counted w' gate := by
  have used := resumes.countP (uses gate)
  have read := resumes.countP (reads gate)
  have written := resumes.countP (writes gate)
  have awaited := resumes.countP (awaits gate)
  have counts := counted.users
  simp only [idle.1, idle'.1, idle.2.1, idle'.2.1, idle.2.2, idle'.2.2] at read written awaited
  constructor
  · omega
  · rw [same]
    exact counted.readers.trans (by omega)
  · rw [same]
    exact counted.writer.trans (by omega)
  · rw [same]
    exact counted.waitingWriters.trans (by omega)
  · rw [same]
    exact counted.exclusive
  · rw [same]
    intro unwritten unread other write waiter member
    rcases resumes.mem_after member with new | old
    · subst new
      rcases own with own | own
      · simp only [owned, Option.some.injEq, Prod.mk.injEq, and_true] at own
        subst own
        simp [isWaiting] at awake
      · cases own
    · exact counted.forgotten unwritten unread other write waiter old

/-- A thread gives the gate back. -/
theorem Counted.leave {index : Nat} (counted : Counted w gate)
    (resumes : program.Resumes w w' index (.inside key gate write) (.left key gate) ())
    (given : w'.store.gates gate = (w.store.gates gate).given write) : Counted w' gate := by
  have used := resumes.countP (uses gate)
  have read := resumes.countP (reads gate)
  have written := resumes.countP (writes gate)
  have awaited := resumes.countP (awaits gate)
  have users := counted.users
  have readers := counted.readers
  have writer := counted.writer
  have waitingWriters := counted.waitingWriters
  have exclusive := counted.exclusive
  have atMost := Bool.toNat_le (w.store.gates gate).writer
  cases write with
  | true =>
    simp [uses, owned, reads, writes, awaits] at used read written awaited
    simp only [LockEntry.given, if_true] at given
    constructor
    · rw [given]
      dsimp only
      omega
    · rw [given]
      dsimp only
      omega
    · rw [given]
      simp only [Bool.toNat_false]
      omega
    · rw [given]
      dsimp only
      omega
    · rw [given]
      intro claimed
      cases claimed
    · rw [given]
      intro _ _ key write waiter _ forgotten
      cases forgotten
  | false =>
    simp [uses, owned, reads, writes, awaits] at used read written awaited
    simp only [LockEntry.given, Bool.false_eq_true, if_false] at given
    constructor
    · rw [given]
      dsimp only
      omega
    · rw [given]
      dsimp only
      omega
    · rw [given]
      dsimp only
      omega
    · rw [given]
      dsimp only
      omega
    · rw [given]
      intro claimed
      have none_reads := exclusive claimed
      dsimp only
      omega
    · rw [given]
      intro _ _ key write waiter _ forgotten
      cases forgotten

/-- A gate whose tested entry counts a waiting writer that tests. -/
structure Tested (w : World) (gate : Nat) (task : PathUser) (write : Bool) (entry : LockEntry) :
    Prop where
  users : entry.users = w.tasks.countP (uses gate)
  readers : entry.readers = w.tasks.countP (reads gate)
  writer : entry.writer.toNat = w.tasks.countP (writes gate)
  waitingWriters : entry.waitingWriters + (if awaits gate task then 1 else 0) =
    w.tasks.countP (awaits gate) + write.toNat
  exclusive : entry.writer = true → entry.readers = 0
  forgotten : entry.writer = false → entry.readers = 0 →
    ∀ key write waiter, .waiting key gate write waiter ∈ w.tasks → waiter ∈ entry.waiters →
      write = false ∧ 0 < entry.waitingWriters

theorem Counted.announce (counted : Counted w gate) (idle : awaits gate task = false) :
    Tested w gate task write ((w.store.gates gate).announced write) := by
  have users := counted.users
  have readers := counted.readers
  have writer := counted.writer
  have waitingWriters := counted.waitingWriters
  cases write with
  | true =>
    simp only [LockEntry.announced, if_true]
    constructor
    · exact users
    · exact readers
    · exact writer
    · rw [idle, ← waitingWriters]
      rfl
    · exact counted.exclusive
    · intro unwritten unread key write waiter member unnotified
      obtain ⟨reader, -⟩ := counted.forgotten unwritten unread key write waiter member unnotified
      exact ⟨reader, Nat.succ_pos _⟩
  | false =>
    simp only [LockEntry.announced, Bool.false_eq_true, if_false]
    constructor
    · exact users
    · exact readers
    · exact writer
    · rw [idle, ← waitingWriters]
      rfl
    · exact counted.exclusive
    · exact counted.forgotten

theorem Counted.recheck (counted : Counted w gate) {waiter : Nat} :
    Tested w gate (.waiting key gate write waiter) write (w.store.gates gate) := by
  constructor
  · exact counted.users
  · exact counted.readers
  · exact counted.writer
  · rw [counted.waitingWriters]
    cases write <;> simp [awaits]
  · exact counted.exclusive
  · exact counted.forgotten

/-- The thread waits: nobody is inside only if it is a reader behind a waiting writer. -/
theorem Tested.wait {index : Nat} {entry : LockEntry} (tested : Tested w gate task write entry)
    (issued : ∀ key gate write waiter, .waiting key gate write waiter ∈ w.tasks →
      waiter < w.store.nextWaiter)
    (off : reads gate task = false ∧ writes gate task = false) (used : uses gate task = true)
    (resumes : program.Resumes w w' index task
      (.waiting key gate write w.store.nextWaiter) ())
    (blocks : entry.blocks write = true)
    (waits : w'.store.gates gate =
      { entry with waiters := entry.waiters ++ [w.store.nextWaiter] }) : Counted w' gate := by
  have counted := resumes.countP (uses gate)
  have read := resumes.countP (reads gate)
  have written := resumes.countP (writes gate)
  have awaited := resumes.countP (awaits gate)
  have users := tested.users
  have readers := tested.readers
  have writer := tested.writer
  have waitingWriters := tested.waitingWriters
  simp only [off.1, off.2, used, uses_waiting, reads_waiting, writes_waiting, awaits_waiting,
    if_true, Bool.false_eq_true, if_false] at counted read written awaited waitingWriters
  constructor
  · rw [waits]
    dsimp only
    omega
  · rw [waits]
    dsimp only
    omega
  · rw [waits]
    dsimp only
    omega
  · rw [waits]
    dsimp only
    cases write with
    | true =>
      simp only [if_true, Bool.toNat_true] at awaited waitingWriters
      omega
    | false =>
      simp only [Bool.false_eq_true, if_false, Bool.toNat_false] at awaited waitingWriters
      omega
  · rw [waits]
    exact tested.exclusive
  · rw [waits]
    intro unwritten unread other kind waiter member unnotified
    dsimp only at unwritten unread
    rcases resumes.mem_after member with new | old
    · cases new
      cases write with
      | true => simp [LockEntry.blocks, unwritten, unread] at blocks
      | false =>
        simp only [LockEntry.blocks, unwritten, Bool.false_eq_true, if_false, Bool.false_or,
          decide_eq_true_eq] at blocks
        exact ⟨rfl, blocks⟩
    · have earlier := issued other gate kind waiter old
      apply tested.forgotten unwritten unread other kind waiter old
      rcases List.mem_append.mp unnotified with before | here
      · exact before
      · have equal := List.mem_singleton.mp here
        omega

/-- The thread passes: a writer finds the gate empty, a reader finds no writer. -/
theorem Tested.pass {index : Nat} {entry : LockEntry} (tested : Tested w gate task write entry)
    (off : reads gate task = false ∧ writes gate task = false) (used : uses gate task = true)
    (resumes : program.Resumes w w' index task (.inside key gate write) ())
    (free : entry.blocks write = false)
    (passes : w'.store.gates gate = entry.acquired write) : Counted w' gate := by
  have counted := resumes.countP (uses gate)
  have read := resumes.countP (reads gate)
  have written := resumes.countP (writes gate)
  have awaited := resumes.countP (awaits gate)
  have users := tested.users
  have readers := tested.readers
  have writer := tested.writer
  have waitingWriters := tested.waitingWriters
  simp only [off.1, off.2, used, uses_inside, reads_inside, writes_inside, awaits_inside,
    if_true, Bool.false_eq_true, if_false] at counted read written awaited waitingWriters
  simp only [LockEntry.blocks, Bool.or_eq_false_iff, decide_eq_false_iff_not, Nat.not_lt,
    Nat.le_zero_eq] at free
  cases write with
  | true =>
    simp only [LockEntry.acquired, if_true] at passes free
    simp only [free.1, Bool.toNat_false] at writer
    simp at read written waitingWriters
    constructor
    · rw [passes]
      dsimp only
      omega
    · rw [passes]
      dsimp only
      omega
    · rw [passes]
      simp only [Bool.toNat_true]
      omega
    · rw [passes]
      dsimp only
      omega
    · rw [passes]
      intro _
      exact free.2
    · rw [passes]
      intro unwritten
      cases unwritten
  | false =>
    simp only [LockEntry.acquired, Bool.false_eq_true, if_false] at passes free
    simp at read written waitingWriters
    constructor
    · rw [passes]
      dsimp only
      omega
    · rw [passes]
      dsimp only
      omega
    · rw [passes]
      dsimp only
      omega
    · rw [passes]
      dsimp only
      omega
    · rw [passes]
      intro claimed
      rw [free.1] at claimed
      cases claimed
    · rw [passes]
      intro _ unread
      cases unread

/-! ## All gates in one step -/

theorem owned_of_uses (used : uses gate task = true) : ∃ key, owned task = some (key, gate) := by
  unfold uses at used
  obtain ⟨own, holds, same⟩ := (Option.any_eq_true _ _).mp used
  refine ⟨own.1, ?_⟩
  rw [holds, ← beq_iff_eq.mp same]

theorem uses_of_owned (holds : owned task = some (key, gate)) : uses gate task = true := by
  unfold uses
  rw [holds]
  simp

theorem not_uses_of_owned {other : Nat} (holds : owned task = some (key, gate))
    (apart : other ≠ gate) : uses other task = false := by
  unfold uses
  rw [holds]
  simpa using Ne.symm apart

/-- A step inside one gate, with the registry as it was. -/
theorem Inv.within {index : Nat} (inv : Inv w) (resumes : program.Resumes w w' index task after ())
    (holds : owned task = some (key, gate)) (holds' : owned after = some (key, gate))
    (others : ∀ other, other ≠ gate → w'.store.gates other = w.store.gates other)
    (registry : w'.store.registry = w.store.registry) (created : w'.store.created = w.store.created)
    (issued : w.store.nextWaiter ≤ w'.store.nextWaiter)
    (fresh : ∀ key gate write waiter, after = .waiting key gate write waiter →
      waiter < w'.store.nextWaiter)
    (counted : Counted w' gate) : Inv w' := by
  constructor
  · intro other
    by_cases same : other = gate
    · rw [same]
      exact counted
    · exact (inv.counted other).frame resumes (others other same) (not_uses_of_owned holds same)
        (not_uses_of_owned holds' same)
  · intro other member key' gate' own
    rw [registry]
    rcases resumes.mem_after member with new | old
    · rw [new, holds'] at own
      cases own
      exact inv.registered task resumes.mem key gate holds
    · exact inv.registered other old key' gate' own
  · rw [registry, created]
    exact inv.created
  · rw [registry]
    exact inv.apart
  · intro key' gate' write' waiter member
    rcases resumes.mem_after member with new | old
    · exact fresh key' gate' write' waiter new.symm
    · exact Nat.lt_of_lt_of_le (inv.issued key' gate' write' waiter old) issued

theorem Inv.test {index : Nat} {entry : LockEntry} (inv : Inv w)
    (resumes : program.Resumes w w' index task after ()) (holds : owned task = some (key, gate))
    (off : reads gate task = false ∧ writes gate task = false)
    (tested : Tested w gate task write entry)
    (stepped : PathLock.test w.store entry key gate write = (w'.store, after)) : Inv w' := by
  unfold PathLock.test at stepped
  split at stepped
  · rename_i blocks
    obtain ⟨store, waits⟩ := Prod.mk.inj stepped
    subst waits
    apply inv.within resumes holds rfl
    · intro other apart
      rw [← store]
      simp [setGate, apart]
    · rw [← store]
      rfl
    · rw [← store]
      rfl
    · rw [← store]
      exact Nat.le_succ _
    · intro key' gate' write' waiter same
      cases same
      rw [← store]
      exact Nat.lt_succ_self _
    · apply tested.wait inv.issued off (uses_of_owned holds) resumes blocks
      rw [← store]
      simp [setGate]
  · rename_i free
    obtain ⟨store, passes⟩ := Prod.mk.inj stepped
    subst passes
    apply inv.within resumes holds rfl
    · intro other apart
      rw [← store]
      simp [setGate, apart]
    · rw [← store]
      rfl
    · rw [← store]
      rfl
    · rw [← store]
      exact Nat.le_refl _
    · intro key' gate' write' waiter same
      cases same
    · apply tested.pass off (uses_of_owned holds) resumes (by simpa using free)
      rw [← store]
      simp [setGate]

/-- A gate nobody has fetched. -/
theorem Inv.unused (inv : Inv w) (unregistered : ∀ key, w.store.registry key ≠ some gate) :
    ∀ task ∈ w.tasks, uses gate task = false := by
  intro task member
  by_contra used
  obtain ⟨key, holds⟩ := owned_of_uses (by simpa using used)
  exact unregistered key (inv.registered task member key gate holds)

theorem Inv.fetch {index : Nat} (inv : Inv w)
    (resumes : program.Resumes w w' index (.entering key write) after ())
    (stepped : PathLock.fetch w.store key write = (w'.store, after)) : Inv w' := by
  unfold PathLock.fetch at stepped
  split at stepped
  · rename_i gate found
    obtain ⟨store, fetched⟩ := Prod.mk.inj stepped
    subst fetched
    have gates : w'.store.gates gate =
        { w.store.gates gate with users := (w.store.gates gate).users + 1 } := by
      rw [← store]
      simp [setGate]
    have registry : w'.store.registry = w.store.registry := by
      rw [← store]
      rfl
    constructor
    · intro other
      by_cases same : other = gate
      · subst same
        apply Counted.recount key (inv.counted other) resumes
        · rw [gates]
          simp [uses, owned]
        · rw [gates]
        · exact ⟨rfl, rfl, rfl⟩
        · exact ⟨rfl, rfl, rfl⟩
        · rfl
        · exact .inl rfl
      · apply (inv.counted other).frame resumes _ rfl (not_uses_of_owned rfl same)
        rw [← store]
        simp [setGate, same]
    · intro other member key' gate' own
      rw [registry]
      rcases resumes.mem_after member with new | old
      · rw [new] at own
        cases own
        exact found
      · exact inv.registered other old key' gate' own
    · rw [registry, ← store]
      exact inv.created
    · rw [registry]
      exact inv.apart
    · intro key' gate' write' waiter member
      rw [← store]
      rcases resumes.mem_after member with new | old
      · cases new
      · exact inv.issued key' gate' write' waiter old
  · rename_i missing
    obtain ⟨store, fetched⟩ := Prod.mk.inj stepped
    subst fetched
    have new_gate : ∀ key, w.store.registry key ≠ some w.store.created := by
      intro key' found
      exact absurd (inv.created key' _ found) (Nat.lt_irrefl _)
    have gates : w'.store.gates w.store.created = { users := 1 } := by
      rw [← store]
      simp [setGate]
    have registry : w'.store.registry =
        Function.update w.store.registry key (some w.store.created) := by
      rw [← store]
    have unused := inv.unused new_gate
    constructor
    · intro other
      by_cases same : other = w.store.created
      · subst same
        have zero : ∀ p : PathUser → Bool, (∀ task ∈ w.tasks, p task = false) →
            w.tasks.countP p = 0 := by
          intro p none_p
          rw [List.countP_eq_zero]
          intro task member
          simp [none_p task member]
        have used := resumes.countP (uses w.store.created)
        have read := resumes.countP (reads w.store.created)
        have written := resumes.countP (writes w.store.created)
        have awaited := resumes.countP (awaits w.store.created)
        rw [zero _ unused] at used
        rw [zero _ fun task member => (idle_of_unused (unused task member)).1] at read
        rw [zero _ fun task member => (idle_of_unused (unused task member)).2.1] at written
        rw [zero _ fun task member => (idle_of_unused (unused task member)).2.2] at awaited
        simp [uses, owned, reads, writes, awaits] at used read written awaited
        constructor
        · rw [gates]
          exact used.symm
        · rw [gates]
          exact (List.countP_eq_zero.mpr (by simpa [reads] using read)).symm
        · rw [gates]
          exact (List.countP_eq_zero.mpr (by simpa [writes] using written)).symm
        · rw [gates]
          exact (List.countP_eq_zero.mpr (by simpa [awaits] using awaited)).symm
        · rw [gates]
          intro claimed
          cases claimed
        · rw [gates]
          intro _ _ key' write' waiter _ forgotten
          cases forgotten
      · apply (inv.counted other).frame resumes _ rfl (not_uses_of_owned rfl same)
        rw [← store]
        simp [setGate, same]
    · intro other member key' gate' own
      rw [registry]
      rcases resumes.mem_after member with new | old
      · rw [new] at own
        cases own
        simp
      · have known := inv.registered other old key' gate' own
        have different : key' ≠ key := by
          intro same
          rw [same, missing] at known
          cases known
        rw [Function.update_of_ne different]
        exact known
    · intro key' gate' found
      rw [registry] at found
      rw [← store]
      by_cases same : key' = key
      · subst same
        simp only [Function.update_self, Option.some.injEq] at found
        rw [← found]
        exact Nat.lt_succ_self _
      · rw [Function.update_of_ne same] at found
        exact Nat.lt_succ_of_lt (inv.created key' gate' found)
    · intro key' other gate' found found'
      rw [registry] at found found'
      by_cases same : key' = key
      · by_cases same' : other = key
        · rw [same, same']
        · subst same
          rw [Function.update_of_ne same'] at found'
          simp only [Function.update_self, Option.some.injEq] at found
          exact absurd (found ▸ found') (new_gate other)
      · rw [Function.update_of_ne same] at found
        by_cases same' : other = key
        · subst same'
          simp only [Function.update_self, Option.some.injEq] at found'
          exact absurd (found' ▸ found) (new_gate key')
        · rw [Function.update_of_ne same'] at found'
          exact inv.apart key' other gate' found found'
    · intro key' gate' write' waiter member
      rw [← store]
      rcases resumes.mem_after member with new | old
      · cases new
      · exact inv.issued key' gate' write' waiter old

theorem Inv.release {index : Nat} (inv : Inv w)
    (resumes : program.Resumes w w' index (.left key gate) .gone ())
    (stepped : releaseEntry w.store key gate = w'.store) : Inv w' := by
  have gates : w'.store.gates =
      Function.update w.store.gates gate
        { w.store.gates gate with users := (w.store.gates gate).users - 1 } := by
    rw [← stepped]
    unfold releaseEntry
    dsimp only
    split <;> rfl
  have registry : w'.store.registry = w.store.registry ∨
      ((w'.store.gates gate).users = 0 ∧
        w'.store.registry = Function.update w.store.registry key none) := by
    rw [gates]
    simp only [Function.update_self]
    rw [← stepped]
    unfold releaseEntry
    dsimp only
    split
    · rename_i last
      exact .inr ⟨last, rfl⟩
    · exact .inl rfl
  have kept : ∀ key' gate', w'.store.registry key' = some gate' →
      w.store.registry key' = some gate' := by
    intro key' gate' found
    rcases registry with same | ⟨-, dropped⟩
    · rw [same] at found
      exact found
    · rw [dropped] at found
      by_cases same : key' = key
      · subst same
        simp at found
      · rwa [Function.update_of_ne same] at found
  have counters : w'.store.created = w.store.created ∧ w'.store.nextWaiter = w.store.nextWaiter := by
    rw [← stepped]
    unfold releaseEntry
    dsimp only
    split <;> exact ⟨rfl, rfl⟩
  have mine := (inv.counted gate).users
  have here : 0 < w.tasks.countP (uses gate) :=
    List.countP_pos_iff.mpr ⟨_, resumes.mem, uses_of_owned rfl⟩
  have counted : Counted w' gate := by
    apply Counted.recount key (inv.counted gate) resumes
    · rw [gates]
      simp [uses, owned]
      omega
    · rw [gates]
      simp
    · exact ⟨rfl, rfl, rfl⟩
    · exact ⟨rfl, rfl, rfl⟩
    · rfl
    · exact .inr rfl
  constructor
  · intro other
    by_cases same : other = gate
    · rw [same]
      exact counted
    · apply (inv.counted other).frame resumes _ (not_uses_of_owned rfl same) rfl
      rw [gates, Function.update_of_ne same]
  · intro other member key' gate' own
    have old : other ∈ w.tasks := by
      rcases resumes.mem_after member with new | old
      · rw [new] at own
        cases own
      · exact old
    have known := inv.registered other old key' gate' own
    rcases registry with same | ⟨last, dropped⟩
    · rw [same]
      exact known
    · rw [dropped]
      by_cases same : key' = key
      · subst same
        have owner := inv.registered _ resumes.mem key' gate rfl
        rw [known] at owner
        cases owner
        have positive : 0 < w'.tasks.countP (uses gate) :=
          List.countP_pos_iff.mpr ⟨other, member, uses_of_owned own⟩
        rw [← counted.users] at positive
        omega
      · rw [Function.update_of_ne same]
        exact known
  · intro key' gate' found
    rw [counters.1]
    exact inv.created key' gate' (kept key' gate' found)
  · intro key' other gate' found found'
    exact inv.apart key' other gate' (kept key' gate' found) (kept other gate' found')
  · intro key' gate' write' waiter member
    rw [counters.2]
    rcases resumes.mem_after member with new | old
    · cases new
    · exact inv.issued key' gate' write' waiter old

theorem Inv.resume {index : Nat} (inv : Inv w)
    (resumes : program.Resumes w w' index task after ()) : Inv w' := by
  have resumed := resumes.resumed
  cases task with
  | entering key write => exact inv.fetch resumes (Option.some.inj resumed)
  | fetched key gate write =>
    exact inv.test resumes rfl ⟨rfl, rfl⟩ ((inv.counted gate).announce rfl) (Option.some.inj resumed)
  | waiting key gate write waiter =>
    simp only [program, PathLock.resume] at resumed
    split at resumed
    · exact inv.test resumes rfl ⟨rfl, rfl⟩ (inv.counted gate).recheck (Option.some.inj resumed)
    · cases resumed
  | inside key gate write =>
    obtain ⟨store, leaves⟩ := Prod.mk.inj (Option.some.inj resumed)
    subst leaves
    have gates : w'.store.gates gate = (w.store.gates gate).given write := by
      rw [← store]
      simp [setGate]
    apply inv.within resumes rfl rfl
    · intro other apart
      rw [← store]
      simp [setGate, apart]
    · rw [← store]
      rfl
    · rw [← store]
      rfl
    · rw [← store]
      exact Nat.le_refl _
    · intro key' gate' write' waiter same
      cases same
    · exact (inv.counted gate).leave resumes gates
  | left key gate =>
    obtain ⟨store, leaves⟩ := Prod.mk.inj (Option.some.inj resumed)
    subst leaves
    exact inv.release resumes store
  | gone => cases resumed

theorem Inv.step {choice : Choice} (inv : Inv w) (stepped : program.step w choice = some w') :
    Inv w' := by
  obtain ⟨task, -, starts, store, tasks⟩ | ⟨index, input, task, after, -, resumes⟩ |
    ⟨-, restarted, -⟩ := Tasks.Program.step_cases _ stepped
  · obtain ⟨key, write, entering⟩ : ∃ key write, task = .entering key write := by
      cases task with
      | entering key write => exact ⟨key, write, rfl⟩
      | _ => cases starts
    subst entering
    have counts : ∀ p : PathUser → Bool, p (.entering key write) = false →
        w'.tasks.countP p = w.tasks.countP p := by
      intro p outside
      rw [tasks, List.countP_append]
      simp [outside]
    have earlier : ∀ other ∈ w'.tasks, other = .entering key write ∨ other ∈ w.tasks := by
      intro other member
      rw [tasks] at member
      rcases List.mem_append.mp member with old | new
      · exact .inr old
      · exact .inl (List.mem_singleton.mp new)
    constructor
    · intro gate
      have counted := inv.counted gate
      constructor
      · rw [store, counts _ rfl]
        exact counted.users
      · rw [store, counts _ rfl]
        exact counted.readers
      · rw [store, counts _ rfl]
        exact counted.writer
      · rw [store, counts _ rfl]
        exact counted.waitingWriters
      · rw [store]
        exact counted.exclusive
      · rw [store]
        intro unwritten unread key' write' waiter member
        rcases earlier _ member with new | old
        · cases new
        · exact counted.forgotten unwritten unread key' write' waiter old
    · intro other member key' gate own
      rw [store]
      rcases earlier other member with new | old
      · rw [new] at own
        cases own
      · exact inv.registered other old key' gate own
    · rw [store]
      exact inv.created
    · rw [store]
      exact inv.apart
    · intro key' gate write' waiter member
      rw [store]
      rcases earlier _ member with new | old
      · cases new
      · exact inv.issued key' gate write' waiter old
  · cases input
    exact inv.resume resumes
  · cases restarted

theorem Inv.init : Inv ({ store := {} } : World) := by
  constructor
  · intro gate
    constructor
    · rfl
    · rfl
    · rfl
    · rfl
    · intro claimed
      cases claimed
    · intro _ _ key write waiter member
      cases member
  · intro task member
    cases member
  · intro key gate found
    cases found
  · intro key other gate found
    cases found
  · intro key gate write waiter member
    cases member

/-! ## The gate -/

/-- The users of a path are the users of its gate. -/
theorem Inv.inside_gate (inv : Inv w) (member : task ∈ w.tasks)
    (found : w.store.registry key = some gate) (inside : isInside key task = true) :
    ∃ write, task = .inside key gate write := by
  cases task with
  | inside other gate' write =>
    have same : other = key := by simpa [isInside] using inside
    subst same
    have known := inv.registered _ member other gate' rfl
    rw [found] at known
    cases known
    exact ⟨write, rfl⟩
  | _ => cases inside

theorem Inv.waiting_gate (inv : Inv w) (member : task ∈ w.tasks)
    (found : w.store.registry key = some gate) (waits : isWaiting key task = true) :
    ∃ write waiter, task = .waiting key gate write waiter := by
  cases task with
  | waiting other gate' write waiter =>
    have same : other = key := by simpa [isWaiting] using waits
    subst same
    have known := inv.registered _ member other gate' rfl
    rw [found] at known
    cases known
    exact ⟨write, waiter, rfl⟩
  | _ => cases waits

theorem countP_eraseIdx {α : Type} {p : α → Bool} {l : List α} {index : Nat} {a : α}
    (here : l[index]? = some a) (hit : p a = true) :
    l.countP p = (l.eraseIdx index).countP p + 1 := by
  obtain ⟨bound, same⟩ := List.getElem?_eq_some_iff.mp here
  have whole : l = l.take index ++ a :: l.drop (index + 1) := by
    rw [← same]
    simp
  rw [List.eraseIdx_eq_take_drop_succ]
  conv_lhs => rw [whole]
  rw [List.countP_append, List.countP_append, List.countP_cons_of_pos hit]
  omega

theorem Inv.excludes (inv : Inv w) {index : Nat}
    (here : w.tasks[index]? = some (.inside key gate true)) {other : PathUser}
    (member : other ∈ w.tasks.eraseIdx index) : isInside key other = false := by
  by_contra inside
  have writer := List.mem_of_getElem? here
  have found := inv.registered _ writer key gate rfl
  obtain ⟨write, beside⟩ :=
    inv.inside_gate (List.mem_of_mem_eraseIdx member) found (by simpa using inside)
  subst beside
  have counted := inv.counted gate
  have atMost := Bool.toNat_le (w.store.gates gate).writer
  have one := countP_eraseIdx (p := writes gate) here (by simp)
  have writers := counted.writer
  cases write with
  | true =>
    have second : 0 < (w.tasks.eraseIdx index).countP (writes gate) :=
      List.countP_pos_iff.mpr ⟨_, member, by simp⟩
    omega
  | false =>
    have reader : 0 < w.tasks.countP (reads gate) :=
      List.countP_pos_iff.mpr ⟨_, List.mem_of_mem_eraseIdx member, by simp⟩
    have claimed : (w.store.gates gate).writer = true := by
      cases claim : (w.store.gates gate).writer with
      | true => rfl
      | false =>
        rw [claim, Bool.toNat_false] at writers
        omega
    have empty := counted.exclusive claimed
    rw [counted.readers] at empty
    omega

theorem Inv.awake (inv : Inv w) (empty : ∀ task ∈ w.tasks, isInside key task = false) :
    (∃ task ∈ w.tasks, isWaiting key task = true ∧ isNotified w.store task = true) ∨
      ∀ task ∈ w.tasks, isWaiting key task = false := by
  by_cases waits : ∃ task ∈ w.tasks, isWaiting key task = true
  · left
    obtain ⟨task, member, waiting⟩ := waits
    obtain ⟨gate, found⟩ : ∃ gate, w.store.registry key = some gate := by
      cases task with
      | waiting other gate write waiter =>
        have same : other = key := by simpa [isWaiting] using waiting
        subst same
        exact ⟨gate, inv.registered _ member other gate rfl⟩
      | _ => cases waiting
    obtain ⟨write, waiter, place⟩ := inv.waiting_gate member found waiting
    subst place
    have counted := inv.counted gate
    have none_inside : ∀ p : PathUser → Bool,
        (∀ task, p task = true → uses gate task = true ∧ ∃ key' write', task = .inside key' gate write') →
          w.tasks.countP p = 0 := by
      intro p shape
      rw [List.countP_eq_zero]
      intro other there hit
      obtain ⟨-, key', write', place⟩ := shape other hit
      have known := inv.registered other there key' gate (by rw [place]; rfl)
      have same := inv.apart key' key gate known found
      have outside := empty other there
      rw [place, same] at outside
      simp [isInside] at outside
    have unwritten : (w.store.gates gate).writer = false := by
      have zero := none_inside (writes gate) (by
        intro other hit
        cases other <;> simp_all [writes, uses, owned])
      have writers := counted.writer
      cases claim : (w.store.gates gate).writer with
      | false => rfl
      | true =>
        rw [claim, Bool.toNat_true] at writers
        omega
    have unread : (w.store.gates gate).readers = 0 := by
      rw [counted.readers]
      apply none_inside (reads gate)
      intro other hit
      cases other <;> simp_all [reads, uses, owned]
    by_cases told : waiter ∈ (w.store.gates gate).waiters
    · -- a reader that is not notified stands behind a writer, and that one is notified
      obtain ⟨-, behind⟩ := counted.forgotten unwritten unread key write waiter member told
      rw [counted.waitingWriters] at behind
      obtain ⟨writer, there, awaiting⟩ := List.countP_pos_iff.mp behind
      cases writer with
      | waiting other gate' kind waiter' =>
        simp only [awaits, Bool.and_eq_true, beq_iff_eq] at awaiting
        obtain ⟨own, writes⟩ := awaiting
        subst own writes
        have known := inv.registered _ there other gate' rfl
        have same := inv.apart other key gate' known found
        refine ⟨_, there, ?_, ?_⟩
        · simp [isWaiting, same]
        · by_contra silent
          have forgotten : waiter' ∈ (w.store.gates gate').waiters := by
            simpa [isNotified, notified] using silent
          have reader := (counted.forgotten unwritten unread other true waiter' there forgotten).1
          cases reader
      | _ => cases awaiting
    · refine ⟨_, member, waiting, ?_⟩
      simpa [isNotified, notified] using told
  · right
    intro task member
    by_contra waiting
    exact waits ⟨task, member, by simpa using waiting⟩

/-- An entry is removed by the last thread that leaves. -/
theorem Inv.removed (inv : Inv w) {choice : Choice} (stepped : program.step w choice = some w')
    (found : w.store.registry key = some gate) (gone : w'.store.registry key ≠ some gate) :
    ∀ task ∈ w.tasks, isInside key task = false ∧ isWaiting key task = false := by
  have inv' := inv.step stepped
  obtain ⟨task, -, -, store, -⟩ | ⟨index, input, task, after, -, resumes⟩ |
    ⟨-, restarted, -⟩ := Tasks.Program.step_cases _ stepped
  · rw [store] at gone
    exact absurd found gone
  · have users : ∀ other ∈ w.tasks, owned other = some (key, gate) → other = task := by
      intro other member own
      obtain ⟨before, later, tasks, tasks'⟩ := resumes.split
      rw [tasks] at member
      by_contra different
      have stays : other ∈ w'.tasks := by
        rw [tasks']
        rcases List.mem_append.mp member with first | last
        · exact List.mem_append_left _ first
        · rcases List.mem_cons.mp last with same | last
          · exact absurd same different
          · exact List.mem_append_right _ (List.mem_cons_of_mem _ last)
      exact gone (inv'.registered other stays key gate own)
    have left : owned after ≠ some (key, gate) := by
      intro own
      apply gone
      exact inv'.registered after (by rw [resumes.tasks]; exact List.mem_of_getElem? (by
        rw [List.getElem?_set_self (List.getElem?_eq_some_iff.mp resumes.at_index).1])) key gate own
    intro other member
    constructor
    · by_contra inside
      obtain ⟨write, place⟩ := inv.inside_gate member found (by simpa using inside)
      have mover := users other member (by rw [place]; rfl)
      rw [← mover, place] at resumes
      obtain ⟨-, leaves⟩ := Prod.mk.inj (Option.some.inj resumes.resumed)
      exact left (by rw [← leaves]; rfl)
    · by_contra waiting
      obtain ⟨write, waiter, place⟩ := inv.waiting_gate member found (by simpa using waiting)
      have mover := users other member (by rw [place]; rfl)
      have resumed := resumes.resumed
      rw [← mover, place] at resumed
      simp only [program, PathLock.resume] at resumed
      split at resumed
      · unfold PathLock.test at resumed
        split at resumed
        · obtain ⟨-, leaves⟩ := Prod.mk.inj (Option.some.inj resumed)
          exact left (by rw [← leaves]; rfl)
        · obtain ⟨-, leaves⟩ := Prod.mk.inj (Option.some.inj resumed)
          exact left (by rw [← leaves]; rfl)
      · cases resumed
  · cases restarted

/-- In every state of every schedule of readers and writers, a writer inside is alone, the
threads of a path use the gate the registry maps it to, the entry is removed only with
nobody inside or waiting, and with nobody inside some waiter has been notified or nobody
waits. -/
theorem path_gate_safe (w : World)
    (run : program.Runs (fun _ _ => True) { store := {} } w) : Safe w := by
  have inv : Inv w := run.invariant Inv .init fun _ _ _ inv _ stepped => inv.step stepped
  constructor
  · intro index key gate here other member
    exact inv.excludes here member
  · exact inv.registered
  · intro choice w' key gate stepped found gone
    exact inv.removed stepped found gone
  · intro key empty
    exact inv.awake empty

/-- A reader inside, a writer that waits for it, and a reader behind the writer. -/
def contended : List Choice :=
  [.spawn (.entering "a" false), .run 0 (), .run 0 (), .spawn (.entering "a" true), .run 1 (),
    .run 1 (), .spawn (.entering "a" false), .run 2 (), .run 2 (), .run 0 (), .run 2 (), .run 1 ()]

theorem path_gate_safe_contended :
    ∃ w, program.Runs (fun _ _ => True) { store := {} } w ∧
      w.tasks = [.left "a" 0, .inside "a" 0 true, .waiting "a" 0 false 2] ∧ Safe w := by
  have played : (Machine.play program.step (fun _ _ => true) { store := {} } contended).any
      (fun w => w.tasks == [.left "a" 0, .inside "a" 0 true, .waiting "a" 0 false 2]) = true := by
    decide +kernel
  obtain ⟨w, run, test⟩ := Machine.Runs.exists_of_play played
  have anyRun : program.Runs (fun _ _ => True) { store := {} } w := run.mono fun _ _ _ => trivial
  exact ⟨w, anyRun, by simpa using test, path_gate_safe w anyRun⟩

end SherryAgent.Guarantees.PathLock
