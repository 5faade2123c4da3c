import SherryAgent.Contracts.Subagent.Swarm

/-!
# Swarm scheduling

Admission is counted under the pump lock; the ends of runs go through functions only some
of which pump.

* `scheduled_while_careful` — while no reserved run is killed or finalized, no queued one
  completed as ok, and a finalized active run leaves none waiting, the group stays
  scheduled;
* `finalized_run_idles_its_slot` — orphan finalisation of the active run pumps nothing, and
  a killed reserved run stays reserved in the queue, where the next pump activates it.
-/

namespace SherryAgent.Guarantees.Swarm

open SherryAgent.Library SherryAgent.Source.Subagent SherryAgent.Source.Subagent.Swarm
  SherryAgent.Contracts.Subagent SherryAgent.Contracts.Subagent.Swarm

abbrev World := Tasks.World SwarmStore SwarmTask
abbrev Choice := Tasks.Choice SwarmTask SwarmInput

variable {maxRetained : Nat} {config : SwarmGroupConfig} {w w' : World}

/-- An operation that has begun and not ended. -/
def inProgress : SwarmTask → Bool
  | .pump _ | .starting _ _ _ | .killAnnouncing _ _ | .settling _ | .orphanAnnouncing _ => true
  | _ => false

/-- A run that waits to be activated, and has not ended. -/
def liveReserved (config : SwarmGroupConfig) (run : SubagentRunRecord) : Bool :=
  ofGroup config run && run.swarmRunState == some .reserved && run.execution.status != .terminal

/-- A run in the queue waits and has not ended. -/
def Waits (config : SwarmGroupConfig) (store : SwarmStore) : Prop :=
  ∃ id ∈ store.queue, ∃ run ∈ store.runs.get id, liveReserved config run = true

structure Scheduled (config : SwarmGroupConfig) (w : World) : Prop where
  capped : countActive config w.store.runs ≤ config.maxConcurrent
  in_order : w.store.activated.Sublist w.store.reserved
  once : w.store.activated.Nodup
  never_terminal : w.store.revived = []
  no_idle_slot : (∀ task ∈ w.tasks, inProgress task = false) →
    ¬ Waits config w.store ∨ countActive config w.store.runs = config.maxConcurrent

/-- The run has ended already, or does not wait for its activation. -/
def Started (store : SwarmStore) (runId : String) : Prop :=
  ∀ run ∈ store.runs.get runId,
    run.execution.status = .terminal ∨ run.swarmRunState ≠ some .reserved

/-- The condition on the task that moves next. -/
def CarefulTask (config : SwarmGroupConfig) (store : SwarmStore) : SwarmTask → Prop
  | .complete runId outcome _ => outcome.status = .ok → runId ∉ store.queue
  | .kill runId _ => Started store runId
  | .finalize runId => Started store runId ∧
      ∀ run ∈ store.runs.get runId, isActive config run = true → ¬ Waits config store
  | .killAnnouncing copy _ => (store.runs.get copy.runId).isSome = true
  | _ => True

/-- No reserved run is killed or finalized, no queued one is completed as ok, no active run
is finalized while another waits, and a killed run is retained until its announcement is
over. -/
def Careful (config : SwarmGroupConfig) (w : World) : Choice → Prop
  | .run index _ => ∀ task ∈ w.tasks[index]?, CarefulTask config w.store task
  | _ => True

instance (config : SwarmGroupConfig) (store : SwarmStore) : Decidable (Waits config store) :=
  inferInstanceAs (Decidable (∃ id ∈ _, ∃ run ∈ store.runs.get id, _ = true))

instance (store : SwarmStore) (runId : String) : Decidable (Started store runId) :=
  inferInstanceAs (Decidable (∀ run ∈ store.runs.get runId, _ ∨ _))

instance (store : SwarmStore) : (task : SwarmTask) → Decidable (CarefulTask config store task)
  | .complete _ outcome _ => inferInstanceAs (Decidable (outcome.status = .ok → _))
  | .kill runId _ => inferInstanceAs (Decidable (Started store runId))
  | .finalize runId =>
    inferInstanceAs (Decidable (Started store runId ∧ ∀ run ∈ store.runs.get runId, _ → _))
  | .killAnnouncing _ _ => inferInstanceAs (Decidable (_ = true))
  | .reserve _ _ _ | .pump _ | .starting _ _ _ | .settling _ | .orphanAnnouncing _
  | .finished => isTrue trivial

instance (w : World) : (choice : Choice) → Decidable (Careful config w choice)
  | .run index _ =>
    inferInstanceAs (Decidable (∀ task ∈ w.tasks[index]?, CarefulTask config w.store task))
  | .spawn _ | .restart => isTrue trivial

/-! ## The invariant -/

def isStarting : SwarmTask → Bool
  | .starting _ _ _ => true
  | _ => false

/-- A task that will pump. -/
def isPending : SwarmTask → Bool
  | .pump _ | .killAnnouncing _ _ => true
  | _ => false

def afterCopies : AfterPump → List SubagentRunRecord
  | .return => []
  | .markAborted copy => [copy]

/-- The records a task holds and may write back. -/
def copiesOf : SwarmTask → List SubagentRunRecord
  | .killAnnouncing copy announced => [copy, announced]
  | .settling copy => [copy]
  | .orphanAnnouncing announced => [announced]
  | .pump after | .starting _ _ after => afterCopies after
  | _ => []

/-- What the holder of the pump lock may still activate after the run it starts. -/
def Held (w : World) (held : Int) : Prop :=
  (w.store.locked = false ∧ held = 0) ∨
    ∃ id after, SwarmTask.starting id (held + 1) after ∈ w.tasks

structure Inv (config : SwarmGroupConfig) (w : World) : Prop where
  store : StoreOk config w.store
  copies : ∀ task ∈ w.tasks, ∀ copy ∈ copiesOf task, Copy config w.store copy
  lock : w.tasks.countP isStarting = w.store.locked.toNat
  slots : ∀ held, Held w held → 0 ≤ held ∧
    countActive config w.store.runs + held ≤ config.maxConcurrent ∧
    (Waiting w.store → countActive config w.store.runs + held < config.maxConcurrent →
      ∃ task ∈ w.tasks, isPending task = true)

theorem waits_iff {store : SwarmStore} (ok : StoreOk config store) :
    Waits config store ↔ Waiting store := by
  constructor
  · intro waits
    obtain ⟨id, member, run, found, live⟩ := waits
    simp only [liveReserved, Bool.and_eq_true, beq_iff_eq] at live
    exact ⟨id, member, run, found, live.1.2⟩
  · intro waits
    obtain ⟨id, member, run, found, reserved⟩ := waits
    refine ⟨id, member, run, found, ?_⟩
    simp [liveReserved, ok.group id run found, reserved, ok.live id run found reserved]

variable {task after : SwarmTask} {before later : List SwarmTask}

/-- Some budget is held whenever the lock is. -/
theorem Inv.held (inv : Inv config w) : ∃ held, Held w held := by
  cases locked : w.store.locked with
  | false => exact ⟨0, .inl ⟨locked, rfl⟩⟩
  | true =>
    have counted := inv.lock
    rw [locked] at counted
    have positive : 0 < w.tasks.countP isStarting := by
      rw [counted]
      decide
    obtain ⟨task, member, starting⟩ := List.countP_pos_iff.mp positive
    cases task with
    | starting id budget after => exact ⟨budget - 1, .inr ⟨id, after, by simpa using member⟩⟩
    | _ => cases starting

/-- The invariant gives the schedule. -/
theorem Inv.scheduled (inv : Inv config w) : Scheduled config w := by
  have order := inv.store.order
  constructor
  · obtain ⟨held, holds⟩ := inv.held
    obtain ⟨positive, capped, -⟩ := inv.slots held holds
    omega
  · exact (List.sublist_append_left _ _).trans order
  · exact inv.store.distinct.sublist ((List.sublist_append_left _ _).trans order)
  · exact inv.store.never
  · intro idle
    by_cases waits : Waits config w.store
    · right
      obtain ⟨held, holds⟩ := inv.held
      obtain ⟨positive, capped, wakes⟩ := inv.slots held holds
      have none_held : held = 0 := by
        rcases holds with ⟨-, zero⟩ | ⟨id, after, member⟩
        · exact zero
        · have quiet := idle _ member
          cases quiet
      by_contra free
      obtain ⟨task, member, pending⟩ := wakes ((waits_iff inv.store).mp waits) (by omega)
      have quiet := idle task member
      cases task <;> simp [inProgress, isPending] at quiet pending
    · exact .inl waits

/-! ## Steps -/

theorem mem_around {other : SwarmTask} (tasks : w.tasks = before ++ task :: later)
    (member : other ∈ w.tasks) : other = task ∨ other ∈ before ++ later := by
  rw [tasks] at member
  simp only [List.mem_append, List.mem_cons] at member ⊢
  tauto

theorem around_mem {other : SwarmTask} (tasks' : w'.tasks = before ++ after :: later)
    (member : other = after ∨ other ∈ before ++ later) : other ∈ w'.tasks := by
  rw [tasks']
  simp only [List.mem_append, List.mem_cons] at member ⊢
  tauto

/-- The copies of the tasks after a step: those of the task that moved, or held before. -/
theorem copies_replace (inv : Inv config w) (tasks : w.tasks = before ++ task :: later)
    (tasks' : w'.tasks = before ++ after :: later)
    (kept : ∀ copy, Copy config w.store copy → Copy config w'.store copy)
    (own : ∀ copy ∈ copiesOf after, Copy config w'.store copy) :
    ∀ other ∈ w'.tasks, ∀ copy ∈ copiesOf other, Copy config w'.store copy := by
  intro other member copy held
  rcases mem_around tasks' member with rfl | elsewhere
  · exact own copy held
  · exact kept copy (inv.copies other (around_mem tasks (.inr elsewhere)) copy held)

/-- A step of a task that neither takes nor holds the pump lock. -/
theorem Inv.replace (inv : Inv config w) (tasks : w.tasks = before ++ task :: later)
    (tasks' : w'.tasks = before ++ after :: later) (ok : StoreOk config w'.store)
    (kept : ∀ copy, Copy config w.store copy → Copy config w'.store copy)
    (own : ∀ copy ∈ copiesOf after, Copy config w'.store copy)
    (idle : isStarting task = false) (idle' : isStarting after = false)
    (locked : w'.store.locked = w.store.locked)
    (count : countActive config w'.store.runs ≤ countActive config w.store.runs)
    (wakes : isPending after = true ∨ isPending task = false ∧ (Waiting w'.store →
      Waiting w.store ∧ countActive config w'.store.runs = countActive config w.store.runs)) :
    Inv config w' := by
  constructor
  · exact ok
  · exact copies_replace inv tasks tasks' kept own
  · have lock := inv.lock
    rw [tasks] at lock
    rw [tasks', locked]
    simpa [List.countP_append, List.countP_cons, idle, idle'] using lock
  · intro held holds
    have held_before : Held w held := by
      rcases holds with ⟨free, zero⟩ | ⟨id, next, member⟩
      · exact .inl ⟨locked ▸ free, zero⟩
      · rcases mem_around tasks' member with same | elsewhere
        · rw [← same] at idle'
          cases idle'
        · exact .inr ⟨id, next, around_mem tasks (.inr elsewhere)⟩
    obtain ⟨positive, capped, pending⟩ := inv.slots held held_before
    refine ⟨positive, by omega, ?_⟩
    intro waits free
    rcases wakes with new | ⟨quiet, same⟩
    · exact ⟨after, around_mem tasks' (.inl rfl), new⟩
    · obtain ⟨waited, counts⟩ := same waits
      obtain ⟨other, member, wake⟩ := pending waited (by omega)
      rcases mem_around tasks member with rfl | elsewhere
      · rw [quiet] at wake
        cases wake
      · exact ⟨other, around_mem tasks' (.inr elsewhere), wake⟩

/-- A step that leaves the store as it is. -/
theorem Inv.still (inv : Inv config w) (tasks : w.tasks = before ++ task :: later)
    (tasks' : w'.tasks = before ++ after :: later) (same : w'.store = w.store)
    (own : ∀ copy ∈ copiesOf after, Copy config w.store copy)
    (idle : isStarting task = false) (idle' : isStarting after = false)
    (wakes : isPending task = false ∨ isPending after = true) : Inv config w' := by
  apply inv.replace tasks tasks'
  · rw [same]
    exact inv.store
  · intro copy kept
    rw [same]
    exact kept
  · rw [same]
    exact own
  · exact idle
  · exact idle'
  · rw [same]
  · rw [same]
  · rcases wakes with quiet | wake
    · exact .inr ⟨quiet, by rw [same]; exact fun waits => ⟨waits, rfl⟩⟩
    · exact .inl wake

/-! ## The pump -/

theorem StoreOk.relock {store : SwarmStore} (ok : StoreOk config store) (locked : Bool) :
    StoreOk config { store with locked } :=
  ⟨ok.keyed, ok.order, ok.distinct, ok.never, ok.known, ok.group, ok.live, ok.queued⟩

theorem Copy.relock {store : SwarmStore} {copy : SubagentRunRecord}
    (kept : Copy config store copy) (locked : Bool) : Copy config { store with locked } copy :=
  ⟨kept.itself, kept.group, kept.known, kept.unqueued, kept.record⟩

theorem copiesOf_afterPump (next : AfterPump) : copiesOf (afterPump next) = afterCopies next := by
  cases next <;> rfl

theorem isStarting_afterPump (next : AfterPump) : isStarting (afterPump next) = false := by
  cases next <;> rfl

/-- The one task that holds the lock. -/
theorem held_unlocked (tasks' : w'.tasks = before ++ after :: later)
    (others : (before ++ later).countP isStarting = 0) (idle : isStarting after = false)
    {held : Int} (holds : Held w' held) : held = 0 := by
  rcases holds with ⟨-, zero⟩ | ⟨id, next, member⟩
  · exact zero
  · rcases mem_around tasks' member with same | elsewhere
    · rw [← same] at idle
      cases idle
    · have none_starts := List.countP_eq_zero.mp others _ elsewhere
      simp [isStarting] at none_starts

theorem held_starting {runId : String} {left : Int} {next : AfterPump}
    (tasks' : w'.tasks = before ++ .starting runId left next :: later)
    (others : (before ++ later).countP isStarting = 0) (locked : w'.store.locked = true)
    {held : Int} (holds : Held w' held) : held = left - 1 := by
  rcases holds with ⟨free, -⟩ | ⟨id, other, member⟩
  · rw [locked] at free
    cases free
  · rcases mem_around tasks' member with same | elsewhere
    · have budget := (SwarmTask.starting.injEq _ _ _ _ _ _).mp same
      omega
    · have none_starts := List.countP_eq_zero.mp others _ elsewhere
      simp [isStarting] at none_starts

/-- A pass of the pump under the lock, with a budget that leaves no waiting run a free
slot unless another task will pump. -/
theorem Inv.pumpOn (inv : Inv config w) {next : AfterPump} {now : Time} {budget : Int}
    (tasks : w.tasks = before ++ task :: later) (tasks' : w'.tasks = before ++ after :: later)
    (pumped : pumpOn maxRetained config now { w.store with locked := true } budget next =
      (w'.store, after))
    (others : (before ++ later).countP isStarting = 0)
    (capped : countActive config w.store.runs + budget ≤ config.maxConcurrent)
    (wakes : Waiting w.store → countActive config w.store.runs + budget < config.maxConcurrent →
      ∃ other ∈ before ++ later, isPending other = true)
    (own : ∀ copy ∈ afterCopies next, Copy config w.store copy)
    (fits : countActive config w.store.runs ≤ config.maxConcurrent) : Inv config w' := by
  have queued : ∀ id ∈ w.store.queue, ∀ run, w.store.runs.get id = some run →
      Queued run ∧ ofGroup config run = true := by
    intro id member run found
    exact ⟨inv.store.queued id member run found, inv.store.group id run found⟩
  have locked_ok := StoreOk.relock inv.store true
  rcases pumpLoop_cases maxRetained config now { w.store with locked := true } w.store.queue queued
      budget with
    ⟨rest, looped, suffix, ends⟩ | ⟨id, rest, run, left, looped, front, found, waits, spare, which⟩
  · simp only [Swarm.pumpOn, looped, Prod.mk.injEq] at pumped
    obtain ⟨store, task'⟩ := pumped
    have dequeued := inv.store.dequeue suffix
    have same_runs : w'.store.runs = w.store.runs := by rw [← store]
    have idle : isStarting after = false := by
      rw [← task']
      exact isStarting_afterPump next
    constructor
    · rw [← store]
      exact StoreOk.relock dequeued false
    · apply copies_replace inv tasks tasks'
      · intro copy kept
        rw [← store]
        exact Copy.relock (kept.dequeue suffix) false
      · rw [← task', copiesOf_afterPump]
        intro copy member
        rw [← store]
        exact Copy.relock ((own copy member).dequeue suffix) false
    · rw [tasks', ← store]
      simpa [List.countP_append, List.countP_cons, idle] using others
    · intro held holds
      obtain rfl := held_unlocked tasks' others idle holds
      rw [same_runs]
      refine ⟨by omega, by omega, ?_⟩
      intro waits free
      have waited : Waiting w.store := by
        apply Waiting.dequeue suffix
        rw [← store] at waits
        exact waits
      have spent : budget ≤ 0 := by
        rcases ends with empty | spent | counted
        · obtain ⟨id, member, -⟩ := waits
          rw [← store, empty] at member
          cases member
        · exact spent
        · have anew : config.maxConcurrent - countActive config w.store.runs ≤ (0 : Int) := counted
          omega
      obtain ⟨other, member, wake⟩ := wakes waited (by omega)
      exact ⟨other, around_mem tasks' (.inr member), wake⟩
  · simp only [Swarm.pumpOn, looped, Prod.mk.injEq] at pumped
    obtain ⟨store, task'⟩ := pumped
    obtain ⟨activated, count, kept, waited, locked⟩ :=
      locked_ok.activate maxRetained now front found waits
    rw [store] at activated count kept waited locked
    have total : countActive config w'.store.runs = countActive config w.store.runs + 1 := count
    rw [← task'] at tasks'
    constructor
    · exact activated
    · apply copies_replace inv tasks tasks'
      · intro copy old
        exact kept copy (Copy.relock old true)
      · intro copy member
        exact kept copy (Copy.relock (own copy member) true)
    · rw [tasks', locked]
      have holder : isStarting (.starting id left next) = true := rfl
      rw [List.countP_append] at others
      simp only [List.countP_append, List.countP_cons, holder, if_true, Bool.toNat_true]
      omega
    · intro held holds
      obtain rfl := held_starting tasks' others locked holds
      rw [total]
      push_cast
      have bound : countActive config w.store.runs + left ≤ config.maxConcurrent := by
        rcases which with same | counted
        · rw [same]
          exact capped
        · have anew : left = config.maxConcurrent - countActive config w.store.runs := counted
          omega
      refine ⟨by omega, by omega, ?_⟩
      intro waits free
      have same : left = budget := by
        rcases which with same | counted
        · exact same
        · have anew : left = config.maxConcurrent - countActive config w.store.runs := counted
          omega
      obtain ⟨other, member, wake⟩ := wakes (waited waits) (by omega)
      exact ⟨other, around_mem tasks' (.inr member), wake⟩

/-! ## The operations -/

theorem Inv.complete (inv : Inv config w) {runId : String} {outcome : RunOutcome}
    {resultText : Option String} {now : Time} {next : AfterPump} {run : SubagentRunRecord}
    (tasks : w.tasks = before ++ task :: later) (tasks' : w'.tasks = before ++ after :: later)
    (completes : complete maxRetained w.store runId outcome resultText now next =
      (w'.store, after))
    (found : w.store.runs.get runId = some run) (idle : isStarting task = false)
    (careful : outcome.status = .ok → runId ∉ w.store.queue)
    (own : ∀ copy ∈ afterCopies next, Copy config w.store copy) : Inv config w' := by
  unfold Swarm.complete at completes
  rw [found] at completes
  obtain ⟨store, task'⟩ := Prod.mk.inj completes
  have itself : run.runId = runId := inv.store.keyed.get_runId found
  have isOver : Over (completed run outcome resultText now) := completed_over
  have kept : ∀ copy, Copy config w.store copy → Copy config w'.store copy := by
    intro copy old
    rw [← store]
    exact old.write inv.store.keyed fun _ => isOver
  apply inv.replace tasks tasks'
  · rw [← store]
    apply inv.store.write
    · rw [completed_runId, itself]
      exact inv.store.known runId run found
    · have group := inv.store.group runId run found
      unfold ofGroup at group ⊢
      rw [completed_group]
      exact group
    · intro reserved
      exact absurd reserved isOver.unreserved
    · intro member
      rw [completed_runId, itself] at member
      by_cases ok : outcome.status = .ok
      · exact absurd member (careful ok)
      · right
        exact ⟨by simp [completed, ok], isOver.terminal⟩
  · exact kept
  · rw [← task']
    intro copy member
    exact kept copy (own copy member)
  · exact idle
  · rw [← task']
    rfl
  · rw [← store]
    rfl
  · rw [← store]
    exact countActive_write_over inv.store.keyed isOver
  · left
    rw [← task']
    rfl

/-- The end of a live run that does not wait, by a kill or an orphan finalisation. -/
theorem Inv.finish (inv : Inv config w) {runId : String} {run new : SubagentRunRecord}
    (tasks : w.tasks = before ++ task :: later) (tasks' : w'.tasks = before ++ after :: later)
    (store : w'.store = write maxRetained w.store new)
    (found : w.store.runs.get runId = some run) (live : run.execution.status ≠ .terminal)
    (started : Started w.store runId) (sameId : new.runId = run.runId)
    (sameGroup : new.swarmGroupId = run.swarmGroupId)
    (sameState : new.swarmRunState = run.swarmRunState)
    (terminal : new.execution.status = .terminal) (held : ∀ copy ∈ copiesOf after, copy = new)
    (idle : isStarting task = false) (idle' : isStarting after = false)
    (wakes : isPending after = true ∨ isPending task = false ∧
      (isActive config run = true → ¬ Waits config w.store)) : Inv config w' := by
  have unreserved : run.swarmRunState ≠ some .reserved := by
    rcases started run found with ended | unreserved
    · exact absurd ended live
    · exact unreserved
  have isOver : Over new := ⟨terminal, by rw [sameState]; exact unreserved⟩
  obtain ⟨ok, itself⟩ := inv.store.finish maxRetained found live unreserved sameId sameGroup isOver
  rw [← store] at ok itself
  apply inv.replace tasks tasks' ok
  · intro copy old
    rw [store]
    exact old.write inv.store.keyed fun _ => isOver
  · intro copy member
    rw [held copy member]
    exact itself
  · exact idle
  · exact idle'
  · rw [store]
    rfl
  · rw [store]
    exact countActive_write_over inv.store.keyed isOver
  · rcases wakes with new | ⟨quiet, unawaited⟩
    · exact .inl new
    · refine .inr ⟨quiet, ?_⟩
      intro waits
      rw [store] at waits
      have waited := waits.of_write inv.store.keyed isOver
      refine ⟨waited, ?_⟩
      rw [store]
      apply countActive_write_inactive inv.store.keyed found
      · rw [sameId]
        exact inv.store.keyed.get_runId found
      · by_contra active
        exact unawaited (by simpa using active) ((waits_iff inv.store).mpr waited)
      · exact over_inactive isOver

/-- A copy of a run that is over is written back. -/
theorem Inv.writeBack (inv : Inv config w) (held : SubagentRunRecord) {new : SubagentRunRecord}
    (tasks : w.tasks = before ++ task :: later) (tasks' : w'.tasks = before ++ after :: later)
    (store : w'.store = write maxRetained w.store new) (holds : held ∈ copiesOf task)
    (sameId : new.runId = held.runId) (sameGroup : new.swarmGroupId = held.swarmGroupId)
    (sameState : new.swarmRunState = held.swarmRunState)
    (sameExecution : new.execution = held.execution)
    (own : ∀ copy ∈ copiesOf after, copy ∈ copiesOf task ∨ copy = new)
    (idle : isStarting task = false) (idle' : isStarting after = false)
    (wakes : isPending task = false ∨ isPending after = true) : Inv config w' := by
  have here : task ∈ w.tasks := around_mem tasks (.inl rfl)
  have copy := inv.copies task here held holds
  have isOver : Over new := by
    constructor
    · rw [sameExecution]
      exact copy.itself.terminal
    · rw [sameState]
      exact copy.itself.unreserved
  obtain ⟨ok, count, itself⟩ := copy.writeBack maxRetained inv.store sameId sameGroup isOver
  rw [← store] at ok count itself
  have kept : ∀ copy, Copy config w.store copy → Copy config w'.store copy := by
    intro copy old
    rw [store]
    exact old.write inv.store.keyed fun _ => isOver
  apply inv.replace tasks tasks' ok kept
  · intro other member
    rcases own other member with old | rfl
    · exact kept other (inv.copies task here other old)
    · exact itself
  · exact idle
  · exact idle'
  · rw [store]
    rfl
  · omega
  · rcases wakes with quiet | wake
    · refine .inr ⟨quiet, ?_⟩
      intro waits
      rw [store] at waits
      exact ⟨waits.of_write inv.store.keyed isOver, count⟩
    · exact .inl wake

theorem Inv.reserve (inv : Inv config w) {agentId requesterSessionKey runId uuid : String}
    {launchFingerprint : Option String}
    (tasks : w.tasks = before ++ task :: later) (tasks' : w'.tasks = before ++ after :: later)
    (reserves : reserve maxRetained config w.store agentId requesterSessionKey launchFingerprint
      runId uuid = (w'.store, after))
    (fresh : ¬ ((w.store.runs.get runId).isSome = true ∨ runId ∈ w.store.reserved))
    (idle : isStarting task = false) (quiet : isPending task = false) : Inv config w' := by
  have absent : w.store.runs.get runId = none := by
    cases found : w.store.runs.get runId with
    | none => rfl
    | some run => simp [found] at fresh
  have refused : (w.store, SwarmTask.finished) = (w'.store, after) → Inv config w' := by
    intro same
    obtain ⟨store, task'⟩ := Prod.mk.inj same
    subst task'
    apply inv.still tasks tasks' store.symm
    · intro copy held
      cases held
    · exact idle
    · rfl
    · exact .inl quiet
  unfold Swarm.reserve at reserves
  dsimp only at reserves
  split at reserves
  · exact refused reserves
  · split at reserves
    · exact refused reserves
    · obtain ⟨store, task'⟩ := Prod.mk.inj reserves
      have new_id : (reservation config runId uuid agentId requesterSessionKey
          launchFingerprint).runId = runId := rfl
      obtain ⟨ok, count, kept⟩ := inv.store.reserve maxRetained
        (reservation config runId uuid agentId requesterSessionKey launchFingerprint)
        { reservation config runId uuid agentId requesterSessionKey launchFingerprint with
          swarmGroupId := none, swarmRunState := none, launchFingerprint := none }
        absent (fun used => fresh (.inr used)) (by simp [ofGroup, reservation])
        (by simp [reservation]) rfl rfl (by simp [isActive])
      rw [new_id, store] at ok count kept
      subst task'
      apply inv.replace tasks tasks' ok kept
      · intro copy held
        cases held
      · exact idle
      · rfl
      · rw [← store]
        rfl
      · omega
      · exact .inl rfl

/-- No other task holds the lock. -/
theorem Inv.others_idle (inv : Inv config w) (tasks : w.tasks = before ++ task :: later)
    (holder : w.store.locked = false ∨ isStarting task = true) :
    (before ++ later).countP isStarting = 0 := by
  have lock := inv.lock
  rw [tasks] at lock
  simp only [List.countP_append, List.countP_cons] at lock ⊢
  rcases holder with free | starts
  · rw [free, Bool.toNat_false] at lock
    omega
  · have at_most := Bool.toNat_le w.store.locked
    rw [if_pos starts] at lock
    omega

theorem Inv.resume (inv : Inv config w) {index : Nat} {input : SwarmInput}
    (careful : CarefulTask config w.store task)
    (resumes : (program maxRetained config).Resumes w w' index task after input) :
    Inv config w' := by
  obtain ⟨before, later, tasks, tasks'⟩ := resumes.split
  have resumed := resumes.resumed
  have own : ∀ copy ∈ copiesOf task, Copy config w.store copy := inv.copies task resumes.mem
  simp only [program] at resumed
  have ends : ∀ quiet : isPending task = false, isStarting task = false →
      some (w.store, SwarmTask.finished) = some (w'.store, after) → Inv config w' := by
    intro quiet idle same
    obtain ⟨store, task'⟩ := Prod.mk.inj (Option.some.inj same)
    subst task'
    apply inv.still tasks tasks' store.symm
    · intro copy held
      cases held
    · exact idle
    · rfl
    · exact .inl quiet
  cases task with
  | reserve agentId requesterSessionKey launchFingerprint =>
    cases input with
    | fresh runId uuid =>
      rw [Swarm.resume] at resumed
      split at resumed
      · cases resumed
      · rename_i fresh
        exact inv.reserve tasks tasks' (Option.some.inj resumed) fresh rfl rfl
    | _ => cases resumed
  | complete runId outcome resultText =>
    cases input with
    | next now =>
      rw [Swarm.resume] at resumed
      cases found : w.store.runs.get runId with
      | none =>
        rw [found] at resumed
        exact ends rfl rfl resumed
      | some run =>
        simp only [found] at resumed
        split at resumed
        · apply inv.complete tasks tasks' (Option.some.inj resumed) found rfl careful
          intro copy held
          cases held
        · cases resumed
    | _ => cases resumed
  | kill runId reason =>
    cases input with
    | next now =>
      rw [Swarm.resume] at resumed
      cases found : w.store.runs.get runId with
      | none =>
        rw [found] at resumed
        exact ends rfl rfl resumed
      | some run =>
        simp only [found] at resumed
        split at resumed
        · split at resumed
          · exact ends rfl rfl resumed
          · rename_i live
            obtain ⟨store, task'⟩ := Prod.mk.inj (Option.some.inj resumed)
            obtain ⟨sameId, sameGroup, sameState, terminal⟩ :=
              killed_frame run { status := .killed, error := some reason } now
            subst task'
            apply inv.finish tasks tasks' store.symm found live careful sameId sameGroup sameState
              terminal
            · intro copy held
              simpa [copiesOf] using held
            · rfl
            · rfl
            · exact .inl rfl
        · cases resumed
    | _ => cases resumed
  | finalize runId =>
    cases input with
    | next now =>
      rw [Swarm.resume] at resumed
      cases found : w.store.runs.get runId with
      | none =>
        rw [found] at resumed
        exact ends rfl rfl resumed
      | some run =>
        simp only [found] at resumed
        split at resumed
        · split at resumed
          · exact ends rfl rfl resumed
          · rename_i live
            obtain ⟨store, task'⟩ := Prod.mk.inj (Option.some.inj resumed)
            subst task'
            apply inv.finish tasks tasks' store.symm found live careful.1 rfl rfl rfl rfl
            · intro copy held
              simpa [copiesOf] using held
            · rfl
            · rfl
            · exact .inr ⟨rfl, careful.2 run found⟩
        · cases resumed
    | _ => cases resumed
  | pump next =>
    cases input with
    | next now =>
      rw [Swarm.resume] at resumed
      split at resumed
      · cases resumed
      · rename_i free
        have unlocked : w.store.locked = false := by simpa using free
        obtain ⟨-, fits, -⟩ := inv.slots 0 (.inl ⟨unlocked, rfl⟩)
        apply inv.pumpOn tasks tasks' (Option.some.inj resumed)
          (inv.others_idle tasks (.inl unlocked))
        · unfold budgetOf
          omega
        · intro _ spare
          unfold budgetOf at spare
          omega
        · exact own
        · omega
    | _ => cases resumed
  | starting runId budget next =>
    cases input with
    | next now =>
      rw [Swarm.resume] at resumed
      have holds : Held w (budget - 1) := .inr ⟨runId, next, by simpa using resumes.mem⟩
      obtain ⟨spare, fits, wakes⟩ := inv.slots (budget - 1) holds
      have locked : w.store.locked = true := by
        have lock := inv.lock
        have positive : 0 < w.tasks.countP isStarting :=
          List.countP_pos_iff.mpr ⟨_, resumes.mem, rfl⟩
        cases locked : w.store.locked with
        | true => rfl
        | false =>
          rw [locked, Bool.toNat_false] at lock
          omega
      have same : w.store = { w.store with locked := true } := by rw [← locked]
      rw [same] at resumed
      apply inv.pumpOn tasks tasks' (Option.some.inj resumed) (inv.others_idle tasks (.inr rfl))
      · omega
      · intro waits free
        obtain ⟨other, member, wake⟩ := wakes waits (by omega)
        rcases mem_around tasks member with rfl | elsewhere
        · cases wake
        · exact ⟨other, elsewhere, wake⟩
      · exact own
      · omega
    | _ => cases resumed
  | killAnnouncing copy announced =>
    cases input with
    | refresh =>
      obtain ⟨store, task'⟩ := Prod.mk.inj (Option.some.inj resumed)
      subst task'
      apply inv.still tasks tasks' store.symm
      · intro other held
        simp only [copiesOf, List.mem_cons, List.not_mem_nil, or_false] at held
        rcases held with rfl | rfl
        · exact own other (by simp [copiesOf])
        · exact (own announced (by simp [copiesOf])).refresh inv.store
      · rfl
      · rfl
      · exact .inr rfl
    | rewrite delivery =>
      obtain ⟨store, task'⟩ := Prod.mk.inj (Option.some.inj resumed)
      subst task'
      apply inv.writeBack announced tasks tasks' store.symm (by simp [copiesOf]) rfl rfl rfl rfl
      · intro other held
        simp only [copiesOf, List.mem_cons, List.not_mem_nil, or_false] at held ⊢
        tauto
      · rfl
      · rfl
      · exact .inr rfl
    | next now =>
      rw [Swarm.resume] at resumed
      have retained : (w.store.runs.get copy.runId).isSome = true := careful
      obtain ⟨run, found⟩ := Option.isSome_iff_exists.mp retained
      have kept := own copy (by simp [copiesOf])
      apply inv.complete tasks tasks' (Option.some.inj resumed) found rfl
      · intro _
        exact kept.unqueued
      · intro other held
        rw [List.mem_singleton.mp held]
        exact kept
    | fresh => cases resumed
  | settling copy =>
    cases input with
    | next now =>
      obtain ⟨store, task'⟩ := Prod.mk.inj (Option.some.inj resumed)
      subst task'
      apply inv.writeBack copy tasks tasks' store.symm (by simp [copiesOf]) rfl rfl rfl rfl
      · intro other held
        cases held
      · rfl
      · rfl
      · exact .inl rfl
    | _ => cases resumed
  | orphanAnnouncing announced =>
    cases input with
    | refresh =>
      obtain ⟨store, task'⟩ := Prod.mk.inj (Option.some.inj resumed)
      subst task'
      apply inv.still tasks tasks' store.symm
      · intro other held
        rw [List.mem_singleton.mp held]
        exact (own announced (by simp [copiesOf])).refresh inv.store
      · rfl
      · rfl
      · exact .inl rfl
    | rewrite delivery =>
      obtain ⟨store, task'⟩ := Prod.mk.inj (Option.some.inj resumed)
      subst task'
      apply inv.writeBack announced tasks tasks' store.symm (by simp [copiesOf]) rfl rfl rfl rfl
      · intro other held
        exact .inr (List.mem_singleton.mp held)
      · rfl
      · rfl
      · exact .inl rfl
    | next now => exact ends rfl rfl resumed
    | fresh => cases resumed
  | finished => cases input <;> cases resumed

theorem Inv.step (inv : Inv config w) {choice : Choice} (careful : Careful config w choice)
    (stepped : (program maxRetained config).step w choice = some w') : Inv config w' := by
  rcases Tasks.Program.step_cases _ stepped with ⟨task, -, starts, store, tasks⟩ |
    ⟨index, input, task, after, rfl, resumes⟩ | ⟨-, restarted, -⟩
  · have quiet : isStarting task = false ∧ copiesOf task = [] := by
      cases task <;> first | exact ⟨rfl, rfl⟩ | cases starts
    constructor
    · rw [store]
      exact inv.store
    · rw [store, tasks]
      intro other member copy held
      rcases List.mem_append.mp member with old | new
      · exact inv.copies other old copy held
      · rw [List.mem_singleton.mp new, quiet.2] at held
        cases held
    · rw [store, tasks]
      simpa [List.countP_append, quiet.1] using inv.lock
    · rw [store, tasks]
      intro held holds
      have held_before : Held w held := by
        rcases holds with ⟨free, zero⟩ | ⟨id, next, member⟩
        · exact .inl ⟨store ▸ free, zero⟩
        · rw [tasks] at member
          rcases List.mem_append.mp member with old | new
          · exact .inr ⟨id, next, old⟩
          · rw [← List.mem_singleton.mp new] at quiet
            cases quiet.1
      obtain ⟨positive, capped, wakes⟩ := inv.slots held held_before
      refine ⟨positive, capped, ?_⟩
      intro waits free
      obtain ⟨other, member, wake⟩ := wakes waits free
      exact ⟨other, List.mem_append_left _ member, wake⟩
  · exact inv.resume (careful task resumes.at_index) resumes
  · cases restarted

theorem inv_start : Inv config ({ store := {} } : World) := by
  constructor
  · constructor <;> simp [Registry.get]
    exact ⟨List.nodup_nil, by simp⟩
  · simp
  · rfl
  · intro held holds
    have zero : held = 0 := by
      rcases holds with ⟨-, zero⟩ | ⟨id, next, member⟩
      · exact zero
      · cases member
    subst zero
    refine ⟨le_refl _, by simp [countActive], ?_⟩
    intro waits
    obtain ⟨id, member, -⟩ := waits
    cases member

/-- In every run of careful steps the group stays scheduled. -/
theorem scheduled_while_careful (maxRetained : Nat) (config : SwarmGroupConfig) (w : World)
    (run : (program maxRetained config).Runs (Careful config) { store := {} } w) :
    Scheduled config w := by
  have inv : Inv config w := run.invariant (Inv config) inv_start
    fun _ _ _ inv careful stepped => inv.step careful stepped
  exact inv.scheduled

/-- One run at a time. -/
def single : SwarmGroupConfig := { groupId := "g", maxConcurrent := 1 }

/-- A reservation, up to the end of its pump. -/
def reserved (index : Nat) (runId : String) : List Choice :=
  [.spawn (.reserve "main" "agent:main" none), .run index (.fresh runId runId),
    .run index (.next 1), .run index (.next 1)]

/-- Two reservations; the first run ends and the second is activated, then killed. -/
def inOrder : List Choice :=
  reserved 0 "a" ++ (reserved 1 "b").take 3 ++
    [.spawn (.complete "a" { status := .ok } (some "done")), .run 2 (.next 2), .run 2 (.next 2),
      .run 2 (.next 2), .spawn (.kill "b" "killed"), .run 3 (.next 3), .run 3 (.next 3),
      .run 3 (.next 3), .run 3 (.next 3)]

theorem scheduled_in_order :
    ∃ w, (program 10 single).Runs (Careful single) { store := {} } w ∧
      w.store.activated = ["a", "b"] ∧ Scheduled single w := by
  have played : (Machine.play (program 10 single).step
      (fun w choice => decide (Careful single w choice)) { store := {} } inOrder).any
      (fun w => w.store.activated == ["a", "b"]) = true := by
    decide +kernel
  obtain ⟨w, run, activated⟩ := Machine.Runs.exists_of_play played
  have careful : (program 10 single).Runs (Careful single) { store := {} } w :=
    run.mono fun _ _ allowed => of_decide_eq_true allowed
  exact ⟨w, careful, by simpa using activated, scheduled_while_careful 10 single w careful⟩

/-- The active run is finalized and announced; the second reservation stays in the queue. -/
def finalized : List Choice :=
  reserved 0 "a" ++ (reserved 1 "b").take 3 ++
    [.spawn (.finalize "a"), .run 2 (.next 2), .run 2 (.next 2)]

/-- The second reservation is killed while it waits, and the first run then ends. -/
def killedInQueue : List Choice :=
  reserved 0 "a" ++ (reserved 1 "b").take 3 ++ (reserved 2 "c").take 3 ++
    [.spawn (.kill "b" "killed"), .run 3 (.next 2),
      .spawn (.complete "a" { status := .ok } (some "done")), .run 4 (.next 3), .run 4 (.next 3)]

/-- No operation is in progress, a live run waits, and no run is active. -/
def Idle (w : World) : Prop :=
  (∀ task ∈ w.tasks, inProgress task = false) ∧ Waits single w.store ∧
    countActive single w.store.runs = 0

instance (w : World) : Decidable (Idle w) :=
  inferInstanceAs (Decidable ((∀ task ∈ w.tasks, inProgress task = false) ∧
    Waits single w.store ∧ countActive single w.store.runs = 0))

/-- An orphan finalisation pumps nothing, and a killed reservation is activated. -/
theorem finalized_run_idles_its_slot :
    (∃ w, (program 10 single).Runs (fun _ _ => True) { store := {} } w ∧ Idle w ∧
      ¬ Scheduled single w) ∧
    ∃ w, (program 10 single).Runs (fun _ _ => True) { store := {} } w ∧
      w.store.revived = ["b"] ∧ ¬ Scheduled single w := by
  have first : (Machine.play (program 10 single).step (fun _ _ => true) { store := {} }
      finalized).any (fun w => decide (Idle w)) = true := by
    decide +kernel
  have second : (Machine.play (program 10 single).step (fun _ _ => true) { store := {} }
      killedInQueue).any (fun w => w.store.revived == ["b"]) = true := by
    decide +kernel
  constructor
  · obtain ⟨w, run, test⟩ := Machine.Runs.exists_of_play first
    have idle : Idle w := of_decide_eq_true test
    refine ⟨w, run.mono fun _ _ _ => trivial, idle, ?_⟩
    intro scheduled
    rcases scheduled.no_idle_slot idle.1 with served | full
    · exact served idle.2.1
    · rw [idle.2.2] at full
      cases full
  · obtain ⟨w, run, test⟩ := Machine.Runs.exists_of_play second
    have revived : w.store.revived = ["b"] := by simpa using test
    refine ⟨w, run.mono fun _ _ _ => trivial, revived, ?_⟩
    intro scheduled
    rw [scheduled.never_terminal] at revived
    cases revived

end SherryAgent.Guarantees.Swarm
