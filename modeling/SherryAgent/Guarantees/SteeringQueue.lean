import Mathlib.Data.List.Nodup
import SherryAgent.Source.Subagent.SteeringQueue

/-!
# Exactly-once steering

Memory runs ahead of the table: an enqueue queues before it inserts, a drain empties
the queue before it marks the rows, and a hydration puts back rows it read earlier.

* `steering_exactly_once` — while a drain does not overtake an enqueue, and nothing
  queues what a drain has taken, no run is returned twice and none owed is missed;
* `overtaken_enqueue_is_returned_twice` — a drain between an enqueue's memory append and
  its insert.
-/

namespace SherryAgent.Guarantees.SteeringQueue

open SherryAgent.Library SherryAgent.Source.Subagent SherryAgent.Source.Subagent.SteeringQueue

abbrev World := Tasks.World QueueStore QueueTask
abbrev Choice := Tasks.Choice QueueTask Bool

variable {rows : List PendingInjection} {runId other key : String} {record : PendingInjection}

/-- The run ids a drain has taken and not returned yet. -/
def holding : QueueTask → List String
  | .marking _ finished rest => (finished ++ rest).map (·.runId)
  | _ => []

/-- The run id of an enqueue between its append and the store's answer. -/
def storing : QueueTask → Option String
  | .enqueueInserting record _ => some record.runId
  | .enqueueSelecting record _ => some record.runId
  | .enqueueStored record _ _ => some record.runId
  | _ => none

/-- The status of a run's row. -/
def rowStatus (rows : List PendingInjection) (runId : String) : Option PendingInjectionStatus :=
  (injectionRow rows runId).map (·.status)

/-- No drain holds the run. -/
def Free (w : World) (runId : String) : Prop := ∀ task ∈ w.tasks, runId ∉ holding task

/-- What a hydration puts back is still pending, and no drain holds it. -/
def Mergeable (key : String) (w : World) (answer : Option (List PendingInjection)) : Prop :=
  ∀ row ∈ answer.getD [],
    normalizeSessionKey row.requesterSessionKey = key → w.store.state.queues row.runId = false →
      rowStatus w.store.rows row.runId = some .pending ∧ Free w row.runId

/-- No enqueue is between its append and the store's answer, and every queued run has its
pending row. -/
def Emptiable (w : World) : Prop :=
  (∀ task ∈ w.tasks, storing task = none) ∧
    ∀ item ∈ w.store.state.items, rowStatus w.store.rows item.runId = some .pending

/-- The condition on the task that moves next. -/
def OrderlyTask (key : String) (w : World) (ok : Bool) : QueueTask → Prop
  | .enqueue _ injection => w.store.state.touched = true →
      ∀ record ∈ recordFromMessage injection key, Free w record.runId
  | .enqueueLoaded record answer => Mergeable key w answer ∧ Free w record.runId
  | .drain _ => w.store.state.touched = true → Emptiable w
  | .drainLoaded answer => Mergeable key w answer ∧ Emptiable w
  | .rehydrateLoaded answer => Mergeable key w answer
  | .marking _ _ (_ :: _) => ok = true
  | _ => True

/-- A drain empties the queue only while no enqueue waits for the store, nothing queues a
run that a drain holds or has consumed since it was read, and no mark raises. -/
def Orderly (key : String) (w : World) : Choice → Prop
  | .run index ok => ∀ task ∈ w.tasks[index]?, OrderlyTask key w ok task
  | _ => True

instance (w : World) (runId : String) : Decidable (Free w runId) :=
  inferInstanceAs (Decidable (∀ task ∈ w.tasks, runId ∉ holding task))

instance (w : World) (answer : Option (List PendingInjection)) :
    Decidable (Mergeable key w answer) :=
  inferInstanceAs (Decidable (∀ row ∈ answer.getD [], _ → _ → _ ∧ Free w row.runId))

instance (w : World) : Decidable (Emptiable w) :=
  inferInstanceAs (Decidable ((∀ task ∈ w.tasks, storing task = none) ∧ ∀ item ∈ _, _ = _))

instance (w : World) (ok : Bool) : (task : QueueTask) → Decidable (OrderlyTask key w ok task)
  | .enqueue _ injection =>
    inferInstanceAs (Decidable (_ → ∀ record ∈ recordFromMessage injection key, Free w record.runId))
  | .enqueueLoaded record answer =>
    inferInstanceAs (Decidable (Mergeable key w answer ∧ Free w record.runId))
  | .drain _ => inferInstanceAs (Decidable (_ → Emptiable w))
  | .drainLoaded answer => inferInstanceAs (Decidable (Mergeable key w answer ∧ Emptiable w))
  | .rehydrateLoaded answer => inferInstanceAs (Decidable (Mergeable key w answer))
  | .marking _ _ (_ :: _) => inferInstanceAs (Decidable (ok = true))
  | .marking _ _ [] | .enqueueLoading _ | .enqueueInserting _ _ | .enqueueSelecting _ _
  | .enqueueStored _ _ _ | .enqueued _ | .drainLoading | .drained _ _ | .rehydrate _
  | .rehydrateLoading | .rehydrated _ | .raised => isTrue trivial

instance (w : World) : (choice : Choice) → Decidable (Orderly key w choice)
  | .run index ok => inferInstanceAs (Decidable (∀ task ∈ w.tasks[index]?, OrderlyTask key w ok task))
  | .spawn _ | .restart => isTrue trivial

/-! ## The table -/

theorem rowStatus_insert_self (absent : rowStatus rows record.runId = none)
    (pending : record.status = .pending) :
    rowStatus (insertOrIgnore rows record) record.runId = some .pending := by
  have none_before : injectionRow rows record.runId = none := by
    simpa [rowStatus] using absent
  simp only [rowStatus, insertOrIgnore, none_before]
  unfold injectionRow at none_before
  simp [injectionRow, List.find?_append, none_before, pending]

/-- An insert leaves the rows it finds as they are. -/
theorem rowStatus_insert (record : PendingInjection) {status : PendingInjectionStatus}
    (found : rowStatus rows runId = some status) :
    rowStatus (insertOrIgnore rows record) runId = some status := by
  unfold insertOrIgnore
  split
  · exact found
  · obtain ⟨row, at_run, same⟩ := Option.map_eq_some_iff.mp found
    unfold injectionRow at at_run
    simp [rowStatus, injectionRow, List.find?_append, at_run, same]

/-- A consumed row after an insert was consumed before it. -/
theorem consumed_of_insert (pending : record.status = .pending)
    (consumed : rowStatus (insertOrIgnore rows record) runId = some .consumed) :
    rowStatus rows runId = some .consumed := by
  cases before : rowStatus rows runId with
  | none =>
    by_cases same : runId = record.runId
    · subst same
      rw [rowStatus_insert_self before pending] at consumed
      cases consumed
    · have absent : rows.find? (fun row => row.runId == runId) = none := by
        simpa [rowStatus, injectionRow] using before
      have away : (record.runId == runId) = false := by simpa using fun h : record.runId = runId => same h.symm
      unfold insertOrIgnore at consumed
      split at consumed
      · rw [before] at consumed
        cases consumed
      · simp [rowStatus, injectionRow, List.find?_append, absent, away] at consumed
  | some status =>
    rw [rowStatus_insert record before] at consumed
    exact consumed

/-- A mark consumes the run's row and touches no other. -/
theorem rowStatus_mark : rowStatus (markConsumed rows runId).2 other =
    if other = runId then (rowStatus rows other).map fun _ => .consumed
    else rowStatus rows other := by
  unfold rowStatus injectionRow markConsumed
  dsimp only
  rw [Table.find?_updateWhere (fun row : PendingInjection => row.runId == other) (by simp)]
  cases found : rows.find? fun row => row.runId == other with
  | none => simp
  | some row =>
    have own : row.runId = other := by simpa using List.find?_some found
    by_cases same : other = runId
    · cases status : row.status with
      | pending => simp [own, same, status]
      | consumed => simp [own, same, status]
    · simp [own, same]

/-! ## The queue in memory -/

variable {state : SessionState} {item : SteeringItem} {loaded : List PendingInjection}

theorem queues_iff : state.queues runId = true ↔ ∃ item ∈ state.items, item.runId = runId := by
  simp [SessionState.queues]

theorem queues_of_mem (member : item ∈ state.items) : state.queues item.runId = true :=
  queues_iff.mpr ⟨item, member, rfl⟩

/-- A merge keeps the queue and adds rows of the session it did not queue. -/
theorem mem_merge : item ∈ (SessionState.merge key state loaded).items →
    item ∈ state.items ∨ ∃ row ∈ loaded, normalizeSessionKey row.requesterSessionKey = key ∧
      state.queues row.runId = false ∧ item.runId = row.runId := by
  unfold SessionState.merge
  induction loaded generalizing state with
  | nil => exact .inl
  | cons row rest ih =>
    intro member
    rw [List.foldl_cons] at member
    split at member
    · rcases ih member with old | ⟨other, inside, own, fresh, same⟩
      · exact .inl old
      · exact .inr ⟨other, List.mem_cons_of_mem _ inside, own, fresh, same⟩
    · rename_i admitted
      simp only [Bool.or_eq_true, bne_iff_ne, ne_eq, not_or, not_not, Bool.not_eq_true] at admitted
      rcases ih member with old | ⟨other, inside, own, fresh, same⟩
      · rcases List.mem_append.mp old with before | new
        · exact .inl before
        · refine .inr ⟨row, List.mem_cons_self, admitted.1, admitted.2, ?_⟩
          rw [List.mem_singleton.mp new]
          rfl
      · have unqueued : state.queues other.runId = false := by
          simp only [SessionState.queues, List.any_append, Bool.or_eq_false_iff] at fresh
          exact fresh.1
        exact .inr ⟨other, List.mem_cons_of_mem _ inside, own, unqueued, same⟩

theorem merge_keeps (member : item ∈ state.items) :
    item ∈ (SessionState.merge key state loaded).items := by
  unfold SessionState.merge
  induction loaded generalizing state with
  | nil => exact member
  | cons row rest ih =>
    rw [List.foldl_cons]
    split
    · exact ih member
    · exact ih (List.mem_append_left _ member)

theorem append_distinct (distinct : (state.items.map (·.runId)).Nodup)
    (fresh : state.queues item.runId = false) :
    ((state.items ++ [item]).map (·.runId)).Nodup := by
  rw [List.map_append]
  apply List.Nodup.append distinct
  · simp
  · intro id old new
    obtain ⟨queued, member, same⟩ := List.mem_map.mp old
    have here : id = item.runId := by simpa using new
    have found := queues_of_mem member
    rw [same, here, fresh] at found
    cases found

theorem merge_distinct (distinct : (state.items.map (·.runId)).Nodup) :
    ((SessionState.merge key state loaded).items.map (·.runId)).Nodup := by
  unfold SessionState.merge
  induction loaded generalizing state with
  | nil => exact distinct
  | cons row rest ih =>
    rw [List.foldl_cons]
    split
    · exact ih distinct
    · rename_i admitted
      simp only [Bool.or_eq_true, bne_iff_ne, ne_eq, not_or, Bool.not_eq_true] at admitted
      exact ih (append_distinct distinct admitted.2)

/-- An enqueue queues its run, once. -/
theorem append_cases (state : SessionState) (record : PendingInjection) :
    (state.queues record.runId = true ∧ (state.append record).2 = state) ∨
      (state.queues record.runId = false ∧
        (state.append record).2 = { state with items := state.items ++ [{ record }] }) := by
  unfold SessionState.append
  cases found : state.items.find? fun item => item.runId == record.runId with
  | some existing =>
    have own : existing.runId = record.runId := by simpa using List.find?_some found
    exact .inl ⟨queues_iff.mpr ⟨existing, List.mem_of_find?_eq_some found, own⟩, rfl⟩
  | none =>
    have fresh : state.queues record.runId = false := by
      simpa [SessionState.queues] using found
    exact .inr ⟨fresh, rfl⟩

theorem queues_discard : (state.discard other).queues runId =
    (state.queues runId && decide (runId ≠ other)) := by
  unfold SessionState.queues SessionState.discard
  rw [Bool.eq_iff_iff]
  simp only [List.any_eq_true, List.mem_filter, Bool.and_eq_true, decide_eq_true_eq, beq_iff_eq,
    bne_iff_ne]
  constructor
  · intro found
    obtain ⟨item, member, same⟩ := found
    exact ⟨⟨item, member.1, same⟩, same ▸ member.2⟩
  · intro found
    obtain ⟨⟨item, member, same⟩, away⟩ := found
    exact ⟨item, ⟨member, same ▸ away⟩, same⟩

/-! ## The invariant -/

/-- A run an enqueue has appended is queued, or consumed already. -/
def Backed (store : QueueStore) (runId : String) : Prop :=
  store.state.queues runId = true ∨ rowStatus store.rows runId = some .consumed

/-- What holds of a task's locals. -/
def TaskOk (store : QueueStore) : QueueTask → Prop
  | .enqueueLoading record => record.status = .pending
  | .enqueueLoaded record _ => record.status = .pending
  | .enqueueInserting record _ => record.status = .pending ∧ Backed store record.runId
  | .enqueueSelecting record _ => Backed store record.runId
  | .enqueueStored record _ persisted => Backed store record.runId ∧
      ∀ row, persisted = some row → rowStatus store.rows record.runId = some row.status
  | .marking owed finished rest =>
      (∀ item ∈ finished, rowStatus store.rows item.runId = some .consumed) ∧
      (∀ item ∈ rest, rowStatus store.rows item.runId = some .pending) ∧
      ∀ id ∈ owed, id ∈ (finished ++ rest).map (·.runId)
  | .drained owed items => ∀ id ∈ owed, id ∈ items.map (·.runId)
  | _ => True

/-- Queued, or appended by an enqueue that waits for the store. -/
def Busy (w : World) (runId : String) : Prop :=
  w.store.state.queues runId = true ∨ ∃ task ∈ w.tasks, storing task = some runId

structure Inv (w : World) : Prop where
  distinct : (w.store.state.items.map (·.runId)).Nodup
  exclusive : (w.tasks.flatMap holding ++ w.store.returned).Nodup
  apart : ∀ id, Busy w id → Free w id
  consumed : ∀ id ∈ w.store.returned, rowStatus w.store.rows id = some .consumed
  owed : ∀ id ∈ w.store.owed,
    w.store.state.queues id = true ∧ rowStatus w.store.rows id ≠ some .consumed
  tasks : ∀ task ∈ w.tasks, TaskOk w.store task

/-- A task's locals hold on, when its run stays backed and the rows it knows of stay. -/
theorem TaskOk.mono {store store' : QueueStore} {task : QueueTask} (ok : TaskOk store task)
    (backed : ∀ id, storing task = some id → Backed store id → Backed store' id)
    (kept : ∀ id, id ∈ holding task ∨ storing task = some id →
      ∀ status, rowStatus store.rows id = some status → rowStatus store'.rows id = some status) :
    TaskOk store' task := by
  cases task with
  | enqueueInserting record item => exact ⟨ok.1, backed _ rfl ok.2⟩
  | enqueueSelecting record item => exact backed _ rfl ok
  | enqueueStored record item persisted =>
    constructor
    · exact backed _ rfl ok.1
    · intro row answered
      exact kept _ (.inr rfl) _ (ok.2 row answered)
  | marking owed finished rest =>
    refine ⟨?_, ?_, ok.2.2⟩
    · intro item member
      exact kept _ (.inl (List.mem_map_of_mem (List.mem_append_left _ member))) _ (ok.1 item member)
    · intro item member
      exact kept _ (.inl (List.mem_map_of_mem (List.mem_append_right _ member))) _
        (ok.2.1 item member)
  | _ => exact ok

variable {w w' : World} {task after : QueueTask} {before later : List QueueTask}

/-- Tasks that hold nothing new leave the runs in the drains' hands where they are. -/
theorem exclusive_replace (tasks : w.tasks = before ++ task :: later)
    (tasks' : w'.tasks = before ++ after :: later) (same : holding after = holding task)
    (returned : w'.store.returned = w.store.returned)
    (exclusive : (w.tasks.flatMap holding ++ w.store.returned).Nodup) :
    (w'.tasks.flatMap holding ++ w'.store.returned).Nodup := by
  rw [tasks] at exclusive
  rw [tasks', returned]
  simpa [List.flatMap_append, List.flatMap_cons, same] using exclusive

theorem mem_replaced {other : QueueTask} (tasks : w.tasks = before ++ task :: later)
    (tasks' : w'.tasks = before ++ after :: later) (member : other ∈ w'.tasks) :
    other = after ∨ other ∈ w.tasks := by
  rw [tasks'] at member
  rw [tasks]
  simp only [List.mem_append, List.mem_cons] at member ⊢
  tauto

theorem mem_other {other : QueueTask} (tasks' : w'.tasks = before ++ after :: later)
    (member : other ∈ w'.tasks) : other = after ∨ other ∈ before ++ later := by
  rw [tasks'] at member
  simp only [List.mem_append, List.mem_cons] at member ⊢
  tauto

/-- The runs one task holds, and those of the others. -/
theorem holding_perm (before later : List QueueTask) (task : QueueTask) :
    ((before ++ task :: later).flatMap holding).Perm
      (holding task ++ (before ++ later).flatMap holding) := by
  have moved : (before ++ task :: later).Perm (task :: (before ++ later)) := List.perm_middle
  simpa using moved.flatMap_right holding

/-- Two drains hold different runs. -/
theorem holding_apart {other : QueueTask} {id : String} (tasks : w.tasks = before ++ task :: later)
    (exclusive : (w.tasks.flatMap holding ++ w.store.returned).Nodup) (held : id ∈ holding task)
    (member : other ∈ before ++ later) : id ∉ holding other := by
  rw [tasks] at exclusive
  have joined := ((holding_perm before later task).nodup_iff).mp (List.nodup_append.mp exclusive).1
  intro also
  exact (List.nodup_append.mp joined).2.2 id held id (List.mem_flatMap.mpr ⟨other, member, also⟩) rfl

/-- A free run stays free when the task that moves does not take it. -/
theorem free_replace (tasks : w.tasks = before ++ task :: later)
    (tasks' : w'.tasks = before ++ after :: later) (same : holding after = holding task)
    {id : String} (free : Free w id) : Free w' id := by
  intro other member
  rcases mem_replaced tasks tasks' member with rfl | old
  · rw [same]
    exact free task (by simp [tasks])
  · exact free other old

/-- A step that leaves the rows, the queue and the records alone. -/
theorem Inv.quiet (inv : Inv w) (tasks : w.tasks = before ++ task :: later)
    (tasks' : w'.tasks = before ++ after :: later) (same : holding after = holding task)
    (appended : ∀ id, storing after = some id → storing task = some id)
    (rows : w'.store.rows = w.store.rows) (items : w'.store.state.items = w.store.state.items)
    (returned : w'.store.returned = w.store.returned) (owed : w'.store.owed = w.store.owed)
    (ok : TaskOk w'.store after) : Inv w' := by
  have queues : ∀ id, w'.store.state.queues id = w.store.state.queues id := by
    intro id
    simp [SessionState.queues, items]
  constructor
  · rw [items]
    exact inv.distinct
  · exact exclusive_replace tasks tasks' same returned inv.exclusive
  · intro id busy
    apply free_replace tasks tasks' same
    apply inv.apart
    rcases busy with queued | ⟨other, member, appends⟩
    · exact .inl (queues id ▸ queued)
    · rcases mem_replaced tasks tasks' member with rfl | old
      · exact .inr ⟨task, by simp [tasks], appended id appends⟩
      · exact .inr ⟨other, old, appends⟩
  · rw [returned, rows]
    exact inv.consumed
  · rw [owed, rows]
    intro id member
    rw [queues id]
    exact inv.owed id member
  · intro other member
    rcases mem_replaced tasks tasks' member with rfl | old
    · exact ok
    · apply (inv.tasks other old).mono
      · intro id _ backed
        unfold Backed at backed ⊢
        rw [queues id, rows]
        exact backed
      · intro id _ status found
        rw [rows]
        exact found

/-! ## One lemma per section of the code -/

/-- `_ensure_hydrated` after its await. -/
theorem Inv.load {answer : Option (List PendingInjection)} (inv : Inv w)
    (mergeable : Mergeable key w answer) :
    Inv { w with store := endLoading key w.store answer } := by
  cases answer with
  | none => exact { inv with }
  | some loaded =>
    have grows : ∀ id, w.store.state.queues id = true →
        (endLoading key w.store (some loaded)).state.queues id = true := by
      intro id queued
      obtain ⟨item, member, same⟩ := queues_iff.mp queued
      exact queues_iff.mpr ⟨item, merge_keeps member, same⟩
    constructor
    · exact merge_distinct inv.distinct
    · exact inv.exclusive
    · intro id busy
      rcases busy with queued | appends
      · obtain ⟨item, member, same⟩ := queues_iff.mp queued
        rcases mem_merge member with old | ⟨row, inside, own, fresh, here⟩
        · exact inv.apart id (.inl (same ▸ queues_of_mem old))
        · have free := (mergeable row inside own fresh).2
          rw [← here, same] at free
          exact free
      · exact inv.apart id (.inr appends)
    · exact inv.consumed
    · intro id member
      have before := inv.owed id member
      exact ⟨grows id before.1, before.2⟩
    · intro task member
      apply (inv.tasks task member).mono
      · intro id _ backed
        exact backed.imp (grows id) fun consumed => consumed
      · intro id _ status found
        exact found

/-- The locked section of `enqueue_steering`. -/
theorem Inv.queueUp (inv : Inv w) (tasks : w.tasks = before ++ task :: later)
    (tasks' : w'.tasks = before ++ (SteeringQueue.queueUp w.store record).2 :: later)
    (store' : w'.store = (SteeringQueue.queueUp w.store record).1)
    (idle : holding task = []) (pending : record.status = .pending)
    (free : Free w record.runId) : Inv w' := by
  have rows : w'.store.rows = w.store.rows := by rw [store']; rfl
  have returned : w'.store.returned = w.store.returned := by rw [store']; rfl
  have owed : w'.store.owed = w.store.owed := by rw [store']; rfl
  have state : w'.store.state = (w.store.state.append record).2 := by rw [store']; rfl
  have same : holding (SteeringQueue.queueUp w.store record).2 = holding task := idle.symm
  have grows : ∀ id, w.store.state.queues id = true → w'.store.state.queues id = true := by
    intro id queued
    rw [state]
    rcases append_cases w.store.state record with ⟨-, kept⟩ | ⟨-, added⟩
    · rw [kept]
      exact queued
    · rw [added]
      simp only [SessionState.queues, List.any_append, Bool.or_eq_true] at queued ⊢
      exact .inl queued
  have queued_now : ∀ id, w'.store.state.queues id = true →
      w.store.state.queues id = true ∨ id = record.runId := by
    intro id queued
    rw [state] at queued
    rcases append_cases w.store.state record with ⟨-, kept⟩ | ⟨-, added⟩
    · rw [kept] at queued
      exact .inl queued
    · rw [added] at queued
      obtain ⟨item, member, here⟩ := queues_iff.mp queued
      rcases List.mem_append.mp member with old | new
      · exact .inl (here ▸ queues_of_mem old)
      · rw [List.mem_singleton.mp new] at here
        exact .inr here.symm
  have own : w'.store.state.queues record.runId = true := by
    rw [state]
    rcases append_cases w.store.state record with ⟨queued, kept⟩ | ⟨-, added⟩
    · rw [kept]
      exact queued
    · rw [added]
      exact queues_iff.mpr ⟨{ record }, by simp, rfl⟩
  constructor
  · rw [state]
    rcases append_cases w.store.state record with ⟨-, kept⟩ | ⟨fresh, added⟩
    · rw [kept]
      exact inv.distinct
    · rw [added]
      exact append_distinct inv.distinct fresh
  · exact exclusive_replace tasks tasks' same returned inv.exclusive
  · intro id busy
    apply free_replace tasks tasks' same
    rcases busy with queued | ⟨other, member, appends⟩
    · rcases queued_now id queued with old | rfl
      · exact inv.apart id (.inl old)
      · exact free
    · rcases mem_replaced tasks tasks' member with rfl | old
      · have here : record.runId = id := Option.some.inj appends
        exact here ▸ free
      · exact inv.apart id (.inr ⟨other, old, appends⟩)
  · rw [returned, rows]
    exact inv.consumed
  · rw [owed, rows]
    intro id member
    have old := inv.owed id member
    exact ⟨grows id old.1, old.2⟩
  · intro other member
    rcases mem_replaced tasks tasks' member with rfl | old
    · exact ⟨pending, .inl own⟩
    · apply (inv.tasks other old).mono
      · intro id _ backed
        unfold Backed
        rw [rows]
        exact backed.imp (grows id) fun consumed => consumed
      · intro id _ status found
        rw [rows]
        exact found

/-- The locked section of `drain`. -/
theorem Inv.take (inv : Inv w) (tasks : w.tasks = before ++ task :: later)
    (tasks' : w'.tasks = before ++ (takeAll w.store).2 :: later)
    (store' : w'.store = (takeAll w.store).1) (idle : holding task = [])
    (emptiable : Emptiable w) : Inv w' := by
  have holds : holding (takeAll w.store).2 = w.store.state.items.map (·.runId) := by
    unfold takeAll
    split
    · rename_i empty
      simp [holding, List.isEmpty_iff.mp empty]
    · simp [holding]
  have appends : storing (takeAll w.store).2 = none := by
    unfold takeAll
    split <;> rfl
  have emptied : w'.store =
      { w.store with state := { w.store.state with items := [] }, owed := [] } := by
    rw [store']
    unfold takeAll
    split <;> rfl
  have none_stores : ∀ other ∈ w'.tasks, storing other = none := by
    intro other member
    rcases mem_replaced tasks tasks' member with rfl | old
    · exact appends
    · exact emptiable.1 other old
  constructor
  · rw [emptied]
    exact List.nodup_nil
  · have exclusive := inv.exclusive
    rw [tasks] at exclusive
    rw [tasks', emptied]
    simp only [List.flatMap_append, List.flatMap_cons, idle, holds, List.nil_append] at exclusive ⊢
    have away : ∀ id ∈ w.store.state.items.map (·.runId),
        id ∉ before.flatMap holding ++ later.flatMap holding ++ w.store.returned := by
      intro id queued held
      obtain ⟨item, member, same⟩ := List.mem_map.mp queued
      have free := inv.apart item.runId (.inl (queues_of_mem member))
      have status := emptiable.2 item member
      rw [same] at free status
      rcases List.mem_append.mp held with inside | done
      · rcases List.mem_append.mp inside with early | late
        · obtain ⟨other, at_task, holds⟩ := List.mem_flatMap.mp early
          exact free other (by simp [tasks, at_task]) holds
        · obtain ⟨other, at_task, holds⟩ := List.mem_flatMap.mp late
          exact free other (by simp [tasks, at_task]) holds
      · rw [inv.consumed id done] at status
        cases status
    have joined : (w.store.state.items.map (·.runId) ++
        (before.flatMap holding ++ later.flatMap holding ++ w.store.returned)).Nodup := by
      apply List.Nodup.append inv.distinct
      · simpa using exclusive
      · intro id queued held
        exact away id queued held
    refine (List.Perm.nodup_iff ?_).mp joined
    simp only [List.append_assoc]
    exact (List.perm_append_comm_assoc _ _ _)
  · intro id busy other member
    rcases busy with queued | ⟨waiting, inside, stores⟩
    · rw [emptied] at queued
      cases queued
    · rw [none_stores waiting inside] at stores
      cases stores
  · rw [emptied]
    exact inv.consumed
  · rw [emptied]
    intro id member
    cases member
  · intro other member
    rcases mem_replaced tasks tasks' member with rfl | old
    · have listed : ∀ id ∈ w.store.owed, id ∈ w.store.state.items.map (·.runId) := by
        intro id owes
        obtain ⟨item, queued, same⟩ := queues_iff.mp (inv.owed id owes).1
        exact List.mem_map.mpr ⟨item, queued, same⟩
      unfold takeAll
      split
      · rename_i empty
        simpa [TaskOk, List.isEmpty_iff.mp empty] using listed
      · refine ⟨by simp, ?_, by simpa using listed⟩
        rw [emptied]
        exact emptiable.2
    · apply (inv.tasks other old).mono
      · intro id stores
        rw [emptiable.1 other old] at stores
        cases stores
      · intro id _ status found
        rw [emptied]
        exact found

/-- The `INSERT` of an enqueue. -/
theorem Inv.insert (inv : Inv w) (tasks : w.tasks = before ++ .enqueueInserting record item :: later)
    (tasks' : w'.tasks = before ++ .enqueueSelecting record item :: later)
    (store' : w'.store = { w.store with rows := insertOrIgnore w.store.rows record }) : Inv w' := by
  have moved := inv.tasks (.enqueueInserting record item) (by simp [tasks])
  have backed_on : ∀ id, Backed w.store id → Backed w'.store id := by
    intro id backed
    rw [store']
    exact backed.imp (fun queued => queued) (rowStatus_insert record)
  constructor
  · rw [store']
    exact inv.distinct
  · exact exclusive_replace tasks tasks' rfl (by rw [store']) inv.exclusive
  · intro id busy
    apply free_replace tasks tasks' rfl
    apply inv.apart
    rcases busy with queued | ⟨other, member, stores⟩
    · rw [store'] at queued
      exact .inl queued
    · rcases mem_replaced tasks tasks' member with rfl | old
      · exact .inr ⟨.enqueueInserting record item, by simp [tasks], stores⟩
      · exact .inr ⟨other, old, stores⟩
  · rw [store']
    intro id member
    exact rowStatus_insert record (inv.consumed id member)
  · rw [store']
    intro id member
    have old := inv.owed id member
    exact ⟨old.1, fun consumed => old.2 (consumed_of_insert moved.1 consumed)⟩
  · intro other member
    rcases mem_replaced tasks tasks' member with rfl | old
    · exact backed_on _ moved.2
    · apply (inv.tasks other old).mono
      · intro id _ backed
        exact backed_on id backed
      · intro id _ status found
        rw [store']
        exact rowStatus_insert record found

/-- `mark_consumed` of a drain. -/
theorem Inv.mark {owed : List String} {finished rest : List SteeringItem} {flag : Bool}
    (inv : Inv w) (tasks : w.tasks = before ++ .marking owed finished (item :: rest) :: later)
    (tasks' : w'.tasks =
      before ++ .marking owed (finished ++ [{ item with consumed := flag }]) rest :: later)
    (store' : w'.store =
      { w.store with rows := (markConsumed w.store.rows item.runId).2 }) : Inv w' := by
  have moved := inv.tasks (.marking owed finished (item :: rest)) (by simp [tasks])
  have same : holding (.marking owed (finished ++ [{ item with consumed := flag }]) rest) =
      holding (.marking owed finished (item :: rest)) := by
    simp [holding, SteeringItem.runId]
  have held : item.runId ∈ holding (.marking owed finished (item :: rest)) := by simp [holding]
  have marked : ∀ id, rowStatus w'.store.rows id =
      if id = item.runId then some .consumed else rowStatus w.store.rows id := by
    intro id
    rw [store', rowStatus_mark]
    split
    · rename_i here
      rw [here, moved.2.1 item List.mem_cons_self]
      rfl
    · rfl
  have not_busy : ¬Busy w item.runId := by
    intro busy
    exact inv.apart _ busy _ (by simp [tasks]) held
  have nodup : (holding (.marking owed finished (item :: rest))).Nodup := by
    have exclusive := inv.exclusive
    rw [tasks] at exclusive
    have joined := ((holding_perm before later _).nodup_iff).mp (List.nodup_append.mp exclusive).1
    exact (List.nodup_append.mp joined).1
  constructor
  · rw [store']
    exact inv.distinct
  · exact exclusive_replace tasks tasks' same (by rw [store']) inv.exclusive
  · intro id busy
    apply free_replace tasks tasks' same
    apply inv.apart
    rcases busy with queued | ⟨other, member, stores⟩
    · rw [store'] at queued
      exact .inl queued
    · rcases mem_replaced tasks tasks' member with rfl | old
      · cases stores
      · exact .inr ⟨other, old, stores⟩
  · intro id member
    rw [store'] at member
    rw [marked]
    split
    · rfl
    · exact inv.consumed id member
  · intro id member
    rw [store'] at member
    have old := inv.owed id member
    have away : id ≠ item.runId := by
      intro here
      exact not_busy (here ▸ .inl old.1)
    rw [marked, if_neg away, store']
    exact old
  · intro other member
    rcases mem_other tasks' member with rfl | others
    · refine ⟨?_, ?_, ?_⟩
      · intro each inside
        rw [marked]
        split
        · rfl
        · rename_i away
          rcases List.mem_append.mp inside with early | here
          · exact moved.1 each early
          · rw [List.mem_singleton.mp here] at away
            exact absurd rfl away
      · intro each inside
        have apart : item.runId ∉ rest.map (·.runId) := by
          simp only [holding, List.map_append, List.map_cons] at nodup
          exact (List.nodup_cons.mp (List.nodup_append.mp nodup).2.1).1
        have away : each.runId ≠ item.runId := by
          intro here
          exact apart (here ▸ List.mem_map_of_mem inside)
        rw [marked, if_neg away]
        exact moved.2.1 each (List.mem_cons_of_mem _ inside)
      · intro id owes
        simpa [SteeringItem.runId] using moved.2.2 id owes
    · have old : other ∈ w.tasks := by
        rw [tasks]
        simp only [List.mem_append, List.mem_cons] at others ⊢
        tauto
      have away : ∀ id, id ∈ holding other ∨ storing other = some id → id ≠ item.runId := by
        intro id known here
        rcases known with holds | stores
        · exact holding_apart tasks inv.exclusive held others (here ▸ holds)
        · exact not_busy (here ▸ .inr ⟨other, old, stores⟩)
      apply (inv.tasks other old).mono
      · intro id stores backed
        unfold Backed
        rw [marked, if_neg (away id (.inr stores)), store']
        exact backed
      · intro id known status found
        rw [marked, if_neg (away id known)]
        exact found

/-- A drain returns. -/
theorem Inv.finish {owed : List String} {finished : List SteeringItem} (inv : Inv w)
    (tasks : w.tasks = before ++ .marking owed finished [] :: later)
    (tasks' : w'.tasks = before ++ .drained owed finished :: later)
    (store' : w'.store =
      { w.store with returned := w.store.returned ++ finished.map (·.runId) }) : Inv w' := by
  have moved := inv.tasks (.marking owed finished []) (by simp [tasks])
  have others_free : ∀ id, Free w id → Free w' id := by
    intro id free other member
    rcases mem_replaced tasks tasks' member with rfl | old
    · intro held
      cases held
    · exact free other old
  constructor
  · rw [store']
    exact inv.distinct
  · have exclusive := inv.exclusive
    rw [tasks] at exclusive
    rw [tasks', store']
    have moves : ((before ++ .drained owed finished :: later).flatMap holding ++
        (w.store.returned ++ finished.map (·.runId))).Perm
        ((before ++ .marking owed finished [] :: later).flatMap holding ++ w.store.returned) := by
      have left := (holding_perm before later (.drained owed finished)).append_right
        (w.store.returned ++ finished.map (·.runId))
      have right := (holding_perm before later (.marking owed finished [])).append_right
        w.store.returned
      refine left.trans (List.Perm.trans ?_ right.symm)
      simp only [holding, List.append_nil, List.nil_append]
      rw [← List.append_assoc, List.append_assoc (finished.map _)]
      exact List.perm_append_comm
    exact moves.nodup_iff.mpr exclusive
  · intro id busy
    apply others_free
    apply inv.apart
    rcases busy with queued | ⟨other, member, stores⟩
    · rw [store'] at queued
      exact .inl queued
    · rcases mem_replaced tasks tasks' member with rfl | old
      · cases stores
      · exact .inr ⟨other, old, stores⟩
  · rw [store']
    intro id member
    rcases List.mem_append.mp member with old | new
    · exact inv.consumed id old
    · obtain ⟨item, inside, same⟩ := List.mem_map.mp new
      exact same ▸ moved.1 item inside
  · rw [store']
    exact inv.owed
  · intro other member
    rcases mem_replaced tasks tasks' member with rfl | old
    · simpa [TaskOk] using moved.2.2
    · rw [store']
      exact (inv.tasks other old).mono (fun _ _ backed => backed) (fun _ _ _ found => found)

/-- An enqueue whose run is consumed drops it from the queue. -/
theorem Inv.discard {row : PendingInjection} (inv : Inv w)
    (tasks : w.tasks = before ++ .enqueueStored record item (some row) :: later)
    (tasks' : w'.tasks = before ++ .enqueued none :: later) (status : row.status = .consumed)
    (store' : w'.store = { w.store with state := w.store.state.discard record.runId }) :
    Inv w' := by
  have moved := inv.tasks (.enqueueStored record item (some row)) (by simp [tasks])
  have consumed : rowStatus w.store.rows record.runId = some .consumed := by
    rw [moved.2 row rfl, status]
  constructor
  · rw [store']
    exact inv.distinct.sublist (List.filter_sublist.map _)
  · exact exclusive_replace tasks tasks' rfl (by rw [store']) inv.exclusive
  · intro id busy
    apply free_replace tasks tasks' rfl
    apply inv.apart
    rcases busy with queued | ⟨other, member, stores⟩
    · rw [store', queues_discard, Bool.and_eq_true] at queued
      exact .inl queued.1
    · rcases mem_replaced tasks tasks' member with rfl | old
      · cases stores
      · exact .inr ⟨other, old, stores⟩
  · rw [store']
    exact inv.consumed
  · rw [store']
    intro id member
    have old := inv.owed id member
    have away : id ≠ record.runId := by
      intro here
      exact old.2 (here ▸ consumed)
    rw [queues_discard, old.1]
    exact ⟨by simpa using away, old.2⟩
  · intro other member
    rcases mem_replaced tasks tasks' member with rfl | old
    · trivial
    · rw [store']
      apply (inv.tasks other old).mono
      · intro id _ backed
        by_cases here : id = record.runId
        · exact .inr (here ▸ consumed)
        · unfold Backed
          rw [queues_discard]
          simpa [Backed, here] using backed
      · intro id _ status found
        exact found

/-- An enqueue returns its item. -/
theorem Inv.owe {row : PendingInjection} (inv : Inv w)
    (tasks : w.tasks = before ++ .enqueueStored record item (some row) :: later)
    (tasks' : w'.tasks = before ++ .enqueued (some item) :: later) (status : row.status ≠ .consumed)
    (store' : w'.store = { w.store with owed := w.store.owed ++ [record.runId] }) : Inv w' := by
  have moved := inv.tasks (.enqueueStored record item (some row)) (by simp [tasks])
  have unconsumed : rowStatus w.store.rows record.runId ≠ some .consumed := by
    rw [moved.2 row rfl]
    simpa using status
  constructor
  · rw [store']
    exact inv.distinct
  · exact exclusive_replace tasks tasks' rfl (by rw [store']) inv.exclusive
  · intro id busy
    apply free_replace tasks tasks' rfl
    apply inv.apart
    rcases busy with queued | ⟨other, member, stores⟩
    · rw [store'] at queued
      exact .inl queued
    · rcases mem_replaced tasks tasks' member with rfl | old
      · cases stores
      · exact .inr ⟨other, old, stores⟩
  · rw [store']
    exact inv.consumed
  · rw [store']
    intro id member
    rcases List.mem_append.mp member with old | new
    · exact inv.owed id old
    · rw [List.mem_singleton.mp new]
      exact ⟨moved.1.resolve_right unconsumed, unconsumed⟩
  · intro other member
    rcases mem_replaced tasks tasks' member with rfl | old
    · trivial
    · rw [store']
      exact (inv.tasks other old).mono (fun _ _ backed => backed) (fun _ _ _ found => found)

/-! ## Runs -/

theorem recordFromMessage_pending {injection : Injection}
    (recorded : recordFromMessage injection key = some record) : record.status = .pending := by
  unfold recordFromMessage at recorded
  cases given : injection.runId with
  | none => simp [given] at recorded
  | some id =>
    simp only [given] at recorded
    split at recorded
    · cases recorded
    · rw [← Option.some.inj recorded]

/-- What a hydration puts back does not keep the queue from being emptied. -/
theorem emptiable_load {answer : Option (List PendingInjection)}
    (mergeable : Mergeable key w answer) (emptiable : Emptiable w) :
    Emptiable { w with store := endLoading key w.store answer } := by
  constructor
  · exact emptiable.1
  · intro item member
    cases answer with
    | none => exact emptiable.2 item member
    | some loaded =>
      rcases mem_merge member with old | ⟨row, inside, own, fresh, same⟩
      · exact emptiable.2 item old
      · have pending := (mergeable row inside own fresh).1
        rw [same]
        exact pending

/-- One step of the task that moves. -/
theorem Inv.resume {ok : Bool} (inv : Inv w) (tasks : w.tasks = before ++ task :: later)
    (tasks' : w'.tasks = before ++ after :: later)
    (resumed : SteeringQueue.resume key w.store task ok = some (w'.store, after))
    (orderly : OrderlyTask key w ok task) : Inv w' := by
  have own := inv.tasks task (by simp [tasks])
  cases task with
  | enqueue sessionKey injection =>
    simp only [SteeringQueue.resume] at resumed
    cases recorded : recordFromMessage injection key with
    | none =>
      simp only [recorded, Option.some.injEq, Prod.mk.injEq] at resumed
      obtain ⟨store', rfl⟩ := resumed
      apply inv.quiet tasks tasks' rfl <;> simp [← store', storing, TaskOk]
    | some record =>
      simp only [recorded] at resumed
      split at resumed
      · rename_i touched
        have result := Option.some.inj resumed
        have after_eq := congrArg Prod.snd result
        have store' := congrArg Prod.fst result
        subst after_eq
        exact inv.queueUp tasks tasks' store'.symm rfl (recordFromMessage_pending recorded)
          (orderly touched record recorded)
      · simp only [Option.some.injEq, Prod.mk.injEq] at resumed
        obtain ⟨store', rfl⟩ := resumed
        have pending := recordFromMessage_pending recorded
        apply inv.quiet tasks tasks' rfl <;> simp [← store', startLoading, storing, TaskOk, pending]
  | enqueueLoading record =>
    simp only [SteeringQueue.resume, Option.some.injEq, Prod.mk.injEq] at resumed
    obtain ⟨store', rfl⟩ := resumed
    apply inv.quiet tasks tasks' rfl <;> simp [← store', storing]
    exact own
  | enqueueLoaded record answer =>
    have result := Option.some.inj resumed
    have after_eq := congrArg Prod.snd result
    have store' := congrArg Prod.fst result
    subst after_eq
    have loaded := inv.load orderly.1
    exact loaded.queueUp (w := { w with store := endLoading key w.store answer }) tasks tasks'
      store'.symm rfl own orderly.2
  | enqueueInserting record item =>
    simp only [SteeringQueue.resume] at resumed
    split at resumed
    · simp only [Option.some.injEq, Prod.mk.injEq] at resumed
      obtain ⟨store', rfl⟩ := resumed
      exact inv.insert tasks tasks' store'.symm
    · simp only [Option.some.injEq, Prod.mk.injEq] at resumed
      obtain ⟨store', rfl⟩ := resumed
      apply inv.quiet tasks tasks' rfl <;> simp [← store', storing, TaskOk]
  | enqueueSelecting record item =>
    simp only [SteeringQueue.resume] at resumed
    split at resumed
    · simp only [Option.some.injEq, Prod.mk.injEq] at resumed
      obtain ⟨store', rfl⟩ := resumed
      apply inv.quiet tasks tasks' rfl <;> simp [← store', storing]
      refine ⟨own, ?_⟩
      intro row found
      simp [rowStatus, found]
    · simp only [Option.some.injEq, Prod.mk.injEq] at resumed
      obtain ⟨store', rfl⟩ := resumed
      apply inv.quiet tasks tasks' rfl <;> simp [← store', storing, TaskOk]
  | enqueueStored record item persisted =>
    cases persisted with
    | none =>
      simp only [SteeringQueue.resume, Option.some.injEq, Prod.mk.injEq] at resumed
      obtain ⟨store', rfl⟩ := resumed
      apply inv.quiet tasks tasks' rfl <;> simp [← store', storing, TaskOk]
    | some row =>
      simp only [SteeringQueue.resume] at resumed
      split at resumed
      · rename_i status
        simp only [Option.some.injEq, Prod.mk.injEq] at resumed
        obtain ⟨store', rfl⟩ := resumed
        exact inv.discard tasks tasks' status store'.symm
      · rename_i status
        simp only [Option.some.injEq, Prod.mk.injEq] at resumed
        obtain ⟨store', rfl⟩ := resumed
        exact inv.owe tasks tasks' status store'.symm
  | drain sessionKey =>
    simp only [SteeringQueue.resume] at resumed
    split at resumed
    · rename_i touched
      have result := Option.some.inj resumed
      have after_eq := congrArg Prod.snd result
      have store' := congrArg Prod.fst result
      subst after_eq
      exact inv.take tasks tasks' store'.symm rfl (orderly touched)
    · simp only [Option.some.injEq, Prod.mk.injEq] at resumed
      obtain ⟨store', rfl⟩ := resumed
      apply inv.quiet tasks tasks' rfl <;> simp [← store', startLoading, storing, TaskOk]
  | drainLoading =>
    simp only [SteeringQueue.resume, Option.some.injEq, Prod.mk.injEq] at resumed
    obtain ⟨store', rfl⟩ := resumed
    apply inv.quiet tasks tasks' rfl <;> simp [← store', storing, TaskOk]
  | drainLoaded answer =>
    have result := Option.some.inj resumed
    have after_eq := congrArg Prod.snd result
    have store' := congrArg Prod.fst result
    subst after_eq
    have loaded := inv.load orderly.1
    refine loaded.take (w := { w with store := endLoading key w.store answer }) tasks tasks'
      store'.symm rfl (emptiable_load orderly.1 orderly.2)
  | marking owed finished rest =>
    cases rest with
    | nil =>
      simp only [SteeringQueue.resume, Option.some.injEq, Prod.mk.injEq] at resumed
      obtain ⟨store', rfl⟩ := resumed
      exact inv.finish tasks tasks' store'.symm
    | cons item rest =>
      have succeeds : ok = true := orderly
      simp only [SteeringQueue.resume, succeeds, if_true, Option.some.injEq,
        Prod.mk.injEq] at resumed
      obtain ⟨store', rfl⟩ := resumed
      exact inv.mark tasks tasks' store'.symm
  | rehydrate sessionKey =>
    simp only [SteeringQueue.resume] at resumed
    split at resumed
    · simp only [Option.some.injEq, Prod.mk.injEq] at resumed
      obtain ⟨store', rfl⟩ := resumed
      apply inv.quiet tasks tasks' rfl <;> simp [← store', storing, TaskOk]
    · simp only [Option.some.injEq, Prod.mk.injEq] at resumed
      obtain ⟨store', rfl⟩ := resumed
      apply inv.quiet tasks tasks' rfl <;> simp [← store', startLoading, storing, TaskOk]
  | rehydrateLoading =>
    simp only [SteeringQueue.resume, Option.some.injEq, Prod.mk.injEq] at resumed
    obtain ⟨store', rfl⟩ := resumed
    apply inv.quiet tasks tasks' rfl <;> simp [← store', storing, TaskOk]
  | rehydrateLoaded answer =>
    simp only [SteeringQueue.resume, Option.some.injEq, Prod.mk.injEq] at resumed
    obtain ⟨store', rfl⟩ := resumed
    have loaded := inv.load orderly
    apply loaded.quiet (w := { w with store := endLoading key w.store answer }) tasks tasks' rfl <;>
      simp [← store', storing, TaskOk]
  | enqueued item => cases resumed
  | drained owed items => cases resumed
  | rehydrated items => cases resumed
  | raised => cases resumed

theorem Inv.spawn (inv : Inv w) (starts : SteeringQueue.starts key task = true)
    (store' : w'.store = w.store) (tasks' : w'.tasks = w.tasks ++ [task]) : Inv w' := by
  have idle : holding task = [] ∧ storing task = none ∧ TaskOk w.store task := by
    cases task <;> simp [SteeringQueue.starts] at starts <;> simp [holding, storing, TaskOk]
  have listed : ∀ other ∈ w'.tasks, other ∈ w.tasks ∨ other = task := by
    intro other member
    rw [tasks'] at member
    simpa using member
  constructor
  · rw [store']
    exact inv.distinct
  · rw [store', tasks']
    simpa [List.flatMap_append, idle.1] using inv.exclusive
  · intro id busy other member
    have old : Busy w id := by
      rcases busy with queued | ⟨waiting, inside, stores⟩
      · exact .inl (store' ▸ queued)
      · rcases listed waiting inside with before | rfl
        · exact .inr ⟨waiting, before, stores⟩
        · rw [idle.2.1] at stores
          cases stores
    rcases listed other member with before | rfl
    · exact inv.apart id old other before
    · rw [idle.1]
      exact List.not_mem_nil
  · rw [store']
    exact inv.consumed
  · rw [store']
    exact inv.owed
  · intro other member
    rw [store']
    rcases listed other member with before | rfl
    · exact inv.tasks other before
    · exact idle.2.2

theorem Inv.step {choice : Choice} (inv : Inv w) (orderly : Orderly key w choice)
    (stepped : (program key).step w choice = some w') : Inv w' := by
  rcases (program key).step_cases stepped with
    ⟨task, rfl, starts, store', tasks'⟩ | ⟨index, ok, task, after, rfl, resumes⟩ |
      ⟨rfl, restarted, tasks'⟩
  · exact inv.spawn starts store' tasks'
  · obtain ⟨before, later, tasks, tasks'⟩ := resumes.split
    exact inv.resume tasks tasks' resumes.resumed (orderly task resumes.at_index)
  · have store' := Option.some.inj restarted
    have returned := (List.nodup_append.mp inv.exclusive).2.1
    constructor
    · rw [← store']
      exact List.nodup_nil
    · rw [tasks', ← store']
      simpa using returned
    · intro id _ task member
      rw [tasks'] at member
      cases member
    · rw [← store']
      exact inv.consumed
    · rw [← store']
      intro id member
      cases member
    · intro task member
      rw [tasks'] at member
      cases member

/-- Every run is returned by at most one drain, and a drain returns every run that an
enqueue had returned an item for, and that no drain had taken since, when it emptied the
queue. -/
structure ExactlyOnce (w : World) : Prop where
  once : w.store.returned.Nodup
  next : ∀ owed items, .drained owed items ∈ w.tasks → ∀ id ∈ owed, id ∈ items.map (·.runId)

/-- Steering over every schedule of enqueues, drains and hydrations of one session and
every restart, whose steps are orderly. -/
theorem steering_exactly_once (key : String) (rows : List PendingInjection) (w : World)
    (run : (program key).Runs (Orderly key) { store := { rows } } w) : ExactlyOnce w := by
  have inv : Inv w := by
    apply run.invariant Inv
    · constructor
      · exact List.nodup_nil
      · exact List.nodup_nil
      · intro id _ task member
        cases member
      · intro id member
        cases member
      · intro id member
        cases member
      · intro task member
        cases member
    · intro before after choice holds orderly stepped
      exact holds.step orderly stepped
  constructor
  · exact (List.nodup_append.mp inv.exclusive).2.1
  · intro owed items member
    exact inv.tasks _ member

/-- An enqueue that has returned before a drain, then a restart. -/
def inTurn : List Choice :=
  [.spawn (.enqueue "s" ⟨some "r", "done", 0⟩), .run 0 true, .run 0 true, .run 0 true, .run 0 true,
    .run 0 true, .run 0 true, .spawn (.drain "s"), .run 1 true, .run 1 true, .run 1 true, .restart,
    .spawn (.drain "s"), .run 0 true, .run 0 true, .run 0 true]

theorem steering_exactly_once_in_turn :
    ∃ w, (program "s").Runs (Orderly "s") { store := {} } w ∧ w.store.returned = ["r"] ∧
      ExactlyOnce w := by
  have played : (Machine.play (program "s").step (fun w choice => decide (Orderly "s" w choice))
      { store := {} } inTurn).any (fun w => w.store.returned == ["r"]) = true := by
    decide +kernel
  obtain ⟨w, run, returned⟩ := Machine.Runs.exists_of_play played
  have orderly : (program "s").Runs (Orderly "s") { store := {} } w :=
    run.mono fun _ _ allowed => of_decide_eq_true allowed
  exact ⟨w, orderly, by simpa using returned, steering_exactly_once "s" [] w orderly⟩

/-- The enqueue waits for its insert while a drain takes its item and returns it; the row
inserted afterwards is pending, and the next process returns it again. -/
def overtaken : List Choice :=
  [.spawn (.enqueue "s" ⟨some "r", "done", 0⟩), .run 0 true, .run 0 true, .run 0 true,
    .spawn (.drain "s"), .run 1 true, .run 1 true, .run 1 true, .run 0 true, .run 0 true, .run 0 true,
    .restart, .spawn (.drain "s"), .run 0 true, .run 0 true, .run 0 true, .run 0 true, .run 0 true]

theorem overtaken_enqueue_is_returned_twice :
    ∃ w, (program "s").Runs (fun _ _ => True) { store := {} } w ∧
      w.store.returned = ["r", "r"] ∧ ¬ExactlyOnce w := by
  have played : (Machine.play (program "s").step (fun _ _ => true)
      { store := {} } overtaken).any (fun w => w.store.returned == ["r", "r"]) = true := by
    decide +kernel
  obtain ⟨w, run, test⟩ := Machine.Runs.exists_of_play played
  have returned : w.store.returned = ["r", "r"] := by simpa using test
  refine ⟨w, run.mono fun _ _ _ => trivial, returned, ?_⟩
  intro exact
  have once := exact.once
  rw [returned] at once
  revert once
  decide

end SherryAgent.Guarantees.SteeringQueue
