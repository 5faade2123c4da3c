import SherryAgent.Source.Summarization.CompactionLock

/-!
# Mutual exclusion and hand-over of the compaction lock

A row a holder acquired stays in the table until the holder has left its body,
unless its ttl passes first: another acquire steals only expired rows, another
release deletes only its own holder's.

* `compaction_lock_excludes` — as long as no body overruns its ttl, at most one
  holder of a session is inside, and a late release spares its successor's row.
-/

namespace SherryAgent.Guarantees.CompactionLock

open SherryAgent.Source.Summarization SherryAgent.Library SherryAgent.Library.Resumption

abbrev LockHistory := List (Event lockEffects)

abbrev LockWorld := World lockEffects LockStore AcquireArgs LockReply

/-- The program drew the id. -/
def Drew (h : LockHistory) (holder : String) : Prop :=
  (⟨.newHolder, holder⟩ : Event lockEffects) ∈ h

/-- The program's acquire transaction inserted the row. -/
def Acquired (h : LockHistory) (row : LockRow) : Prop :=
  (⟨.tryAcquire row, true⟩ : Event lockEffects) ∈ h

def Left (h : LockHistory) : Prop := ∃ row, (⟨.leave row, ()⟩ : Event lockEffects) ∈ h

/-- The program is in the body it entered under the row. -/
def Inside (h : LockHistory) (row : LockRow) : Prop :=
  (⟨.enter row, true⟩ : Event lockEffects) ∈ h ∧ ¬Left h

/-! ## What an acquire performs -/

/-- An acquire uses its own holder id and a clock reading of its own, and releases only
after it left the body. -/
def MayPerform (args : AcquireArgs) (h : LockHistory) : LockOp → Prop
  | .tryAcquire row => row.sessionId = args.sessionId ∧ Drew h row.holder ∧
      (⟨.clock, row.acquiredAt⟩ : Event lockEffects) ∈ h
  | .enter row => Acquired h row
  | .release _ holder => Drew h holder ∧ Left h
  | _ => True

theorem Drew.append {h : LockHistory} {holder : String} (drew : Drew h holder) (rest : LockHistory) :
    Drew (h ++ rest) holder :=
  List.mem_append_left _ drew

theorem pollLock_issues (args : AcquireArgs) {holder : String} (deadline : Rat) (attempts : Nat)
    {h : LockHistory} (drew : Drew h holder) :
    (pollLock args holder deadline attempts).Issues (MayPerform args) (fun _ _ => True) h := by
  induction attempts generalizing h with
  | zero => exact trivial
  | succ attempts ih =>
    refine (Prog.issues_perform_bind _ _ _).mpr ⟨trivial, fun (now : Rat) => ?_⟩
    refine (Prog.issues_perform_bind _ _ _).mpr
      ⟨⟨rfl, drew.append _, by simp⟩, fun acquired => ?_⟩
    cases acquired with
    | false =>
      refine (Prog.issues_perform_bind _ _ _).mpr ⟨trivial, fun (time : Rat) => ?_⟩
      split
      · exact ⟨trivial, fun _ => trivial⟩
      · refine (Prog.issues_perform_bind _ _ _).mpr ⟨trivial, fun _ => ?_⟩
        exact ih ((((drew.append _).append _).append _).append _)
    | true =>
      refine (Prog.issues_perform_bind _ _ _).mpr ⟨by simp [MayPerform, Acquired], fun entered => ?_⟩
      cases entered with
      | false => exact trivial
      | true =>
        refine (Prog.issues_perform_bind _ _ _).mpr ⟨trivial, fun _ => ?_⟩
        refine (Prog.issues_perform_bind _ _ _).mpr ⟨⟨?_, ?_⟩, fun _ => trivial⟩
        · exact (((drew.append _).append _).append _).append _
        · exact ⟨⟨args.sessionId, holder, now, args.ttlS⟩, by simp⟩

theorem acquire_issues (args : AcquireArgs) :
    (acquire args).Issues (MayPerform args) (fun _ _ => True) [] := by
  refine (Prog.issues_perform_bind _ _ _).mpr ⟨trivial, fun holder => ?_⟩
  refine (Prog.issues_perform_bind _ _ _).mpr ⟨trivial, fun (start : Rat) => ?_⟩
  exact pollLock_issues args _ _ (by simp [Drew])

/-! ## The table -/

variable {locks : List LockRow} {row other : LockRow}

/-- An acquire steals only rows whose ttl has passed. -/
theorem insertLock_keeps (row : LockRow) (member : other ∈ locks) :
    other ∈ (insertLock row locks).2 ∨ other.deadline < row.acquiredAt := by
  unfold insertLock
  dsimp only
  split
  · exact .inl member
  · by_cases stolen : other.sessionId = row.sessionId ∧ other.deadline < row.acquiredAt
    · exact .inr stolen.2
    · refine .inl (List.mem_append_left _ (Table.mem_deleteWhere.mpr ⟨member, ?_⟩))
      simpa using stolen

theorem insertLock_acquired (acquired : (insertLock row locks).1 = true) :
    row ∈ (insertLock row locks).2 := by
  unfold insertLock at acquired ⊢
  dsimp only at acquired ⊢
  split at acquired
  · cases acquired
  · rename_i free
    rw [if_neg free]
    exact List.mem_append_right _ List.mem_cons_self

/-- One row per session. -/
theorem insertLock_nodup (row : LockRow) (distinct : (locks.map (·.sessionId)).Nodup) :
    ((insertLock row locks).2.map (·.sessionId)).Nodup := by
  unfold insertLock
  dsimp only
  split
  · exact distinct
  · rename_i free
    rw [List.map_append, List.nodup_append]
    refine ⟨(List.filter_sublist.map _).nodup distinct, by simp, ?_⟩
    intro session member new eq
    obtain ⟨kept, inside, rfl⟩ := List.mem_map.mp member
    refine fun same => free (List.any_eq_true.mpr ⟨kept, inside, ?_⟩)
    simpa [same] using eq

variable {store after : LockStore} {op : LockOp} {ans : op.Ans} {input : LockInput}

/-- What every operation does to the store. -/
structure Advance (store after : LockStore) : Prop where
  clock : store.clock ≤ after.clock
  drawn : store.drawn ⊆ after.drawn
  sessions : (store.locks.map (·.sessionId)).Nodup → (after.locks.map (·.sessionId)).Nodup

theorem advance_exec (executed : execLock op store input = some (ans, after)) :
    Advance store after := by
  unfold execLock at executed
  split at executed
  · cases executed
  · rename_i forward
    have clock : store.clock ≤ input.moment := not_lt.mp forward
    cases op with
    | newHolder =>
      simp only [runLock] at executed
      split at executed
      · cases executed
      · cases executed
        exact ⟨clock, List.subset_cons_self _ _, id⟩
    | tryAcquire row =>
      cases executed
      exact ⟨clock, List.Subset.refl _, insertLock_nodup row⟩
    | release sessionId holder =>
      cases executed
      exact ⟨clock, List.Subset.refl _, (List.filter_sublist.map _).nodup⟩
    | _ =>
      cases executed
      exact ⟨clock, List.Subset.refl _, id⟩

/-- A row leaves the table by its own holder's release, or after its ttl to an acquire whose
clock reading is past. -/
theorem exec_keeps (executed : execLock op store input = some (ans, after))
    (member : row ∈ store.locks)
    (past : ∀ new, op = .tryAcquire new → new.acquiredAt ≤ store.clock)
    (foreign : ∀ sessionId, op ≠ .release sessionId row.holder) :
    row ∈ after.locks ∨ row.deadline < store.clock := by
  unfold execLock at executed
  split at executed
  · cases executed
  · cases op with
    | newHolder =>
      simp only [runLock] at executed
      split at executed
      · cases executed
      · cases executed
        exact .inl member
    | tryAcquire new =>
      cases executed
      rcases insertLock_keeps new member with kept | stolen
      · exact .inl kept
      · exact .inr (lt_of_lt_of_le stolen (past new rfl))
    | release sessionId holder =>
      cases executed
      refine .inl (Table.mem_deleteWhere.mpr ⟨member, ?_⟩)
      have other : row.holder ≠ holder := fun same => foreign sessionId (same ▸ rfl)
      simp [other]
    | _ =>
      cases executed
      exact .inl member

theorem exec_release {sessionId holder : String}
    (executed : execLock (.release sessionId holder) store input = some ((), after))
    (member : row ∈ store.locks) (foreign : row.holder ≠ holder) : row ∈ after.locks := by
  unfold execLock at executed
  split at executed
  · cases executed
  · cases executed
    exact Table.mem_deleteWhere.mpr ⟨member, by simp [foreign]⟩

/-! ## Every run -/

/-- What holds in every state of every run. -/
structure Sound (w : LockWorld) : Prop where
  honours : w.Honours MayPerform fun _ _ _ => True
  sessions : (w.store.locks.map (·.sessionId)).Nodup
  readings : ∀ t ∈ w.threads, ∀ now : Rat,
    (⟨.clock, now⟩ : Event lockEffects) ∈ t.history → now ≤ w.store.clock
  drawn : ∀ t ∈ w.threads, ∀ holder, Drew t.history holder → holder ∈ w.store.drawn
  distinct : ∀ (i j : Nat) t t' holder, w.threads[i]? = some t → w.threads[j]? = some t' →
    Drew t.history holder → Drew t'.history holder → i = j
  own : ∀ t ∈ w.threads, ∀ row, Acquired t.history row → Drew t.history row.holder
  entered : ∀ t ∈ w.threads, ∀ row, (⟨.enter row, true⟩ : Event lockEffects) ∈ t.history →
    Acquired t.history row
  /-- An acquired row is there until its holder leaves, or its ttl has passed. -/
  held : ∀ t ∈ w.threads, ∀ row, Acquired t.history row → ¬Left t.history →
    row ∈ w.store.locks ∨ row.deadline < w.store.clock

theorem sound_initial (clock : Rat) : Sound ⟨{ clock }, []⟩ where
  honours := fun _ member => absurd member List.not_mem_nil
  sessions := List.nodup_nil
  readings := fun _ member => absurd member List.not_mem_nil
  drawn := fun _ member => absurd member List.not_mem_nil
  distinct := fun _ _ _ _ _ found => by cases found
  own := fun _ member => absurd member List.not_mem_nil
  entered := fun _ member => absurd member List.not_mem_nil
  held := fun _ member => absurd member List.not_mem_nil

variable {w w' : LockWorld} {i : Nat} {thread : Thread lockEffects AcquireArgs LockReply}

theorem exec_reading {now : Rat} (executed : execLock .clock store input = some (now, after)) :
    now = after.clock := by
  unfold execLock at executed
  split at executed <;> cases executed
  rfl

theorem exec_draw {holder : String}
    (executed : execLock .newHolder store input = some (holder, after)) :
    holder ∉ store.drawn ∧ holder ∈ after.drawn := by
  unfold execLock at executed
  split at executed
  · cases executed
  · simp only [runLock] at executed
    split at executed
    · cases executed
    · rename_i fresh
      cases executed
      exact ⟨fresh, List.mem_cons_self⟩

theorem exec_acquired (executed : execLock (.tryAcquire row) store input = some (true, after)) :
    row ∈ after.locks := by
  unfold execLock at executed
  split at executed
  · cases executed
  · simp only [runLock, Option.some.injEq, Prod.mk.injEq] at executed
    rw [← executed.2]
    exact insertLock_acquired executed.1

/-- No two acquires draw the same id. -/
theorem distinct_fires (sound : Sound w) (fires : lockSystem.Fires w w' i thread op ans) :
    ∀ (j k : Nat) t t' holder, w'.threads[j]? = some t → w'.threads[k]? = some t' →
      Drew t.history holder → Drew t'.history holder → j = k := by
  obtain ⟨input, executed⟩ := fires.executed
  have fresh : ∀ {j : Nat} {t : Thread lockEffects AcquireArgs LockReply} {holder : String},
      w.threads[j]? = some t → Drew t.history holder →
      Drew (thread.history ++ [⟨op, ans⟩]) holder → Drew thread.history holder := by
    intro j t holder at_j drew drew'
    rcases List.mem_append.mp drew' with old | new
    · exact old
    · cases List.mem_singleton.mp new
      exact absurd (sound.drawn t (List.mem_of_getElem? at_j) holder drew) (exec_draw executed).1
  intro j k t t' holder at_j at_k drew drew'
  rcases fires.index_cases at_j with ⟨-, old⟩ | ⟨rfl, -, history⟩
  · rcases fires.index_cases at_k with ⟨-, old'⟩ | ⟨rfl, -, history'⟩
    · exact sound.distinct j k t t' holder old old' drew drew'
    · rw [history'] at drew'
      exact sound.distinct j k t thread holder old fires.at_index drew (fresh old drew drew')
  · rcases fires.index_cases at_k with ⟨-, old'⟩ | ⟨rfl, -, -⟩
    · rw [history] at drew
      exact sound.distinct j k thread t' holder fires.at_index old' (fresh old' drew' drew) drew'
    · rfl

/-- What an acquire holds stays in the table past every operation of the others. -/
theorem held_fires (sound : Sound w) (fires : lockSystem.Fires w w' i thread op ans) :
    ∀ t ∈ w'.threads, ∀ row, Acquired t.history row → ¬Left t.history →
      row ∈ w'.store.locks ∨ row.deadline < w'.store.clock := by
  obtain ⟨input, executed⟩ := fires.executed
  have may : MayPerform thread.request thread.history op := fires.issued sound.honours
  have advance := advance_exec executed
  have past : ∀ new, op = .tryAcquire new → new.acquiredAt ≤ w.store.clock := by
    rintro new rfl
    exact sound.readings thread fires.mem _ may.2.2
  have stays : ∀ (t : Thread lockEffects AcquireArgs LockReply) row, t ∈ w.threads →
      Acquired t.history row → ¬Left t.history →
      (∀ sessionId, op ≠ .release sessionId row.holder) →
      row ∈ w'.store.locks ∨ row.deadline < w'.store.clock := by
    intro t row member acquired inside foreign
    rcases sound.held t member row acquired inside with present | expired
    · rcases exec_keeps executed present past foreign with kept | stolen
      · exact .inl kept
      · exact .inr (lt_of_lt_of_le stolen advance.clock)
    · exact .inr (lt_of_lt_of_le expired advance.clock)
  intro t member row acquired inside
  obtain ⟨j, at_j⟩ := List.mem_iff_getElem?.mp member
  rcases fires.index_cases at_j with ⟨other, old⟩ | ⟨rfl, -, history⟩
  · refine stays t row (List.mem_of_getElem? old) acquired inside ?_
    rintro sessionId rfl
    have drew := sound.own t (List.mem_of_getElem? old) row acquired
    exact other (sound.distinct j i t thread row.holder old fires.at_index drew may.1)
  · rw [history] at acquired inside
    have not_left : ¬Left thread.history := fun ⟨left, event⟩ =>
      inside ⟨left, List.mem_append_left _ event⟩
    rcases List.mem_append.mp acquired with before | now
    · refine stays thread row fires.mem before not_left ?_
      rintro sessionId rfl
      exact not_left may.2
    · cases List.mem_singleton.mp now
      exact .inl (exec_acquired executed)

theorem sound_step {choice : Choice AcquireArgs LockInput} (sound : Sound w)
    (stepped : lockSystem.step w choice = some w') : Sound w' := by
  have honours := System.honours_step acquire_issues sound.honours stepped
  have own : ∀ t ∈ w'.threads, ∀ row, Acquired t.history row → Drew t.history row.holder := by
    refine System.histories_step
      (P := fun _ h => ∀ row, Acquired h row → Drew h row.holder)
      (fun _ _ member => absurd member List.not_mem_nil) ?_ sound.honours sound.own stepped
    intro args h op ans before may row acquired
    rcases List.mem_append.mp acquired with old | new
    · exact (before row old).append _
    · cases List.mem_singleton.mp new
      exact Drew.append may.2.1 _
  have entered : ∀ t ∈ w'.threads, ∀ row,
      (⟨.enter row, true⟩ : Event lockEffects) ∈ t.history → Acquired t.history row := by
    refine System.histories_step
      (P := fun _ h => ∀ row, (⟨.enter row, true⟩ : Event lockEffects) ∈ h → Acquired h row)
      (fun _ _ member => absurd member List.not_mem_nil) ?_ sound.honours sound.entered stepped
    intro args h op ans before may row member
    rcases List.mem_append.mp member with old | new
    · exact List.mem_append_left _ (before row old)
    · cases List.mem_singleton.mp new
      exact List.mem_append_left _ may
  rcases lockSystem.step_cases stepped with
    ⟨args, -, same, threads⟩ | ⟨i, input, thread, op, ans, -, fires⟩
  · have old_or_new : ∀ (j : Nat) t, w'.threads[j]? = some t →
        w.threads[j]? = some t ∨ t.history = [] := by
      intro j t at_j
      rw [threads, List.getElem?_append] at at_j
      split at at_j
      · exact .inl at_j
      · have new := List.mem_singleton.mp (List.mem_of_getElem? at_j)
        exact .inr (by rw [new])
    have started : ∀ {P : LockHistory → Prop}, P [] → (∀ t ∈ w.threads, P t.history) →
        ∀ t ∈ w'.threads, P t.history := by
      intro P base before t member
      obtain ⟨j, at_j⟩ := List.mem_iff_getElem?.mp member
      rcases old_or_new j t at_j with old | new
      · exact before t (List.mem_of_getElem? old)
      · rw [new]
        exact base
    have none_yet : ∀ {event : Event lockEffects}, event ∉ ([] : LockHistory) := List.not_mem_nil
    refine { honours, own, entered, sessions := ?_, readings := ?_, drawn := ?_, distinct := ?_
             held := ?_ }
    · rw [same]
      exact sound.sessions
    · rw [same]
      exact started
        (P := fun h => ∀ now : Rat, (⟨.clock, now⟩ : Event lockEffects) ∈ h → now ≤ w.store.clock)
        (fun _ event => absurd event none_yet) sound.readings
    · rw [same]
      exact started (P := fun h => ∀ holder, Drew h holder → holder ∈ w.store.drawn)
        (fun _ drew => absurd drew none_yet) sound.drawn
    · intro j k t t' holder at_j at_k drew drew'
      rcases old_or_new j t at_j with old | new
      · rcases old_or_new k t' at_k with old' | new'
        · exact sound.distinct j k t t' holder old old' drew drew'
        · rw [new'] at drew'
          exact absurd drew' none_yet
      · rw [new] at drew
        exact absurd drew none_yet
    · rw [same]
      exact started
        (P := fun h => ∀ row, Acquired h row → ¬Left h →
          row ∈ w.store.locks ∨ row.deadline < w.store.clock)
        (fun _ acquired => absurd acquired none_yet) sound.held
  · obtain ⟨input', executed⟩ := fires.executed
    have advance := advance_exec executed
    refine { honours, own, entered, sessions := advance.sessions sound.sessions, readings := ?_
             drawn := ?_, distinct := distinct_fires sound fires, held := held_fires sound fires }
    · intro t member now event
      rcases fires.thread_cases member with old | ⟨-, history⟩
      · exact (sound.readings t old now event).trans advance.clock
      · rw [history] at event
        rcases List.mem_append.mp event with before | new
        · exact (sound.readings thread fires.mem now before).trans advance.clock
        · cases List.mem_singleton.mp new
          exact le_of_eq (exec_reading executed)
    · intro t member holder drew
      rcases fires.thread_cases member with old | ⟨-, history⟩
      · exact advance.drawn (sound.drawn t old holder drew)
      · rw [history] at drew
        rcases List.mem_append.mp drew with before | new
        · exact advance.drawn (sound.drawn thread fires.mem holder before)
        · cases List.mem_singleton.mp new
          exact (exec_draw executed).2

/-- No body has overrun the ttl of the row it was entered under. -/
def Timely (w : LockWorld) : Prop :=
  ∀ t ∈ w.threads, ∀ row, Inside t.history row → w.store.clock ≤ row.deadline

/-- Any number of holders, any interleaving of their clock readings and transactions. In
every state no body has overrun its ttl in, at most one holder of a session is inside. A
release, however late, leaves every row another holder acquired. -/
theorem compaction_lock_excludes {w : LockWorld} (clock : Rat)
    (run : lockSystem.Runs (fun _ _ => True) ⟨{ clock }, []⟩ w) :
    (Timely w → ∀ (i j : Nat) t t' row row', w.threads[i]? = some t → w.threads[j]? = some t' →
      Inside t.history row → Inside t'.history row' → row.sessionId = row'.sessionId → i = j) ∧
    ∀ w' i thread sessionId holder,
      lockSystem.Fires w w' i thread (.release sessionId holder) () →
      ∀ (j : Nat) t row, j ≠ i → w.threads[j]? = some t → Acquired t.history row →
        row ∈ w.store.locks → row ∈ w'.store.locks := by
  have sound : Sound w := run.invariant Sound (sound_initial clock)
    fun _ _ _ sound _ stepped => sound_step sound stepped
  constructor
  · intro timely i j t t' row row' at_i at_j inside inside' session
    have member := List.mem_of_getElem? at_i
    have member' := List.mem_of_getElem? at_j
    have acquired := sound.entered t member row inside.1
    have acquired' := sound.entered t' member' row' inside'.1
    have present : row ∈ w.store.locks :=
      (sound.held t member row acquired inside.2).resolve_right
        (not_lt.mpr (timely t member row inside))
    have present' : row' ∈ w.store.locks :=
      (sound.held t' member' row' acquired' inside'.2).resolve_right
        (not_lt.mpr (timely t' member' row' inside'))
    have same : row = row' := Table.eq_of_key_eq sound.sessions present present' session
    have drew := sound.own t member row acquired
    have drew' := sound.own t' member' row' acquired'
    rw [← same] at drew'
    exact sound.distinct i j t t' row.holder at_i at_j drew drew'
  · intro w' i thread sessionId holder fires j t row other at_j acquired present
    obtain ⟨input, executed⟩ := fires.executed
    have may : MayPerform thread.request thread.history (.release sessionId holder) :=
      fires.issued sound.honours
    have drew := sound.own t (List.mem_of_getElem? at_j) row acquired
    have foreign : row.holder ≠ holder := fun same =>
      other (sound.distinct j i t thread holder at_j fires.at_index (same ▸ drew) may.1)
    exact exec_release executed present foreign

/-- The rows under which a program entered its body. -/
def entries (h : LockHistory) : List LockRow :=
  seen (E := lockEffects) (fun op ans => match op, ans with
    | .enter row, true => some row
    | _, _ => none) h

theorem mem_entries {h : LockHistory} {row : LockRow} :
    row ∈ entries h ↔ (⟨.enter row, true⟩ : Event lockEffects) ∈ h := by
  rw [entries, seen, List.mem_filterMap]
  constructor
  · rintro ⟨⟨op, ans⟩, member, viewed⟩
    cases op with
    | enter other =>
      cases ans with
      | true =>
        cases viewed
        exact member
      | false => cases viewed
    | _ => cases viewed
  · exact fun member => ⟨_, member, rfl⟩

/-- Two acquires of one session: the first is inside, the second polls in vain at the last
moment of the first one's ttl. -/
def contended : List (Choice AcquireArgs LockInput) :=
  [.start { sessionId := "s", attempts := 1 }, .start { sessionId := "s", attempts := 1 },
   .run 0 { moment := 1, drawn := "a" }, .run 1 { moment := 1, drawn := "b" },
   .run 0 { moment := 1 }, .run 1 { moment := 1 }, .run 0 { moment := 1 }, .run 0 { moment := 2 },
   .run 0 { moment := 2 }, .run 1 { moment := 301 }, .run 1 { moment := 301 }]

/-- The first holder is alone inside. -/
theorem contended_lock_excludes : ∃ w t row,
    lockSystem.Runs (fun _ _ => True) ⟨{ clock := 0 }, []⟩ w ∧ w.store.clock = row.deadline ∧
      w.threads[0]? = some t ∧ Inside t.history row ∧
      ∀ (j : Nat) t' row', w.threads[j]? = some t' → Inside t'.history row' →
        row.sessionId = row'.sessionId → 0 = j := by
  have played : (lockSystem.play (fun _ _ => true) ⟨{ clock := 0 }, []⟩ contended).any
      (fun w => (w.threads.all fun t => (entries t.history).all fun row =>
          decide (w.store.clock ≤ row.deadline)) &&
        w.threads[0]?.any fun t => (entries t.history).any (w.store.clock == ·.deadline) &&
          t.history.all fun event => match event.op with | .leave _ => false | _ => true) = true := by
    decide +kernel
  obtain ⟨w, run, tested⟩ := System.Runs.exists_of_play played
  simp only [Bool.and_eq_true, Option.any_eq_true, List.any_eq_true, List.all_eq_true, beq_iff_eq,
    decide_eq_true_eq] at tested
  obtain ⟨timely, t, at_0, ⟨row, entered, last⟩, not_left⟩ := tested
  have inside : Inside t.history row :=
    ⟨mem_entries.mp entered, fun ⟨left, member⟩ => by simpa using not_left _ member⟩
  have run : lockSystem.Runs (fun _ _ => True) ⟨{ clock := 0 }, []⟩ w :=
    run.mono fun _ _ _ => trivial
  have in_time : Timely w := fun t member row inside =>
    timely t member row (mem_entries.mpr inside.1)
  refine ⟨w, t, row, run, last, at_0, inside, fun j t' row' at_j inside' session => ?_⟩
  exact (compaction_lock_excludes 0 run).1 in_time 0 j t t' row row' at_0 at_j inside inside' session

end SherryAgent.Guarantees.CompactionLock
