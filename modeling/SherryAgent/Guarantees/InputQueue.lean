import SherryAgent.Source.Server.UserInputQueue

/-!
# The user-input queue over any sequence of operations

Every operation changes the table in one of four ways (`Change`); the capacity
of a session, the dedup keys and the finality of terminal rows follow from that.

* `queue_invariants` — at most `MAX_ACTIVE_PER_SESSION` active rows per session,
  no active key twice, terminal rows final, and a raising operation changes nothing.
-/

namespace SherryAgent.Guarantees.InputQueue

open SherryAgent.Source.Server SherryAgent.Source.Server.QueueRepository
  SherryAgent.Source.Server.UserInputQueue SherryAgent.Library

/-! ## Transactions -/

variable {α β : Type} {op : Op} {table after : QueueTable}

/-- A committed sequence committed its parts one after the other. -/
theorem bind_ok {first : Txn α} {rest : α → Txn β} {value : β}
    (committed : (first >>= rest).run.run table = (.ok value, after)) :
    ∃ middle working, first.run.run table = (.ok middle, working) ∧
      (rest middle).run.run working = (.ok value, after) := by
  simp only [ExceptT.run_bind, StateT.run_bind] at committed
  rcases result : first.run.run table with ⟨outcome, working⟩
  rw [result] at committed
  cases outcome with
  | error error => cases committed
  | ok middle => exact ⟨middle, working, rfl, committed⟩

theorem get_ok {value : QueueTable}
    (committed : (get : Txn QueueTable).run.run table = (.ok value, after)) :
    value = table ∧ after = table := by
  cases committed
  exact ⟨rfl, rfl⟩

theorem pure_ok {value result : α} (committed : (pure value : Txn α).run.run table = (.ok result, after)) :
    result = value ∧ after = table := by
  cases committed
  exact ⟨rfl, rfl⟩

/-- A transaction that raises leaves the table as it was. -/
theorem writeTransaction_error {block : Txn α} {error : QueueError}
    (raised : (writeTransaction block table).1 = .error error) :
    (writeTransaction block table).2 = table := by
  unfold writeTransaction at raised ⊢
  split
  · rename_i committed
    rw [committed] at raised
    cases raised
  · rfl

/-- A transaction leaves the table as it was, or commits what its block did. -/
theorem writeTransaction_cases (block : Txn α) (table : QueueTable) :
    (writeTransaction block table).2 = table ∨
      ∃ value, block.run.run table = (.ok value, (writeTransaction block table).2) := by
  unfold writeTransaction
  split
  · rename_i value working committed
    exact .inr ⟨value, committed⟩
  · exact .inl rfl

/-! ## What an operation can do -/

/-- The primary key and the partial unique index. -/
structure Distinct (table : QueueTable) : Prop where
  ids : (table.map (·.id)).Nodup
  keys : (table.filterMap dedupKey).Nodup

theorem write_ok {rows : QueueTable} {value : Unit}
    (committed : (write rows).run.run table = (.ok value, after)) :
    after = rows ∧ Distinct rows := by
  unfold write at committed
  split at committed
  · cases committed
  · rename_i ids
    split at committed
    · cases committed
    · rename_i keys
      cases committed
      exact ⟨rfl, not_not.mp ids, not_not.mp keys⟩

/-- All an operation does to the table. -/
inductive Change (op : Op) (table : QueueTable) : QueueTable → Prop where
  | unchanged : Change op table table
  | insert (row : UserInputQueueRow) (active : row.active = true)
      (room : countActive row.sessionId table < maxActivePerSession)
      (distinct : Distinct (table ++ [row])) : Change op table (table ++ [row])
  /-- Only active rows are updated, and none becomes another session's or message's. -/
  | update (p : UserInputQueueRow → Bool) (f : UserInputQueueRow → UserInputQueueRow)
      (opens : ∀ row ∈ table, p row = true → row.active = true)
      (same : ∀ row, (f row).id = row.id ∧ (f row).sessionId = row.sessionId ∧
        (f row).clientMsgId = row.clientMsgId)
      (distinct : Distinct (Table.updateWhere p f table)) : Change op table (Table.updateWhere p f table)
  | delete (sessionId : String) (deletes : op = .deleteSession sessionId) :
      Change op table (Table.deleteWhere (fun row => row.sessionId == sessionId) table)

theorem update_ok {p : UserInputQueueRow → Bool} {f : UserInputQueueRow → UserInputQueueRow}
    {rows : List UserInputQueueRow} (committed : (update p f).run.run table = (.ok rows, after)) :
    after = Table.updateWhere p f table ∧ Distinct after := by
  obtain ⟨seen, working, got, rest⟩ := bind_ok committed
  obtain ⟨rfl, rfl⟩ := get_ok got
  obtain ⟨_, written, wrote, answered⟩ := bind_ok rest
  obtain ⟨rfl, distinct⟩ := write_ok wrote
  obtain ⟨-, rfl⟩ := pure_ok answered
  exact ⟨rfl, distinct⟩

/-- A statement that updates active rows and answers about them. -/
theorem change_of_update {p : UserInputQueueRow → Bool} {f : UserInputQueueRow → UserInputQueueRow}
    {answer : List UserInputQueueRow → α} {value : α}
    (committed : (update p f >>= fun rows => pure (answer rows)).run.run table = (.ok value, after))
    (opens : ∀ row ∈ table, p row = true → row.active = true)
    (same : ∀ row, (f row).id = row.id ∧ (f row).sessionId = row.sessionId ∧
      (f row).clientMsgId = row.clientMsgId) : Change op table after := by
  obtain ⟨rows, working, updated, answered⟩ := bind_ok committed
  obtain ⟨rfl, distinct⟩ := update_ok updated
  obtain ⟨-, rfl⟩ := pure_ok answered
  exact .update p f opens same distinct

/-- The lookups of a transaction leave the working table alone. -/
theorem queuedPosition_ok {row : UserInputQueueRow} {position : Nat}
    (committed : (queuedPosition row).run.run table = (.ok position, after)) : after = table := by
  unfold queuedPosition at committed
  split at committed
  · exact (pure_ok committed).2
  · obtain ⟨seen, working, got, answered⟩ := bind_ok committed
    obtain ⟨rfl, rfl⟩ := get_ok got
    exact (pure_ok answered).2

theorem fetchById_ok {rowId : String} {row : UserInputQueueRow}
    (committed : (fetchById rowId).run.run table = (.ok row, after)) : after = table := by
  obtain ⟨seen, working, got, answered⟩ := bind_ok committed
  obtain ⟨rfl, rfl⟩ := get_ok got
  split at answered
  · cases answered
  · exact (pure_ok answered).2

theorem findActiveByClientMsg_ok {clientMsgId : String} {row : Option UserInputQueueRow}
    (committed : (findActiveByClientMsg clientMsgId).run.run table = (.ok row, after)) :
    after = table := by
  obtain ⟨seen, working, got, answered⟩ := bind_ok committed
  obtain ⟨rfl, rfl⟩ := get_ok got
  exact (pure_ok answered).2

theorem requireCapacity_ok {sessionId : String} {value : Unit}
    (committed : (requireCapacity sessionId).run.run table = (.ok value, after)) :
    after = table ∧ countActive sessionId table < maxActivePerSession := by
  obtain ⟨seen, working, got, answered⟩ := bind_ok committed
  obtain ⟨rfl, rfl⟩ := get_ok got
  dsimp only at answered
  split at answered
  · cases answered
  · rename_i room
    exact ⟨(pure_ok answered).2, Nat.lt_of_not_le room⟩

/-- The insertion both submitting operations make. -/
theorem insert_ok (row : UserInputQueueRow) {value : α} {next : Txn α}
    (committed : (requireCapacity row.sessionId >>= fun _ => insert row >>= fun _ => next).run.run
      table = (.ok value, after)) :
    countActive row.sessionId table < maxActivePerSession ∧ Distinct (table ++ [row]) ∧
      next.run.run (table ++ [row]) = (.ok value, after) := by
  obtain ⟨_, working, checked, rest⟩ := bind_ok committed
  obtain ⟨rfl, room⟩ := requireCapacity_ok checked
  obtain ⟨_, written, inserted, answered⟩ := bind_ok rest
  obtain ⟨seen, working', got, wrote⟩ := bind_ok inserted
  obtain ⟨rfl, rfl⟩ := get_ok got
  obtain ⟨rfl, distinct⟩ := write_ok wrote
  exact ⟨room, distinct, answered⟩

theorem insert_change (row : UserInputQueueRow) {value : α} {next : Txn α}
    (committed : (requireCapacity row.sessionId >>= fun _ => insert row >>= fun _ => next).run.run
      table = (.ok value, after)) (active : row.active = true)
    (reads : ∀ {working done : QueueTable} {value : α},
      next.run.run working = (.ok value, done) → done = working) : Change op table after := by
  obtain ⟨room, distinct, answered⟩ := insert_ok row committed
  rw [reads answered]
  exact .insert row active room distinct

theorem change_of_transaction {block : Txn α}
    (commits : ∀ value, block.run.run table = (.ok value, after) → Change op table after)
    (ended : (writeTransaction block table).2 = after) : Change op table after := by
  rcases writeTransaction_cases block table with same | ⟨value, committed⟩
  · rw [← ended, same]
    exact .unchanged
  · rw [ended] at committed
    exact commits value committed

theorem activeDuplicate_ok {clientMsgId : Option String} {row : Option UserInputQueueRow}
    (committed : (activeDuplicate clientMsgId).run.run table = (.ok row, after)) :
    after = table := by
  cases clientMsgId with
  | none => exact (pure_ok committed).2
  | some clientMsgId => exact findActiveByClientMsg_ok committed

theorem enqueue_change (submission : Submission) (now : Rat) (rowId : String) (table : QueueTable) :
    Change op table (enqueue submission now rowId table).2 := by
  unfold enqueue
  split
  · exact .unchanged
  · rename_i source _
    refine change_of_transaction (fun value committed => ?_) rfl
    obtain ⟨existing, working, looked_up, rest⟩ := bind_ok committed
    obtain rfl := activeDuplicate_ok looked_up
    cases existing with
    | some row =>
      obtain ⟨position, working', ranked, answered⟩ := bind_ok rest
      rw [(pure_ok answered).2, queuedPosition_ok ranked]
      exact .unchanged
    | none =>
      refine insert_change (submission.row source rowId now .queued) rest rfl ?_
      intro working done value committed
      obtain ⟨inserted, read, fetched, rest⟩ := bind_ok committed
      obtain ⟨position, ranked, ranks, answered⟩ := bind_ok rest
      rw [(pure_ok answered).2, queuedPosition_ok ranks, fetchById_ok fetched]

theorem insertClaimed_change (submission : Submission) (now : Rat) (rowId : String)
    (table : QueueTable) : Change op table (insertClaimed submission now rowId table).2 := by
  unfold insertClaimed
  split
  · exact .unchanged
  · rename_i source _
    refine change_of_transaction (fun value committed => ?_) rfl
    exact insert_change (submission.row source rowId now .claimed) committed rfl fetchById_ok

/-- The claimed row is queued: ids are distinct, so it is the row the subquery chose. -/
theorem claimNext_change (sessionId : String) (now : Rat) (ids : (table.map (·.id)).Nodup) :
    Change op table (writeTransaction (claimNext sessionId now) table).2 := by
  refine change_of_transaction (fun value committed => ?_) rfl
  obtain ⟨seen, working, got, rest⟩ := bind_ok committed
  obtain ⟨rfl, same⟩ := get_ok got
  rw [same] at rest
  refine change_of_update rest ?_ fun _ => ⟨rfl, rfl, rfl⟩
  intro row member hit
  obtain ⟨chosen, selected, same_id⟩ := List.any_eq_true.mp hit
  obtain ⟨inside, queued⟩ := Table.mem_of_mem_selectWhere selected
  have eq : row = chosen := Table.eq_of_key_eq ids member inside (by simpa using same_id)
  simp only [UserInputQueueRow.queuedIn, Bool.and_eq_true, beq_iff_eq] at queued
  rw [eq]
  simp [UserInputQueueRow.active, UserInputQueueStatus.active, queued.1.2]

theorem markTerminal_change (rowId status : String) (now : Rat) (table : QueueTable) :
    Change op table (UserInputQueue.markTerminal rowId status now table).2 := by
  unfold UserInputQueue.markTerminal
  split
  · exact .unchanged
  · split
    · exact .unchanged
    · refine change_of_transaction (fun value committed => ?_) rfl
      refine change_of_update committed (fun row _ hit => ?_) fun _ => ⟨rfl, rfl, rfl⟩
      exact (Bool.and_eq_true_iff.mp hit).2

theorem active_of_queued {row : UserInputQueueRow} (queued : row.status = .queued) :
    row.active = true := by
  simp [UserInputQueueRow.active, UserInputQueueStatus.active, queued]

theorem active_of_claimed {row : UserInputQueueRow} (claimed : row.status = .claimed) :
    row.active = true := by
  simp [UserInputQueueRow.active, UserInputQueueStatus.active, claimed]

/-- Every operation. -/
theorem call_change (op : Op) (now : Rat) (rowId : String) (ids : (table.map (·.id)).Nodup) :
    Change op table (op.call now rowId table).2 := by
  cases op with
  | enqueue submission => exact enqueue_change submission now rowId table
  | insertClaimed submission => exact insertClaimed_change submission now rowId table
  | claimNext sessionId => exact claimNext_change sessionId now ids
  | cancelQueued row =>
    change Change _ table (writeTransaction (cancelQueued row now) table).2
    refine change_of_transaction (fun value committed => ?_) rfl
    refine change_of_update committed (fun row _ hit => ?_) fun _ => ⟨rfl, rfl, rfl⟩
    simp only [Bool.and_eq_true, beq_iff_eq] at hit
    exact active_of_queued hit.2
  | updatePayload row payload =>
    change Change _ table (writeTransaction (updatePayload row payload now) table).2
    refine change_of_transaction (fun value committed => ?_) rfl
    refine change_of_update committed (fun row _ hit => ?_) fun _ => ⟨rfl, rfl, rfl⟩
    simp only [Bool.and_eq_true, beq_iff_eq] at hit
    exact active_of_queued hit.2
  | prioritize sessionId row =>
    change Change _ table (writeTransaction (prioritize sessionId row now) table).2
    refine change_of_transaction (fun value committed => ?_) rfl
    refine change_of_update committed (fun row _ hit => ?_) fun _ => ⟨rfl, rfl, rfl⟩
    simp only [Bool.and_eq_true, beq_iff_eq] at hit
    exact active_of_queued hit.2
  | markTerminal row status => exact markTerminal_change row status now table
  | requeueClaimed sessionId =>
    change Change _ table (writeTransaction (requeueClaimed sessionId now) table).2
    refine change_of_transaction (fun value committed => ?_) rfl
    refine change_of_update committed (fun row _ hit => ?_) fun _ => ⟨rfl, rfl, rfl⟩
    simp only [Bool.and_eq_true, beq_iff_eq] at hit
    exact active_of_claimed hit.2
  | recover sessionId =>
    change Change _ table (writeTransaction (recover sessionId now) table).2
    refine change_of_transaction (fun value committed => ?_) rfl
    refine change_of_update committed (fun row _ hit => ?_) fun _ => ⟨rfl, rfl, rfl⟩
    simp only [Bool.and_eq_true] at hit
    exact hit.1.2
  | deleteSession sessionId => exact .delete sessionId rfl

theorem map_error {result : Except QueueError α} {error : QueueError}
    (raised : (result.map fun _ => ()) = .error error) : result = .error error := by
  cases result with
  | error other =>
    cases raised
    rfl
  | ok value => cases raised

/-- An operation that raises leaves the table as it was. -/
theorem call_error (op : Op) (now : Rat) (rowId : String) {error : QueueError}
    (raised : (op.call now rowId table).1 = .error error) :
    (op.call now rowId table).2 = table := by
  cases op with
  | enqueue submission =>
    have raised : (enqueue submission now rowId table).1 = .error error := map_error raised
    change (enqueue submission now rowId table).2 = table
    revert raised
    unfold enqueue
    split
    · exact fun _ => rfl
    · exact writeTransaction_error
  | insertClaimed submission =>
    have raised : (insertClaimed submission now rowId table).1 = .error error := map_error raised
    change (insertClaimed submission now rowId table).2 = table
    revert raised
    unfold insertClaimed
    split
    · exact fun _ => rfl
    · exact writeTransaction_error
  | markTerminal row status =>
    have raised : (UserInputQueue.markTerminal row status now table).1 = .error error :=
      map_error raised
    change (UserInputQueue.markTerminal row status now table).2 = table
    revert raised
    unfold UserInputQueue.markTerminal
    split
    · exact fun _ => rfl
    · split
      · exact fun _ => rfl
      · exact writeTransaction_error
  | claimNext sessionId =>
    have raised : (writeTransaction (claimNext sessionId now) table).1 = _ := map_error raised
    exact writeTransaction_error raised
  | cancelQueued row =>
    have raised : (writeTransaction (cancelQueued row now) table).1 = _ := map_error raised
    exact writeTransaction_error raised
  | updatePayload row payload =>
    have raised : (writeTransaction (updatePayload row payload now) table).1 = _ := map_error raised
    exact writeTransaction_error raised
  | prioritize sessionId row =>
    have raised : (writeTransaction (prioritize sessionId row now) table).1 = _ := map_error raised
    exact writeTransaction_error raised
  | requeueClaimed sessionId =>
    have raised : (writeTransaction (requeueClaimed sessionId now) table).1 = _ := map_error raised
    exact writeTransaction_error raised
  | recover sessionId =>
    have raised : (writeTransaction (recover sessionId now) table).1 = _ := map_error raised
    exact writeTransaction_error raised
  | deleteSession sessionId =>
    have raised : (writeTransaction (deleteSession sessionId) table).1 = _ := map_error raised
    exact writeTransaction_error raised

/-! ## Every sequence of operations -/

/-- What holds of the table between two operations. -/
structure Sound (table : QueueTable) : Prop extends Distinct table where
  room : ∀ sessionId, countActive sessionId table ≤ maxActivePerSession

theorem sound_initial : Sound [] where
  ids := List.nodup_nil
  keys := List.nodup_nil
  room := fun _ => Nat.zero_le _

/-- An update of active rows adds no active row to any session. -/
theorem countActive_update {p : UserInputQueueRow → Bool} {f : UserInputQueueRow → UserInputQueueRow}
    (opens : ∀ row ∈ table, p row = true → row.active = true)
    (same : ∀ row, (f row).id = row.id ∧ (f row).sessionId = row.sessionId ∧
      (f row).clientMsgId = row.clientMsgId) (sessionId : String) :
    countActive sessionId (Table.updateWhere p f table) ≤ countActive sessionId table := by
  rw [countActive, Table.updateWhere, List.countP_map]
  refine List.countP_mono_left fun row member hit => ?_
  cases updated : p row with
  | true =>
    simp only [Function.comp, updated, if_true, (same row).2.1, Bool.and_eq_true] at hit
    rw [Bool.and_eq_true]
    exact ⟨hit.1, opens row member updated⟩
  | false => simpa [updated] using hit

theorem sound_change (sound : Sound table) (change : Change op table after) : Sound after := by
  cases change with
  | unchanged => exact sound
  | insert row active room distinct =>
    refine { distinct with room := fun sessionId => ?_ }
    rw [countActive, List.countP_append]
    by_cases own : row.sessionId = sessionId
    · subst own
      simp only [countActive] at room
      simp [active]
      omega
    · have before := sound.room sessionId
      rw [countActive] at before
      simpa [own] using before
  | update p f opens same distinct =>
    exact { distinct with
            room := fun sessionId =>
              (countActive_update opens same sessionId).trans (sound.room sessionId) }
  | delete sessionId _ =>
    refine { ids := ?_, keys := ?_, room := fun other => ?_ }
    · exact (List.filter_sublist.map _).nodup sound.ids
    · exact (List.filter_sublist.filterMap _).nodup sound.keys
    · exact (List.filter_sublist.countP_le).trans (sound.room other)

/-- The only operation that touches a terminal row deletes its session. -/
theorem terminal_change {row : UserInputQueueRow} (change : Change op table after)
    (spared : op ≠ .deleteSession row.sessionId) (member : row ∈ table)
    (terminal : row.status.terminal = true) : row ∈ after := by
  cases change with
  | unchanged => exact member
  | insert new => exact List.mem_append_left _ member
  | update p f opens same distinct =>
    refine Table.mem_updateWhere.mpr (.inr ⟨member, ?_⟩)
    by_contra hit
    have active := opens row member (by simpa using hit)
    cases status : row.status <;>
      simp [UserInputQueueRow.active, UserInputQueueStatus.active, UserInputQueueStatus.terminal,
        status] at active terminal
  | delete sessionId deletes =>
    refine Table.mem_deleteWhere.mpr ⟨member, ?_⟩
    have other : row.sessionId ≠ sessionId := fun same => spared (same ▸ deletes)
    simpa using other

theorem sound_run (sound : Sound table) (requests : List Request) : Sound (run requests table) := by
  induction requests generalizing table with
  | nil => exact sound
  | cons request rest ih =>
    exact ih (sound_change sound (call_change request.op request.now request.rowId sound.ids))

/-- A terminal row stays as it is until its session is deleted. -/
theorem terminal_run {row : UserInputQueueRow} (sound : Sound table) (member : row ∈ table)
    (terminal : row.status.terminal = true) (requests : List Request)
    (spared : ∀ request ∈ requests, request.op ≠ .deleteSession row.sessionId) :
    row ∈ run requests table := by
  induction requests generalizing table with
  | nil => exact member
  | cons request rest ih =>
    have change := call_change request.op request.now request.rowId sound.ids
    refine ih (sound_change sound change) ?_ fun later inside =>
      spared later (List.mem_cons_of_mem _ inside)
    exact terminal_change change (spared request List.mem_cons_self) member terminal

/-- With distinct ids, the rows with the id of a row are that row. -/
theorem only_row {row : UserInputQueueRow} (distinct : (table.map (·.id)).Nodup)
    (member : row ∈ table) : table.filter (fun other => other.id == row.id) = [row] := by
  induction table with
  | nil => cases member
  | cons first rest ih =>
    rw [List.map_cons, List.nodup_cons] at distinct
    rcases List.mem_cons.mp member with rfl | later
    · have none_later : rest.filter (fun other => other.id == row.id) = [] := by
        refine List.filter_eq_nil_iff.mpr fun other inside same => distinct.1 ?_
        rw [← beq_iff_eq.mp same]
        exact List.mem_map_of_mem inside
      simp [none_later]
    · have different : (first.id == row.id) = false := by
        refine beq_eq_false_iff_ne.mpr fun same => distinct.1 ?_
        rw [same]
        exact List.mem_map_of_mem later
      rw [List.filter_cons, different]
      exact ih distinct.2 later

/-- A dedup key is held by at most one active row. -/
theorem active_key_once (distinct : Distinct table) (key : String) :
    (table.countP fun row => row.active && row.clientMsgId == some key) ≤ 1 := by
  have once : (table.filterMap dedupKey).count key ≤ 1 :=
    List.nodup_iff_count_le_one.mp distinct.keys key
  rw [List.count_filterMap] at once
  refine le_trans (le_of_eq ?_) once
  refine List.countP_congr fun row _ => ?_
  cases active : row.active <;> simp [dedupKey, active]

/-- After any sequence of operations, with any clock readings and row ids: no session has
more than `MAX_ACTIVE_PER_SESSION` active rows, no key occurs in two active rows, a terminal
row is the same row after every later sequence that does not delete its session, and an
operation that raises leaves the table as it was. -/
theorem queue_invariants (requests : List Request) :
    let table := run requests []
    (∀ sessionId, countActive sessionId table ≤ maxActivePerSession) ∧
    (∀ key, (table.countP fun row => row.active && row.clientMsgId == some key) ≤ 1) ∧
    (∀ row ∈ table, row.status.terminal = true → ∀ later : List Request,
      (∀ request ∈ later, request.op ≠ .deleteSession row.sessionId) →
      (run later table).filter (fun other => other.id == row.id) = [row]) ∧
    ∀ request : Request, ∀ error,
      (request.op.call request.now request.rowId table).1 = .error error →
      (request.op.call request.now request.rowId table).2 = table := by
  intro table
  have sound : Sound table := sound_run sound_initial requests
  refine ⟨sound.room, active_key_once sound.toDistinct, ?_, ?_⟩
  · intro row member terminal later spared
    have stays := terminal_run sound member terminal later spared
    have distinct := (sound_run sound later).ids
    exact only_row distinct stays
  · exact fun request error raised => call_error request.op request.now request.rowId raised

/-- A message enqueued, claimed and delivered, by a key that is then free again. -/
def delivered : List Request :=
  [⟨.enqueue { sessionId := "s", payload := "p", source := "user", clientMsgId := some "m" }, 0, "r1"⟩,
   ⟨.claimNext "s", 1, ""⟩, ⟨.markTerminal "r1" "DELIVERED", 2, ""⟩]

/-- The boot pass and a resend of the message. -/
def restart : List Request :=
  [⟨.requeueClaimed "s", 3, ""⟩, ⟨.recover "s", 90000, ""⟩,
   ⟨.insertClaimed { sessionId := "s", payload := "p", source := "user", clientMsgId := some "m" },
    90001, "r2"⟩]

/-- The delivered row is still that row after the restart. -/
theorem delivered_row_stays : ∃ row ∈ run delivered [], row.status = .delivered ∧
    (run restart (run delivered [])).filter (fun other => other.id == row.id) = [row] := by
  have found : ((run delivered []).any fun row =>
      row.status == .delivered && row.sessionId == "s") = true := by decide +kernel
  obtain ⟨row, member, settled⟩ := List.any_eq_true.mp found
  simp only [Bool.and_eq_true, beq_iff_eq] at settled
  have spared : ∀ request ∈ restart, request.op ≠ .deleteSession row.sessionId := by
    intro request inside
    simp only [restart, List.mem_cons, List.not_mem_nil, or_false] at inside
    rcases inside with rfl | rfl | rfl <;> simp
  exact ⟨row, member, settled.1, (queue_invariants delivered).2.2.1 row member
    (by rw [settled.1]; rfl) restart spared⟩

end SherryAgent.Guarantees.InputQueue
