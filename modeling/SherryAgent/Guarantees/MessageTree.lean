import SherryAgent.Source.ContextEngine.MessageTree

/-!
# Forks and undo on the message tree

A fork reads the rows of its source, the deletes remove rows by session and turn,
and the leaf is re-pointed to the newest row the session itself has left.

* `tree_isolation_and_undo` — in every reachable store, exactly when an operation
  leaves the other sessions' paths alone and when deleting an added turn undoes it;
* `deleting_a_source_empties_its_fork` — both fail around a fork.
-/

namespace SherryAgent.Guarantees.MessageTree

open SherryAgent.Source.ContextEngine SherryAgent.Source.ContextEngine.TreeStore
  SherryAgent.Library

variable {β : Type} {store : TreeStore β} {messages : List (MessageRow β)} {row : MessageRow β}

/-- `get_message_path_to_root` from the session's leaf; empty without one. -/
def sessionPath (store : TreeStore β) (sessionId : String) : List (MessageRow β) :=
  match store.getSessionLeaf sessionId with
  | none => []
  | some leaf => store.getMessagePathToRoot leaf

/-! ## Leafs -/

/-- The leaf of a session after its own update or another one's. -/
theorem find?_update_leaf (leafs : List SessionLeaf) (sessionId other : String) (leaf : Nat) :
    (Table.updateWhere (fun leaf => leaf.sessionId == sessionId)
        (fun old => { old with leafMessageId := leaf }) leafs).find?
      (fun leaf => leaf.sessionId == other) =
      (leafs.find? fun leaf => leaf.sessionId == other).map fun old =>
        if old.sessionId == sessionId then { old with leafMessageId := leaf } else old :=
  Table.find?_updateWhere _ fun _ _ => rfl

theorem getSessionLeaf_set (store : TreeStore β) (sessionId : String) (leaf : Nat) :
    (store.setSessionLeaf sessionId leaf).getSessionLeaf sessionId = some leaf := by
  unfold setSessionLeaf
  split
  · rename_i listed
    have present : (store.leafs.find? fun leaf => leaf.sessionId == sessionId).isSome = true := by
      simpa using listed
    obtain ⟨old, found⟩ := Option.isSome_iff_exists.mp present
    have own : old.sessionId = sessionId := by simpa using List.find?_some found
    simp only [getSessionLeaf]
    rw [find?_update_leaf, found]
    simp [own]
  · rename_i absent
    have none_before : store.leafs.find? (fun leaf => leaf.sessionId == sessionId) = none :=
      List.find?_eq_none.mpr (by simpa using absent)
    simp [getSessionLeaf, List.find?_append, none_before]

theorem getSessionLeaf_set_other {sessionId other : String} (leaf : Nat) (ne : other ≠ sessionId) :
    (store.setSessionLeaf sessionId leaf).getSessionLeaf other = store.getSessionLeaf other := by
  unfold setSessionLeaf
  split
  · simp only [getSessionLeaf]
    rw [find?_update_leaf]
    cases found : store.leafs.find? fun leaf => leaf.sessionId == other with
    | none => rfl
    | some old =>
      have own : old.sessionId = other := by simpa using List.find?_some found
      have spared : ¬old.sessionId = sessionId := fun same => ne (own.symm.trans same)
      simp [spared]
  · have foreign : (sessionId == other) = false := by simpa using ne.symm
    simp [getSessionLeaf, List.find?_append, foreign]

theorem getSessionLeaf_delete (store : TreeStore β) (messages : List (MessageRow β))
    (sessionId other : String) :
    (TreeStore.getSessionLeaf { store with
        messages, leafs := Table.deleteWhere (fun leaf => leaf.sessionId == sessionId) store.leafs }
      other) = if other = sessionId then none else store.getSessionLeaf other := by
  split
  · rename_i own
    simp only [getSessionLeaf]
    rw [List.find?_eq_none.mpr, Option.map_none]
    intro leaf member
    have gone := (Table.mem_deleteWhere.mp member).2
    simpa [own] using gone
  · rename_i foreign
    simp only [getSessionLeaf]
    rw [Table.find?_deleteWhere]
    intro leaf _ hit
    have own : leaf.sessionId = other := by simpa using hit
    simpa [own] using foreign

/-! ## Paths -/

theorem mem_walkToRoot {seen : List Nat} {current : Nat}
    (member : row ∈ walkToRoot messages seen current) : row ∈ messages := by
  fun_induction walkToRoot messages seen current with
  | case1 => cases member
  | case2 => cases member
  | case3 seen current unseen first found none_above =>
    rw [List.mem_singleton.mp member]
    exact List.mem_of_find?_eq_some found
  | case4 seen current unseen first found parent above ih =>
    rcases List.mem_cons.mp member with rfl | later
    · exact List.mem_of_find?_eq_some found
    · exact ih later

/-- Tables that agree on every id a walk can reach have the same walk. -/
theorem walkToRoot_congr {after : List (MessageRow β)} (reach : Nat → Prop)
    (agree : ∀ id, reach id → getMessageById after id = getMessageById messages id)
    (closed : ∀ row ∈ messages, ∀ parent, row.parentMessageId = some parent → reach parent)
    {seen : List Nat} {current : Nat} (start : reach current) :
    walkToRoot after seen current = walkToRoot messages seen current := by
  fun_induction walkToRoot messages seen current with
  | case1 seen current before =>
    rw [walkToRoot, if_pos before]
  | case2 seen current unseen missing =>
    rw [walkToRoot, if_neg unseen, agree current start, missing]
  | case3 seen current unseen first found none_above =>
    rw [walkToRoot, if_neg unseen, agree current start, found]
    simp [none_above]
  | case4 seen current unseen first found parent above ih =>
    rw [walkToRoot, if_neg unseen, agree current start, found]
    simp only [above]
    rw [ih (closed first (List.mem_of_find?_eq_some found) parent above)]

/-- A delete that spares the rows of a walk leaves the walk as it was. -/
theorem walkToRoot_delete {p : MessageRow β → Bool} {seen : List Nat} {current : Nat}
    (ids : (messages.map (·.id)).Nodup)
    (spared : ∀ row ∈ walkToRoot messages seen current, p row = false) :
    walkToRoot (Table.deleteWhere p messages) seen current = walkToRoot messages seen current := by
  have kept : ∀ {id : Nat} {row : MessageRow β}, getMessageById messages id = some row →
      p row = false → getMessageById (Table.deleteWhere p messages) id = some row := by
    intro id row found spare
    rw [getMessageById, Table.find?_deleteWhere, ← getMessageById, found]
    intro other member same
    have row_id : row.id = id := by simpa using List.find?_some found
    have other_id : other.id = id := by simpa using same
    have eq : other = row := Table.eq_of_key_eq ids member (List.mem_of_find?_eq_some found)
      (other_id.trans row_id.symm)
    rw [eq, spare]
  fun_induction walkToRoot messages seen current with
  | case1 seen current before =>
    rw [walkToRoot, if_pos before]
  | case2 seen current unseen missing =>
    have still : getMessageById (Table.deleteWhere p messages) current = none := by
      refine List.find?_eq_none.mpr fun row member => ?_
      exact List.find?_eq_none.mp missing row (Table.mem_deleteWhere.mp member).1
    rw [walkToRoot, if_neg unseen, still]
  | case3 seen current unseen first found none_above =>
    rw [walkToRoot, if_neg unseen, kept found (spared first List.mem_cons_self)]
    simp [none_above]
  | case4 seen current unseen first found parent above ih =>
    rw [walkToRoot, if_neg unseen, kept found (spared first List.mem_cons_self)]
    simp only [above]
    rw [ih fun row member => spared row (List.mem_cons_of_mem _ member)]

/-! ## Reachable stores -/

/-- What holds of every reachable store: ids come from the sequence, and nothing points
beyond it. -/
structure WellFormed (store : TreeStore β) : Prop where
  ids : (store.messages.map (·.id)).Nodup
  bounded : ∀ row ∈ store.messages, row.id ≤ store.sequence
  parents : ∀ row ∈ store.messages, ∀ parent, row.parentMessageId = some parent →
    parent ≤ store.sequence
  leafs : ∀ leaf ∈ store.leafs, leaf.leafMessageId ≤ store.sequence

theorem wellFormed_initial : WellFormed ({} : TreeStore β) where
  ids := List.nodup_nil
  bounded := fun _ member => absurd member List.not_mem_nil
  parents := fun _ member => absurd member List.not_mem_nil
  leafs := fun _ member => absurd member List.not_mem_nil

theorem wellFormed_set (formed : WellFormed store) (sessionId : String) {leaf : Nat}
    (bound : leaf ≤ store.sequence) : WellFormed (store.setSessionLeaf sessionId leaf) := by
  unfold setSessionLeaf
  split
  · refine ⟨formed.ids, formed.bounded, formed.parents, fun other member => ?_⟩
    rcases Table.mem_updateWhere.mp member with ⟨old, -, -, rfl⟩ | ⟨inside, -⟩
    · exact bound
    · exact formed.leafs other inside
  · refine ⟨formed.ids, formed.bounded, formed.parents, fun other member => ?_⟩
    rcases List.mem_append.mp member with inside | new
    · exact formed.leafs other inside
    · rw [List.mem_singleton.mp new]
      exact bound

theorem wellFormed_delete (formed : WellFormed store) (p : MessageRow β → Bool) :
    WellFormed { store with messages := Table.deleteWhere p store.messages } := by
  refine ⟨(List.filter_sublist.map _).nodup formed.ids, fun row member => ?_, fun row member => ?_,
    formed.leafs⟩
  · exact formed.bounded row (Table.mem_deleteWhere.mp member).1
  · exact formed.parents row (Table.mem_deleteWhere.mp member).1

/-- The rows of a batch: fresh ids in order, in the session and turn, each under the one
before it. -/
theorem chainRows_spec (sessionId : String) (turnNum first : Nat) (parent : Option Nat)
    (bodies : List β) (bound : ∀ id, parent = some id → id < first) :
    let (rows, last) := chainRows sessionId turnNum first parent bodies
    rows.map (·.id) = List.range' first bodies.length ∧
      (∀ row ∈ rows, row.sessionId = sessionId ∧ row.turnNum = turnNum ∧
        ∀ above, row.parentMessageId = some above → above < first + bodies.length) ∧
      ∀ id, last = some id → id < first + bodies.length := by
  induction bodies generalizing first parent with
  | nil => exact ⟨rfl, fun _ member => absurd member List.not_mem_nil, bound⟩
  | cons body rest ih =>
    have later := ih (first + 1) (some first) fun id same => by
      obtain rfl := Option.some.inj same
      omega
    obtain ⟨ids, rows, last⟩ := later
    have length : first + 1 + rest.length = first + (body :: rest).length := by
      simp only [List.length_cons]
      omega
    rw [length] at rows last
    refine ⟨?_, ?_, last⟩
    · simp only [List.map_cons, ids, List.length_cons, List.range'_succ]
    · intro row member
      rcases List.mem_cons.mp member with rfl | inside
      · refine ⟨rfl, rfl, fun above same => ?_⟩
        have below := bound above same
        omega
      · exact rows row inside

theorem leaf_bound (formed : WellFormed store) {sessionId : String} {leaf : Nat}
    (found : store.getSessionLeaf sessionId = some leaf) : leaf ≤ store.sequence := by
  obtain ⟨entry, at_session, rfl⟩ := Option.map_eq_some_iff.mp found
  exact formed.leafs entry (List.mem_of_find?_eq_some at_session)

@[simp] theorem messages_set (store : TreeStore β) (sessionId : String) (leaf : Nat) :
    (store.setSessionLeaf sessionId leaf).messages = store.messages := by
  unfold setSessionLeaf
  split <;> rfl

/-- What a batch does: new rows of the session's next turn, under fresh ids. -/
theorem addMessages_spec (formed : WellFormed store) (sessionId : String) (bodies : List β) :
    WellFormed (store.addMessages sessionId bodies) ∧
      (∃ rows, (store.addMessages sessionId bodies).messages = store.messages ++ rows ∧
        ∀ row ∈ rows, row.sessionId = sessionId ∧
          row.turnNum = store.maxTurnNum sessionId + 1 ∧ store.sequence < row.id) ∧
      ∀ other, other ≠ sessionId →
        (store.addMessages sessionId bodies).getSessionLeaf other = store.getSessionLeaf other := by
  have chained := chainRows_spec sessionId (store.maxTurnNum sessionId + 1) (store.sequence + 1)
    (store.getSessionLeaf sessionId) bodies
    fun id found => Nat.lt_succ_of_le (leaf_bound formed found)
  rcases chain : chainRows sessionId (store.maxTurnNum sessionId + 1) (store.sequence + 1)
    (store.getSessionLeaf sessionId) bodies with ⟨rows, last⟩
  rw [chain] at chained
  obtain ⟨ids, each, bound⟩ := chained
  have fresh : ∀ row ∈ rows, store.sequence < row.id ∧
      row.id ≤ store.sequence + bodies.length := by
    intro row member
    have inside : row.id ∈ rows.map (·.id) := List.mem_map_of_mem member
    rw [ids, List.mem_range'_1] at inside
    omega
  have stored : WellFormed { store with
      messages := store.messages ++ rows, sequence := store.sequence + bodies.length } := by
    refine ⟨?_, fun row member => ?_, fun row member above parent => ?_, fun leaf member => ?_⟩
    · rw [List.map_append, List.nodup_append]
      refine ⟨formed.ids, ids ▸ List.nodup_range', ?_⟩
      intro id old id' new same
      obtain ⟨row, inside, rfl⟩ := List.mem_map.mp old
      obtain ⟨row', inside', rfl⟩ := List.mem_map.mp new
      have below := formed.bounded row inside
      have beyond := (fresh row' inside').1
      omega
    · rcases List.mem_append.mp member with old | new
      · exact Nat.le_trans (formed.bounded row old) (Nat.le_add_right _ _)
      · exact (fresh row new).2
    · rcases List.mem_append.mp member with old | new
      · exact Nat.le_trans (formed.parents row old above parent) (Nat.le_add_right _ _)
      · have below := (each row new).2.2 above parent
        simp only
        omega
    · exact Nat.le_trans (formed.leafs leaf member) (Nat.le_add_right _ _)
  have added : ∀ row ∈ rows, row.sessionId = sessionId ∧
      row.turnNum = store.maxTurnNum sessionId + 1 ∧ store.sequence < row.id := fun row member =>
    ⟨(each row member).1, (each row member).2.1, (fresh row member).1⟩
  simp only [addMessages, chain]
  cases last with
  | none => exact ⟨stored, ⟨rows, rfl, added⟩, fun _ _ => rfl⟩
  | some leaf =>
    have below := bound leaf rfl
    refine ⟨wellFormed_set stored sessionId ?_, ⟨rows, ?_, added⟩, fun other ne => ?_⟩
    · simp only
      omega
    · simp
    · exact getSessionLeaf_set_other leaf ne

/-- Where a delete from a turn leaves the leaf: the newest row the session has left. -/
theorem deleteMessagesFromTurn_leaf (store : TreeStore β) (sessionId : String) (fromTurnNum : Nat) :
    (store.deleteMessagesFromTurn sessionId fromTurnNum).getSessionLeaf sessionId =
      (newestBefore (Table.deleteWhere
        (fun row => row.sessionId == sessionId && decide (fromTurnNum ≤ row.turnNum))
        store.messages) sessionId fromTurnNum).map (·.id) := by
  unfold deleteMessagesFromTurn
  cases newest : newestBefore (Table.deleteWhere
      (fun row => row.sessionId == sessionId && decide (fromTurnNum ≤ row.turnNum))
      store.messages) sessionId fromTurnNum with
  | some previous => simp only [newest, getSessionLeaf_set, Option.map_some]
  | none =>
    simp only [newest, Option.map_none]
    rw [getSessionLeaf_delete, if_pos rfl]

@[simp] theorem deleteMessagesFromTurn_messages (store : TreeStore β) (sessionId : String)
    (fromTurnNum : Nat) :
    (store.deleteMessagesFromTurn sessionId fromTurnNum).messages = Table.deleteWhere
      (fun row => row.sessionId == sessionId && decide (fromTurnNum ≤ row.turnNum))
      store.messages := by
  unfold deleteMessagesFromTurn
  dsimp only
  split <;> simp

theorem deleteMessagesFromTurn_other {sessionId other : String} (fromTurnNum : Nat)
    (ne : other ≠ sessionId) :
    (store.deleteMessagesFromTurn sessionId fromTurnNum).getSessionLeaf other =
      store.getSessionLeaf other := by
  unfold deleteMessagesFromTurn
  dsimp only
  split
  · exact getSessionLeaf_set_other _ ne
  · rw [getSessionLeaf_delete, if_neg ne]

/-- The row a delete re-points to is a row of the table. -/
theorem mem_of_newestBefore {sessionId : String} {turnNum : Nat}
    (newest : newestBefore messages sessionId turnNum = some row) : row ∈ messages :=
  (Table.mem_of_mem_selectWhere (List.mem_of_mem_head? newest)).1

theorem wellFormed_apply (formed : WellFormed store) {op : TreeOp β} (valid : op.Valid store) :
    WellFormed (op.apply store) := by
  cases op with
  | fork target newSessionId =>
    obtain ⟨row, member, rfl⟩ := valid
    exact wellFormed_set formed newSessionId (formed.bounded row member)
  | add sessionId bodies => exact (addMessages_spec formed sessionId bodies).1
  | deleteFromTurn sessionId fromTurnNum =>
    have kept := wellFormed_delete formed
      (fun row => row.sessionId == sessionId && decide (fromTurnNum ≤ row.turnNum))
    simp only [TreeOp.apply, deleteMessagesFromTurn]
    split
    · rename_i previous newest
      exact wellFormed_set kept sessionId (kept.bounded previous (mem_of_newestBefore newest))
    · exact ⟨kept.ids, kept.bounded, kept.parents, fun leaf member =>
        kept.leafs leaf (Table.mem_deleteWhere.mp member).1⟩
  | deleteSession sessionId => exact wellFormed_delete formed _

/-- The stores any sequence of valid operations reaches. -/
inductive Reached : TreeStore β → Prop where
  | initial : Reached {}
  | step {store : TreeStore β} (op : TreeOp β) (before : Reached store) (valid : op.Valid store) :
    Reached (op.apply store)

theorem Reached.wellFormed (reached : Reached store) : WellFormed store := by
  induction reached with
  | initial => exact wellFormed_initial
  | step op _ valid ih => exact wellFormed_apply ih valid

/-! ## Isolation -/

/-- The operation deletes no row on another session's path. -/
def Spares (store : TreeStore β) (op : TreeOp β) : Prop :=
  ∀ other, other ≠ op.session → ∀ row ∈ sessionPath store other, op.deletes row = false

theorem mem_sessionPath {sessionId : String} (member : row ∈ sessionPath store sessionId) :
    row ∈ store.messages := by
  unfold sessionPath at member
  split at member
  · cases member
  · exact mem_walkToRoot (List.mem_reverse.mp member)

/-- The leaf of another session is never written. -/
theorem apply_other_leaf (formed : WellFormed store) (op : TreeOp β) {other : String}
    (ne : other ≠ op.session) : (op.apply store).getSessionLeaf other = store.getSessionLeaf other := by
  cases op with
  | fork target newSessionId => exact getSessionLeaf_set_other target ne
  | add sessionId bodies => exact (addMessages_spec formed sessionId bodies).2.2 other ne
  | deleteFromTurn sessionId fromTurnNum => exact deleteMessagesFromTurn_other fromTurnNum ne
  | deleteSession sessionId => rfl

/-- New rows are beyond every id a walk over the old ones can reach. -/
theorem walkToRoot_append (formed : WellFormed store) {rows : List (MessageRow β)}
    (fresh : ∀ row ∈ rows, store.sequence < row.id) {leaf : Nat} (bound : leaf ≤ store.sequence) :
    walkToRoot (store.messages ++ rows) [] leaf = walkToRoot store.messages [] leaf := by
  refine walkToRoot_congr (· ≤ store.sequence) ?_ formed.parents bound
  intro id below
  have none_new : rows.find? (fun row => row.id == id) = none := by
    refine List.find?_eq_none.mpr fun row member => ?_
    have beyond := fresh row member
    simp only [beq_iff_eq]
    omega
  rw [getMessageById, List.find?_append, none_new, Option.or_none, getMessageById]

/-- What an operation does to the rows: it adds fresh ones or deletes. -/
theorem apply_messages (formed : WellFormed store) (op : TreeOp β) :
    (∃ rows, (op.apply store).messages = store.messages ++ rows ∧
      ∀ row ∈ rows, store.sequence < row.id) ∧ (∀ row, op.deletes row = false) ∨
    (op.apply store).messages = Table.deleteWhere op.deletes store.messages := by
  cases op with
  | fork target newSessionId =>
    refine .inl ⟨⟨[], ?_, fun _ member => absurd member List.not_mem_nil⟩, fun _ => rfl⟩
    simp [TreeOp.apply, forkFromMessage]
  | add sessionId bodies =>
    obtain ⟨rows, added, each⟩ := (addMessages_spec formed sessionId bodies).2.1
    exact .inl ⟨⟨rows, added, fun row member => (each row member).2.2⟩, fun _ => rfl⟩
  | deleteFromTurn sessionId fromTurnNum => exact .inr (deleteMessagesFromTurn_messages _ _ _)
  | deleteSession sessionId => exact .inr rfl

/-- An operation leaves the other sessions' paths alone exactly when it spares their rows. -/
theorem isolated_iff (formed : WellFormed store) (op : TreeOp β) :
    (∀ other, other ≠ op.session → sessionPath (op.apply store) other = sessionPath store other) ↔
      Spares store op := by
  constructor
  · intro isolated other ne row member
    have kept : row ∈ (op.apply store).messages := mem_sessionPath ((isolated other ne).symm ▸ member)
    rcases apply_messages formed op with ⟨-, nothing⟩ | deleted
    · exact nothing row
    · rw [deleted] at kept
      exact (Table.mem_deleteWhere.mp kept).2
  · intro spares other ne
    have row_spared := spares other ne
    simp only [sessionPath] at row_spared ⊢
    rw [apply_other_leaf formed op ne]
    cases found : store.getSessionLeaf other with
    | none => rfl
    | some leaf =>
      rw [found] at row_spared
      simp only [getMessagePathToRoot, List.mem_reverse] at row_spared ⊢
      congr 1
      rcases apply_messages formed op with ⟨⟨rows, added, fresh⟩, -⟩ | deleted
      · rw [added]
        exact walkToRoot_append formed fresh (leaf_bound formed found)
      · rw [deleted]
        exact walkToRoot_delete formed.ids row_spared

/-! ## Undo -/

/-- Batches added one after the other. -/
def addAll (store : TreeStore β) (sessionId : String) (batches : List (List β)) : TreeStore β :=
  batches.foldl (fun store bodies => store.addMessages sessionId bodies) store

theorem foldl_max_le {turns : List Nat} {start bound : Nat} :
    turns.foldl max start ≤ bound ↔ start ≤ bound ∧ ∀ turn ∈ turns, turn ≤ bound := by
  induction turns generalizing start with
  | nil => simp
  | cons turn rest ih =>
    rw [List.foldl_cons, ih, Nat.max_le]
    simp [and_assoc]

theorem turnNum_le (store : TreeStore β) {sessionId : String} (member : row ∈ store.messages)
    (own : row.sessionId = sessionId) : row.turnNum ≤ store.maxTurnNum sessionId := by
  refine (foldl_max_le.mp (Nat.le_refl _)).2 row.turnNum ?_
  exact List.mem_map_of_mem (List.mem_filter.mpr ⟨member, by simpa using own⟩)

theorem maxTurnNum_mono {after : TreeStore β} {rows : List (MessageRow β)} (sessionId : String)
    (added : after.messages = store.messages ++ rows) :
    store.maxTurnNum sessionId ≤ after.maxTurnNum sessionId := by
  refine foldl_max_le.mpr ⟨Nat.zero_le _, fun turn member => ?_⟩
  obtain ⟨row, inside, rfl⟩ := List.mem_map.mp member
  obtain ⟨old, own⟩ := List.mem_filter.mp inside
  exact turnNum_le after (added ▸ List.mem_append_left _ old) (by simpa using own)

/-- Added batches are rows of the session's later turns. -/
theorem addAll_messages (formed : WellFormed store) (sessionId : String) (batches : List (List β)) :
    ∃ rows, (addAll store sessionId batches).messages = store.messages ++ rows ∧
      ∀ row ∈ rows, row.sessionId = sessionId ∧ store.maxTurnNum sessionId < row.turnNum := by
  induction batches generalizing store with
  | nil => exact ⟨[], (List.append_nil _).symm, fun _ member => absurd member List.not_mem_nil⟩
  | cons bodies rest ih =>
    obtain ⟨formed', ⟨rows, added, each⟩, -⟩ := addMessages_spec formed sessionId bodies
    obtain ⟨more, later, rest_each⟩ := ih formed'
    refine ⟨rows ++ more, ?_, fun row member => ?_⟩
    · rw [addAll, List.foldl_cons, ← addAll, later, added, List.append_assoc]
    · rcases List.mem_append.mp member with first | last
      · exact ⟨(each row first).1, by rw [(each row first).2.1]; omega⟩
      · exact ⟨(rest_each row last).1,
          Nat.lt_of_le_of_lt (maxTurnNum_mono sessionId added) (rest_each row last).2⟩

/-- The newest row of a session. -/
def newestOwn (store : TreeStore β) (sessionId : String) : Option (MessageRow β) :=
  newestBefore store.messages sessionId (store.maxTurnNum sessionId + 1)

/-- Deleting the added turns leaves the rows there were before. -/
theorem undo_messages (formed : WellFormed store) (sessionId : String) (batches : List (List β)) :
    Table.deleteWhere
      (fun row => row.sessionId == sessionId &&
        decide (store.maxTurnNum sessionId + 1 ≤ row.turnNum))
      (addAll store sessionId batches).messages = store.messages := by
  obtain ⟨rows, added, each⟩ := addAll_messages formed sessionId batches
  have old_kept : store.messages.filter (fun row => !(row.sessionId == sessionId &&
      decide (store.maxTurnNum sessionId + 1 ≤ row.turnNum))) = store.messages := by
    refine List.filter_eq_self.mpr fun row member => ?_
    by_cases own : row.sessionId = sessionId
    · have below := turnNum_le store member own
      simp only [own, BEq.rfl, Bool.true_and, Bool.not_eq_true', decide_eq_false_iff_not]
      omega
    · simp [own]
  have new_gone : rows.filter (fun row => !(row.sessionId == sessionId &&
      decide (store.maxTurnNum sessionId + 1 ≤ row.turnNum))) = [] := by
    refine List.filter_eq_nil_iff.mpr fun row member => ?_
    have ⟨own, beyond⟩ := each row member
    simp [own, Nat.succ_le_of_lt beyond]
  rw [added, Table.deleteWhere, List.filter_append, old_kept, new_gone, List.append_nil]

/-- Undoing the added turns restores leaf and path exactly when the leaf was the session's
own newest row. -/
theorem undone_iff (formed : WellFormed store) (sessionId : String) (batches : List (List β)) :
    (((addAll store sessionId batches).deleteMessagesFromTurn sessionId
          (store.maxTurnNum sessionId + 1)).getSessionLeaf sessionId =
        store.getSessionLeaf sessionId ∧
      sessionPath ((addAll store sessionId batches).deleteMessagesFromTurn sessionId
          (store.maxTurnNum sessionId + 1)) sessionId = sessionPath store sessionId) ↔
      store.getSessionLeaf sessionId = (newestOwn store sessionId).map (·.id) := by
  have restored := undo_messages formed sessionId batches
  have leaf := deleteMessagesFromTurn_leaf (addAll store sessionId batches) sessionId
    (store.maxTurnNum sessionId + 1)
  rw [restored] at leaf
  constructor
  · intro ⟨same, _⟩
    rw [← same, leaf]
    rfl
  · intro own
    have same := leaf.trans own.symm
    refine ⟨same, ?_⟩
    simp only [sessionPath, same, getMessagePathToRoot, deleteMessagesFromTurn_messages, restored]

/-- In every store that forks, batches and deletes reach: an operation leaves every other
session's path alone exactly when it deletes no row on one, and deleting the turns added to
a session restores its leaf and path exactly when its leaf was its own newest row. -/
theorem tree_isolation_and_undo (reached : Reached store) :
    (∀ op : TreeOp β, op.Valid store →
      ((∀ other, other ≠ op.session →
        sessionPath (op.apply store) other = sessionPath store other) ↔ Spares store op)) ∧
    ∀ sessionId (batches : List (List β)),
      (((addAll store sessionId batches).deleteMessagesFromTurn sessionId
            (store.maxTurnNum sessionId + 1)).getSessionLeaf sessionId =
          store.getSessionLeaf sessionId ∧
        sessionPath ((addAll store sessionId batches).deleteMessagesFromTurn sessionId
            (store.maxTurnNum sessionId + 1)) sessionId = sessionPath store sessionId) ↔
        store.getSessionLeaf sessionId = (newestOwn store sessionId).map (·.id) :=
  ⟨fun op _ => isolated_iff reached.wellFormed op, undone_iff reached.wellFormed⟩

/-! ## Around a fork -/

/-- A source session with two turns and a fork at its first message. -/
def forked : TreeStore String :=
  [.add "source" ["question", "answer"], .add "source" ["more"], .fork 1 "branch"].foldl
    (fun store op => TreeOp.apply store op) {}

theorem forked_reached : Reached forked :=
  .step (.fork 1 "branch")
    (.step (.add "source" ["more"]) (.step (.add "source" ["question", "answer"]) .initial trivial)
      trivial)
    ⟨⟨1, "source", 1, none, "question"⟩, by decide +kernel, rfl⟩

/-- Deleting the source's messages empties the branch's path, and undoing the branch's first
turn clears the leaf the fork had set. -/
theorem deleting_a_source_empties_its_fork : Reached forked ∧
    (sessionPath forked "branch").map (·.body) = ["question"] ∧
    sessionPath ((TreeOp.deleteSession "source").apply forked) "branch" = [] ∧
    forked.getSessionLeaf "branch" = some 1 ∧
    ((addAll forked "branch" [["other"]]).deleteMessagesFromTurn "branch"
      (forked.maxTurnNum "branch" + 1)).getSessionLeaf "branch" = none :=
  ⟨forked_reached, by decide +kernel, by decide +kernel, by decide +kernel, by decide +kernel⟩

/-- In the same store a batch on the source is isolated and undone. -/
theorem forked_source_undone :
    sessionPath ((TreeOp.add "source" ["next"]).apply forked) "branch" =
        sessionPath forked "branch" ∧
      sessionPath ((addAll forked "source" [["next"], ["last"]]).deleteMessagesFromTurn "source"
        (forked.maxTurnNum "source" + 1)) "source" = sessionPath forked "source" :=
  ⟨((tree_isolation_and_undo forked_reached).1 (.add "source" ["next"]) trivial).mpr
      (fun _ _ _ _ => rfl) "branch" (by decide),
    (((tree_isolation_and_undo forked_reached).2 "source" [["next"], ["last"]]).mpr
      (by decide +kernel)).2⟩

end SherryAgent.Guarantees.MessageTree
