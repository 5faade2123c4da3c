import SherryAgent.Source.ContextEngine.UserTurns

/-!
# The order of the rows

Rows are inserted in the order of their turns and ids, so the number of a user row among
the user rows is its place in the table; a batch has the turn after the last one.
-/

namespace SherryAgent.Contracts.ContextEngine

open SherryAgent.Library SherryAgent.Source.Agent SherryAgent.Source.ContextEngine
  SherryAgent.Source.Persistence SherryAgent.Source.Transcript

variable {rows first rest : List TurnRow} {row : TurnRow} {sequence turnNum : Nat}
  {batch : List Message}

/-- The message is stored in a row that counts as a user's. -/
def isUserMessage (message : Message) : Bool :=
  isPersistable message &&
    (buildRow message).any fun (role, origin) =>
      role == "human" && (origin == none || origin == some "user")

structure Ordered (sequence : Nat) (rows : List TurnRow) : Prop where
  ascending : rows.Pairwise fun a b => a.turnNum ≤ b.turnNum ∧ a.id < b.id
  bounded : ∀ row ∈ rows, row.id ≤ sequence

theorem ordered_nil (sequence : Nat) : Ordered sequence [] := ⟨.nil, nofun⟩

theorem foldl_max_le (nums : List Nat) (start : Nat) :
    start ≤ nums.foldl max start ∧ ∀ num ∈ nums, num ≤ nums.foldl max start := by
  induction nums generalizing start with
  | nil => exact ⟨le_rfl, nofun⟩
  | cons num nums ih =>
    obtain ⟨bound, each⟩ := ih (max start num)
    rw [List.foldl_cons]
    refine ⟨by omega, fun other member => ?_⟩
    rcases List.mem_cons.mp member with rfl | later
    · omega
    · exact each other later

theorem turnNum_le_maxTurn (member : row ∈ rows) : row.turnNum ≤ maxTurn rows :=
  (foldl_max_le _ 0).2 _ (List.mem_map_of_mem member)

/-! ## Batches -/

theorem mem_batchRows (member : row ∈ batchRows turnNum sequence batch) :
    row.turnNum = turnNum ∧ sequence < row.id ∧ row.id ≤ sequence + batch.length := by
  induction batch generalizing sequence with
  | nil => cases member
  | cons message batch ih =>
    rw [batchRows] at member
    rw [List.length_cons]
    split at member
    · rcases List.mem_cons.mp member with rfl | later
      · exact ⟨rfl, Nat.lt_succ_self _, by dsimp only; omega⟩
      · obtain ⟨same, above, below⟩ := ih later
        exact ⟨same, by omega, by omega⟩
    · obtain ⟨same, above, below⟩ := ih member
      exact ⟨same, above, by omega⟩

theorem batchRows_ascending :
    (batchRows turnNum sequence batch).Pairwise fun a b => a.turnNum ≤ b.turnNum ∧ a.id < b.id := by
  induction batch generalizing sequence with
  | nil => exact .nil
  | cons message batch ih =>
    rw [batchRows]
    split
    · refine List.pairwise_cons.mpr ⟨fun row member => ?_, ih⟩
      obtain ⟨same, above, -⟩ := mem_batchRows member
      exact ⟨same.ge, above⟩
    · exact ih

/-- The user rows of a batch are those of its user messages. -/
theorem userRows_batchRows (persistable : ∀ message ∈ batch, isPersistable message = true) :
    ((batchRows turnNum sequence batch).filter isUserRow).map (·.message) =
      (batch.filter isUserMessage).map messageId := by
  induction batch generalizing sequence with
  | nil => rfl
  | cons message batch ih =>
    have tail : ∀ other ∈ batch, isPersistable other = true := fun other member =>
      persistable other (List.mem_cons_of_mem _ member)
    have later := @ih (sequence + 1) tail
    have same := @ih sequence tail
    have here := persistable message List.mem_cons_self
    rw [batchRows, List.filter_cons, isUserMessage, here, Bool.true_and]
    cases built : buildRow message with
    | none => exact same
    | some columns =>
      obtain ⟨role, origin⟩ := columns
      rw [Option.any_some, List.filter_cons, isUserRow]
      dsimp only
      split
      · rw [List.map_cons, List.map_cons, later]
      · exact later

/-- Rows of later turns, with later ids, are put behind all rows. -/
theorem Ordered.append {added : List TurnRow} {last : Nat} (ordered : Ordered sequence rows)
    (ascending : added.Pairwise fun a b => a.turnNum ≤ b.turnNum ∧ a.id < b.id)
    (later : ∀ row ∈ added, maxTurn rows < row.turnNum ∧ sequence < row.id ∧ row.id ≤ last)
    (above : sequence ≤ last) : Ordered last (rows ++ added) where
  ascending := by
    refine List.pairwise_append.mpr ⟨ordered.ascending, ascending, fun a old b new => ?_⟩
    obtain ⟨turn, id, -⟩ := later b new
    have known := turnNum_le_maxTurn old
    have bound := ordered.bounded a old
    omega
  bounded row member := by
    rcases List.mem_append.mp member with old | new
    · exact (ordered.bounded row old).trans above
    · exact (later row new).2.2

theorem Ordered.append_batch (ordered : Ordered sequence rows) (batch : List Message) :
    Ordered (sequence + batch.length)
      (rows ++ batchRows (maxTurn rows + 1) sequence batch) := by
  refine ordered.append batchRows_ascending (fun row member => ?_) (Nat.le_add_right _ _)
  obtain ⟨turn, above, below⟩ := mem_batchRows member
  exact ⟨by omega, above, below⟩

theorem Ordered.filter (ordered : Ordered sequence rows) (p : TurnRow → Bool) :
    Ordered sequence (rows.filter p) :=
  ⟨ordered.ascending.filter p, fun row member =>
    ordered.bounded row (List.mem_of_mem_filter member)⟩

/-! ## Places -/

theorem Ordered.around (ordered : Ordered sequence (first ++ row :: rest)) :
    (∀ other ∈ first, other.turnNum ≤ row.turnNum ∧ other.id < row.id) ∧
      ∀ other ∈ rest, row.turnNum ≤ other.turnNum ∧ row.id < other.id := by
  obtain ⟨-, later, across⟩ := List.pairwise_append.mp ordered.ascending
  exact ⟨fun other member => across other member row List.mem_cons_self,
    (List.pairwise_cons.mp later).1⟩

/-- The number of a user row is its place among the user rows. -/
theorem userOrdinal_eq (ordered : Ordered sequence (first ++ row :: rest))
    (user : isUserRow row = true) :
    userOrdinal (first ++ row :: rest) row = (first.filter isUserRow).length + 1 := by
  obtain ⟨before, after⟩ := ordered.around
  unfold userOrdinal
  generalize upto : (fun other : TurnRow => isUserRow other &&
    (decide (other.turnNum < row.turnNum) ||
      (other.turnNum == row.turnNum && decide (other.id ≤ row.id)))) = counts
  have counted : ∀ other ∈ first, counts other = isUserRow other := by
    intro other member
    obtain ⟨turn, id⟩ := before other member
    subst upto
    dsimp only
    rw [Bool.and_eq_left_iff_imp]
    intro _
    simp only [Bool.or_eq_true, decide_eq_true_eq, Bool.and_eq_true, beq_iff_eq]
    omega
  have uncounted : ∀ other ∈ rest, ¬counts other = true := by
    intro other member
    obtain ⟨turn, id⟩ := after other member
    subst upto
    simp only [Bool.or_eq_true, decide_eq_true_eq, Bool.and_eq_true, beq_iff_eq]
    omega
  have here : counts row = true := by
    subst upto
    simp [user]
  rw [List.countP_append, List.countP_cons_of_pos here, List.countP_eq_zero.mpr uncounted,
    Nat.zero_add, List.countP_eq_length_filter, List.filter_congr counted]

/-- The rows before the turn of a user row that is the first of its turn. -/
theorem userRows_deleteFromTurn (ordered : Ordered sequence (first ++ row :: rest))
    (leads : ∀ other ∈ first, isUserRow other = true → other.turnNum ≠ row.turnNum) :
    (deleteFromTurn (first ++ row :: rest) row.turnNum).filter isUserRow =
      first.filter isUserRow := by
  obtain ⟨before, after⟩ := ordered.around
  rw [deleteFromTurn, Table.deleteWhere, List.filter_filter, List.filter_append, List.filter_cons]
  have dropped : (rest.filter fun other => isUserRow other &&
      !decide (row.turnNum ≤ other.turnNum)) = [] := by
    refine List.filter_eq_nil_iff.mpr fun other member => ?_
    simp [(after other member).1]
  rw [dropped]
  simp only [le_refl, decide_true, Bool.not_true, Bool.and_false, Bool.false_eq_true, if_false,
    List.append_nil]
  refine List.filter_congr fun other member => ?_
  cases user : isUserRow other with
  | false => rfl
  | true =>
    have earlier := (before other member).1
    have apart := leads other member user
    simp
    omega

theorem mem_of_cutRow {rowId : Option Nat} (chosen : cutRow rows turnNum rowId = some row) :
    row ∈ rows := by
  unfold cutRow at chosen
  dsimp only at chosen
  split at chosen
  · rename_i clicked found
    cases chosen
    obtain ⟨candidate, -⟩ := Option.filter_eq_some_iff.mp found
    obtain ⟨id, -, here⟩ := Option.bind_eq_some_iff.mp candidate
    exact List.mem_of_find?_eq_some here
  · exact (Table.mem_of_mem_selectWhere (List.mem_of_mem_head? chosen)).1

/-- A user row is chosen by its id. -/
theorem cutRow_of_id (ordered : Ordered sequence rows) (member : row ∈ rows)
    (user : isUserRow row = true) : cutRow rows turnNum (some row.id) = some row := by
  obtain ⟨first, rest, rfl⟩ := List.append_of_mem member
  obtain ⟨before, -⟩ := ordered.around
  have missed : first.find? (·.id == row.id) = none := List.find?_eq_none.mpr fun other inside => by
    simpa using (before other inside).2.ne
  have found : (first ++ row :: rest).find? (·.id == row.id) = some row := by
    rw [List.find?_append, missed, Option.none_or, List.find?_cons, beq_self_eq_true]
  rw [isUserRow, Bool.and_eq_true] at user
  unfold cutRow
  dsimp only
  rw [Option.bind_some, found, Option.filter, if_pos user.2]

end SherryAgent.Contracts.ContextEngine
