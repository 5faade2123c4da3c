import Mathlib.Data.List.Induction
import Mathlib.Data.List.Nodup
import SherryAgent.Source.TodoList.Store

/-!
# Todo ids

A new todo is numbered one above the highest id its session still stores, so an id
comes back exactly when the todo that bore the highest one is gone.

* `ids_never_reused_iff` — over any operations, no id is assigned twice exactly when
  every insert finds its session's highest id so far still stored;
* `removed_id_is_reused` — removing the newest todo and adding another reuses its id.
-/

namespace SherryAgent.Guarantees.TodoIds

open SherryAgent.Library SherryAgent.Source.TodoList

variable {todos : List Todo} {sessionId : String}

/-- A todo's name: its session and its id there. -/
def name (row : Todo) : String × Nat := (row.sessionId, row.todoId)

/-- The table, and every name given to an inserted todo so far, in order. -/
structure History where
  todos : List Todo := []
  assigned : List (String × Nat) := []

namespace History

def step (history : History) (op : TodoOp) : History where
  todos := (op.commit history.todos).2
  assigned := history.assigned ++ (op.commit history.todos).1.map name

/-- The history of a sequence of operations on an empty table. -/
def after (ops : List TodoOp) : History := ops.foldl step {}

theorem after_concat (ops : List TodoOp) (op : TodoOp) :
    after (ops ++ [op]) = (after ops).step op := by
  simp [after]

end History

/-- No id assigned in the session is above all the ids it stores. -/
def HighestStored (history : History) (sessionId : String) : Prop :=
  ∀ id, (sessionId, id) ∈ history.assigned →
    ∃ row ∈ history.todos, row.sessionId = sessionId ∧ id ≤ row.todoId

/-! ## What a transaction writes -/

theorem bind_ok {α β : Type} {first : Except StoreError α} {next : α → Except StoreError β}
    {value : β} (done : (first >>= next) = .ok value) :
    ∃ middle, first = .ok middle ∧ next middle = .ok value := by
  cases first with
  | error error => cases done
  | ok middle => exact ⟨middle, rfl, done⟩

theorem le_maxTodoId {row : Todo} (member : row ∈ todos) (own : row.sessionId = sessionId) :
    row.todoId ≤ maxTodoId todos sessionId := by
  unfold maxTodoId
  apply List.le_max?_getD_of_mem
  apply List.mem_map_of_mem
  simp [ofSession, member, own]

/-- The highest id is 0 or stored. -/
theorem maxTodoId_stored (positive : 0 < maxTodoId todos sessionId) :
    ∃ row ∈ todos, row.sessionId = sessionId ∧ row.todoId = maxTodoId todos sessionId := by
  unfold maxTodoId at positive ⊢
  cases found : ((todos.filter (ofSession sessionId)).map (·.todoId)).max? with
  | none => simp [found] at positive
  | some top =>
    have member := List.max?_mem found
    obtain ⟨row, kept, same⟩ := List.mem_map.mp member
    have stored := List.mem_filter.mp kept
    refine ⟨row, stored.1, ?_, by simpa using same⟩
    simpa [ofSession] using stored.2

/-- The ids depend on the names alone. -/
theorem nextTodoId_congr {other : List Todo} (same : other.map name = todos.map name) :
    nextTodoId other sessionId = nextTodoId todos sessionId := by
  have ids : ∀ rows : List Todo, (rows.filter (ofSession sessionId)).map (·.todoId) =
      ((rows.map name).filter fun key => key.1 == sessionId).map (·.2) := by
    intro rows
    simp only [List.filter_map, List.map_map]
    rfl
  unfold nextTodoId maxTodoId
  rw [ids other, ids todos, same]

theorem insertRow_ok {row : Todo} {table : List Todo} (done : insertRow todos row = .ok table) :
    table = todos ++ [row] := by
  unfold insertRow at done
  split at done
  · cases done
  · exact (Except.ok.inj done).symm

theorem insertRows_ok {rows table : List Todo} (done : rows.foldlM insertRow todos = .ok table) :
    table = todos ++ rows := by
  induction rows generalizing todos with
  | nil =>
    have same : todos = table := Except.ok.inj done
    simp [same]
  | cons first rest ih =>
    rw [List.foldlM_cons] at done
    obtain ⟨next, inserted, done⟩ := bind_ok done
    rw [ih done, insertRow_ok inserted]
    simp

theorem normalizeRows_session {input : List TodoInput} {index : Nat} {rows : List TodoRow}
    (done : normalizeRows sessionId index input = .ok rows) :
    ∀ row ∈ rows, row.sessionId = sessionId := by
  induction input generalizing index rows with
  | nil =>
    have empty : [] = rows := Except.ok.inj done
    simp [← empty]
  | cons todo rest ih =>
    simp only [normalizeRows] at done
    split at done
    · cases done
    · obtain ⟨later, normal, done⟩ := bind_ok done
      have listed := Except.ok.inj done
      rw [← listed]
      intro row member
      rcases List.mem_cons.mp member with rfl | member
      · rfl
      · exact ih normal row member

theorem names_withTodoIds {rows : List TodoRow} (own : ∀ row ∈ rows, row.sessionId = sessionId)
    (start : Nat) :
    (withTodoIds start rows).map name =
      (List.range' start rows.length).map fun id => (sessionId, id) := by
  induction rows generalizing start with
  | nil => rfl
  | cons first rest ih =>
    have later := ih (fun row member => own row (List.mem_cons_of_mem _ member)) (start + 1)
    have here := own first List.mem_cons_self
    have shifted : withTodoIds start (first :: rest) =
        { toTodoRow := first, todoId := start } :: withTodoIds (start + 1) rest := by
      simp [withTodoIds, List.mapIdx_cons, Nat.add_comm, Nat.add_left_comm]
    rw [shifted, List.map_cons, later, List.length_cons, List.range'_succ, List.map_cons]
    simp [name, here]

/-- The inserted todos are numbered on from the session's highest stored id, and every
todo of the table was there or is an inserted one. -/
structure Effect (todos : List Todo) (sessionId : String) (written : List Todo × List Todo) :
    Prop where
  numbered : written.1.map name =
    (List.range' (nextTodoId todos sessionId) written.1.length).map fun id => (sessionId, id)
  names : ∀ row ∈ written.2, name row ∈ todos.map name ++ written.1.map name

/-- A transaction that inserts nothing and names nothing anew. -/
theorem Effect.quiet {table : List Todo} (names : ∀ row ∈ table, name row ∈ todos.map name) :
    Effect todos sessionId ([], table) := by
  constructor
  · rfl
  · simpa using names

theorem Effect.updated (p : Todo → Bool) (f : Todo → Todo) (same : ∀ row, name (f row) = name row) :
    Effect todos sessionId ([], Table.updateWhere p f todos) := by
  apply Effect.quiet
  intro row member
  rw [← Table.map_updateWhere name (fun row _ => same row)]
  exact List.mem_map_of_mem member

theorem Effect.deleted (p : Todo → Bool) :
    Effect todos sessionId ([], Table.deleteWhere p todos) := by
  apply Effect.quiet
  intro row member
  exact List.mem_map_of_mem (Table.mem_deleteWhere.mp member).1

theorem replaceAll_effect {input : List TodoInput} {written : List Todo × List Todo}
    (done : replaceAll todos sessionId input = .ok written) :
    Effect todos (SherryAgent.Source.PyText.strip sessionId) written := by
  simp only [replaceAll] at done
  split at done
  · cases done
  · obtain ⟨rows, normal, done⟩ := bind_ok done
    obtain ⟨table, inserted, done⟩ := bind_ok done
    have result := Except.ok.inj done
    have own := normalizeRows_session normal
    rw [← result]
    constructor
    · rw [names_withTodoIds own]
      simp [withTodoIds]
    · intro row member
      rw [insertRows_ok inserted] at member
      rcases List.mem_append.mp member with kept | new
      · have before := (Table.mem_deleteWhere.mp kept).1
        exact List.mem_append_left _ (List.mem_map_of_mem before)
      · exact List.mem_append_right _ (List.mem_map_of_mem new)

theorem addAt_effect {row : TodoRow} {target : Int} {written : List Todo × List Todo}
    (own : row.sessionId = sessionId)
    (done : addAt todos sessionId row target = .ok written) : Effect todos sessionId written := by
  unfold addAt at done
  obtain ⟨table, inserted, done⟩ := bind_ok done
  have result := Except.ok.inj done
  rw [← result]
  constructor
  · simp [name, own]
  · intro other member
    rw [insertRow_ok inserted] at member
    rcases List.mem_append.mp member with kept | new
    · exact List.mem_append_left _ (List.mem_map_of_mem kept)
    · exact List.mem_append_right _ (List.mem_map_of_mem new)

theorem makeRoom_names {target : Int} {shifted : List Todo}
    (done : makeRoom todos sessionId target = .ok shifted) :
    shifted.map name = todos.map name := by
  simp only [makeRoom] at done
  split at done
  · cases done
  · have result := Except.ok.inj done
    rw [← result]
    apply (Table.map_updateWhere name _).trans
    · apply Table.map_updateWhere name
      intro row _
      rfl
    · intro row _
      rfl

theorem addTodo_effect {todo : TodoInput} {afterTodoId : Option Nat}
    {written : List Todo × List Todo}
    (done : addTodo todos sessionId todo afterTodoId = .ok written) :
    Effect todos (SherryAgent.Source.PyText.strip sessionId) written := by
  have unchanged : Effect todos (SherryAgent.Source.PyText.strip sessionId) ([], todos) := by
    apply Effect.quiet
    intro row member
    exact List.mem_map_of_mem member
  simp only [addTodo] at done
  split at done
  · cases done
  · obtain ⟨rows, normal, done⟩ := bind_ok done
    cases rows with
    | nil => exact Except.ok.inj done ▸ unchanged
    | cons row rest =>
      have own := normalizeRows_session normal row List.mem_cons_self
      simp only at done
      split at done
      · cases done
      · cases afterTodoId with
        | none => exact addAt_effect own done
        | some anchorId =>
          simp only at done
          cases found : getTodoById todos (SherryAgent.Source.PyText.strip sessionId) anchorId with
          | none =>
            rw [found] at done
            exact Except.ok.inj done ▸ unchanged
          | some anchor =>
            rw [found] at done
            obtain ⟨shifted, room, done⟩ := bind_ok done
            have same := makeRoom_names room
            have effect := addAt_effect own done
            constructor
            · rw [effect.numbered, nextTodoId_congr same]
            · rw [← same]
              exact effect.names

/-- Every operation, one that raises included. -/
theorem commit_effect (todos : List Todo) (op : TodoOp) :
    Effect todos op.session (op.commit todos) := by
  unfold TodoOp.commit
  cases performed : op.perform todos with
  | error error =>
    apply Effect.quiet
    intro row member
    exact List.mem_map_of_mem member
  | ok written =>
    cases op with
    | replaceAll sessionId input => exact replaceAll_effect performed
    | add sessionId todo afterTodoId => exact addTodo_effect performed
    | patch sessionId todoId content status priority category =>
      exact Except.ok.inj performed ▸ Effect.updated _ _ (fun _ => rfl)
    | remove sessionId todoId => exact Except.ok.inj performed ▸ Effect.deleted _
    | reattach sessionId todoId flowId =>
      exact Except.ok.inj performed ▸ Effect.updated _ _ (fun _ => rfl)
    | cancelForFlows sessionId flowIds =>
      exact Except.ok.inj performed ▸ Effect.updated _ _ (fun _ => rfl)
    | completeForFlows sessionId flowIds =>
      exact Except.ok.inj performed ▸ Effect.updated _ _ (fun _ => rfl)
    | purge sessionId =>
      simp only [TodoOp.perform, deleteTodosBySession] at performed
      split at performed
      · cases performed
      · exact Except.ok.inj performed ▸ Effect.deleted _

/-! ## Histories -/

/-- The stored names have been assigned, and the ids assigned in a session are all those
from 1 up to some number. -/
structure Numbered (history : History) : Prop where
  stored : ∀ row ∈ history.todos, name row ∈ history.assigned
  positive : ∀ key ∈ history.assigned, 0 < key.2
  closed : ∀ sessionId id below, (sessionId, id) ∈ history.assigned → 0 < below → below ≤ id →
    (sessionId, below) ∈ history.assigned

/-- An inserted id is above every stored one of its session. -/
theorem Effect.mem_numbered {written : List Todo × List Todo} {key : String × Nat}
    (effect : Effect todos sessionId written) :
    key ∈ written.1.map name ↔ key.1 = sessionId ∧ maxTodoId todos sessionId < key.2 ∧
      key.2 ≤ maxTodoId todos sessionId + written.1.length := by
  rw [effect.numbered, List.mem_map]
  constructor
  · intro listed
    obtain ⟨id, member, same⟩ := listed
    have range := List.mem_range'_1.mp member
    unfold nextTodoId at range
    rw [← same]
    exact ⟨rfl, by omega, by omega⟩
  · intro bounds
    refine ⟨key.2, ?_, ?_⟩
    · rw [List.mem_range'_1]
      unfold nextTodoId
      omega
    · rw [← bounds.1]

theorem Numbered.step {history : History} (numbered : Numbered history) (op : TodoOp) :
    Numbered (history.step op) := by
  have effect := commit_effect history.todos op
  constructor
  · intro row member
    rcases List.mem_append.mp (effect.names row member) with before | new
    · obtain ⟨old, kept, same⟩ := List.mem_map.mp before
      rw [← same]
      exact List.mem_append_left _ (numbered.stored old kept)
    · exact List.mem_append_right _ new
  · intro key member
    rcases List.mem_append.mp member with before | new
    · exact numbered.positive key before
    · have bounds := effect.mem_numbered.mp new
      omega
  · intro sessionId id below member positive atMost
    rcases List.mem_append.mp member with before | new
    · exact List.mem_append_left _ (numbered.closed sessionId id below before positive atMost)
    · have bounds := effect.mem_numbered.mp new
      have own : sessionId = op.session := bounds.1
      by_cases fresh : maxTodoId history.todos op.session < below
      · apply List.mem_append_right
        exact effect.mem_numbered.mpr ⟨own, fresh, Nat.le_trans atMost bounds.2.2⟩
      · have some_id : 0 < maxTodoId history.todos op.session := by omega
        obtain ⟨row, stored, ofRow, top⟩ := maxTodoId_stored some_id
        have named := numbered.stored row stored
        apply List.mem_append_left
        apply numbered.closed sessionId row.todoId below _ positive (by omega)
        rw [own, ← ofRow]
        exact named

theorem Numbered.after (ops : List TodoOp) : Numbered (History.after ops) := by
  induction ops using List.reverseRecOn with
  | nil => constructor <;> simp [History.after]
  | append_singleton ops op ih =>
    rw [History.after_concat]
    exact ih.step op

/-- The ids of one transaction are fresh exactly when it inserts none, or finds the
session's highest id stored. -/
theorem Numbered.fresh_iff {history : History} (numbered : Numbered history) (op : TodoOp) :
    (∀ key ∈ (op.commit history.todos).1.map name, key ∉ history.assigned) ↔
      ((op.commit history.todos).1 ≠ [] → HighestStored history op.session) := by
  have effect := commit_effect history.todos op
  constructor
  · intro fresh inserts id assigned
    have count := List.length_pos_iff.mpr inserts
    have first := fresh (op.session, maxTodoId history.todos op.session + 1)
      (effect.mem_numbered.mpr ⟨rfl, by simp, by simp; omega⟩)
    have low : id ≤ maxTodoId history.todos op.session := by
      by_contra above
      exact first (numbered.closed _ _ _ assigned (by omega) (by omega))
    by_cases positive : 0 < maxTodoId history.todos op.session
    · obtain ⟨row, stored, own, top⟩ := maxTodoId_stored positive
      exact ⟨row, stored, own, by omega⟩
    · have above : 0 < id := numbered.positive _ assigned
      omega
  · intro highest key member before
    have bounds := effect.mem_numbered.mp member
    have inserts : (op.commit history.todos).1 ≠ [] := by
      intro empty
      simp [empty] at member
    obtain ⟨row, stored, own, below⟩ := highest inserts key.2 (bounds.1 ▸ before)
    have top := le_maxTodoId stored own
    omega

/-- `todo_id` as a stable name: over any operations on an empty table, no id is ever
assigned to a second todo of its session, exactly when each transaction that inserts a
todo finds the highest id its session has assigned still stored. -/
theorem ids_never_reused_iff (ops : List TodoOp) :
    (History.after ops).assigned.Nodup ↔
      ∀ before op, before ++ [op] <+: ops → (op.commit (History.after before).todos).1 ≠ [] →
        HighestStored (History.after before) op.session := by
  induction ops using List.reverseRecOn with
  | nil => simp [History.after]
  | append_singleton ops op ih =>
    have numbered := Numbered.after ops
    have effect := commit_effect (History.after ops).todos op
    have fresh := numbered.fresh_iff op
    have distinct : ((op.commit (History.after ops).todos).1.map name).Nodup := by
      rw [effect.numbered]
      apply List.Nodup.map
      · intro a b same
        exact (Prod.mk.inj same).2
      · exact List.nodup_range'
    rw [History.after_concat]
    unfold History.step
    constructor
    · intro nodup before other listed
      have split := List.nodup_append.mp nodup
      rcases List.prefix_concat_iff.mp listed with last | earlier
      · obtain ⟨rfl, same⟩ := List.append_inj' last rfl
        obtain rfl : other = op := by simpa using same
        apply fresh.mp
        intro key new assigned
        exact split.2.2 key assigned key new rfl
      · exact ih.mp split.1 before other earlier
    · intro kept
      apply List.nodup_append.mpr
      refine ⟨?_, distinct, ?_⟩
      · apply ih.mpr
        intro before other earlier
        exact kept before other (earlier.trans (List.prefix_append _ _))
      · intro key assigned new member same
        exact fresh.mpr (kept ops op List.prefix_rfl) new member (same ▸ assigned)

/-- Adding a todo, removing it and adding another: the second add, `second`, gives out the
id of `first`. -/
def reuse : List TodoOp :=
  [.add "s" { content := some "first" } none, .remove "s" 1,
    .add "s" { content := some "second" } none]

theorem removed_id_is_reused :
    (History.after reuse).assigned = [("s", 1), ("s", 1)] ∧
      ¬(History.after reuse).assigned.Nodup := by
  have assigned : (History.after reuse).assigned = [("s", 1), ("s", 1)] := by decide +kernel
  constructor
  · exact assigned
  · rw [assigned]
    decide

end SherryAgent.Guarantees.TodoIds
