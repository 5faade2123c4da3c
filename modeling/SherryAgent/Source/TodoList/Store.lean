import Mathlib.Order.Lattice
import Mathlib.Algebra.Ring.Int.Defs
import SherryAgent.Library.Table
import SherryAgent.Source.PyText

/-!
# The todo store

`agent/tools/todolist/registry/store_sqlite.py`: the `todos` table and every
transaction that writes it. A transaction that raises is rolled back. `created_at`
is left out; `UPDATE` checks the primary key row by row in the order of the positions.
-/

namespace SherryAgent.Source.TodoList

open SherryAgent.Library SherryAgent.Source

/-- A row of `_normalize_rows`, before it has its id. -/
structure TodoRow where
  sessionId : String
  content : String
  status : String
  priority : String
  position : Int
  category : String
  delegation : String
  subagentId : Option String
  flowId : Option String
  stepId : Option String
  planRef : Option String
  deriving DecidableEq

structure Todo extends TodoRow where
  todoId : Nat
  deriving DecidableEq

/-- A caller's todo dict. -/
structure TodoInput where
  content : Option String := none
  status : Option String := none
  priority : Option String := none
  position : Option Int := none
  category : Option String := none
  delegation : Option String := none
  subagentId : Option String := none
  flowId : Option String := none
  stepId : Option String := none
  planRef : Option String := none

inductive StoreError where
  | valueError (message : String)
  | integrityError
  deriving DecidableEq

def defaultStatus : String := "pending"
def defaultPriority : String := "medium"
def defaultCategory : String := "quick"
def defaultDelegation : String := "self"

/-- `TODOLIST_INFRA["position_shift_offset"]`. -/
def positionShiftOffset : Int := 1000000

/-- `value or default`. -/
def orDefault (value : Option String) (default : String) : String :=
  match value with
  | none => default
  | some text => if text.isEmpty then default else text

/-- The loop of `_normalize_rows` from an index on. -/
def normalizeRows (sessionId : String) : Nat → List TodoInput → Except StoreError (List TodoRow)
  | _, [] => .ok []
  | index, todo :: rest =>
    let content := todo.content.getD ""
    if content.isEmpty then .error (.valueError "todo content must be a non-empty string")
    else do
      let rows ← normalizeRows sessionId (index + 1) rest
      let row : TodoRow := {
        sessionId
        content
        status := orDefault todo.status defaultStatus
        priority := orDefault todo.priority defaultPriority
        position := todo.position.getD index
        category := orDefault todo.category defaultCategory
        delegation := orDefault todo.delegation defaultDelegation
        subagentId := todo.subagentId
        flowId := todo.flowId
        stepId := todo.stepId
        planRef := todo.planRef }
      return row :: rows

/-- `WHERE session_id = ?`. -/
def ofSession (sessionId : String) (row : Todo) : Bool := row.sessionId == sessionId

/-- `WHERE session_id = ? AND todo_id = ?`. -/
def named (sessionId : String) (todoId : Nat) (row : Todo) : Bool :=
  row.sessionId == sessionId && row.todoId == todoId

/-- `COALESCE(MAX(todo_id), 0)`. -/
def maxTodoId (todos : List Todo) (sessionId : String) : Nat :=
  ((todos.filter (ofSession sessionId)).map (·.todoId)).max?.getD 0

/-- `_next_todo_id`. -/
def nextTodoId (todos : List Todo) (sessionId : String) : Nat :=
  maxTodoId todos sessionId + 1

/-- `COALESCE(MAX(position), -1)`. -/
def maxPosition (todos : List Todo) (sessionId : String) : Int :=
  ((todos.filter (ofSession sessionId)).map (·.position)).max?.getD (-1)

/-- `_with_todo_ids`. -/
def withTodoIds (startId : Nat) (rows : List TodoRow) : List Todo :=
  rows.mapIdx fun index row => { toTodoRow := row, todoId := startId + index }

/-- `INSERT`, under the primary key and the unique index. -/
def insertRow (todos : List Todo) (row : Todo) : Except StoreError (List Todo) :=
  if todos.any fun old => ofSession row.sessionId old &&
      (old.position == row.position || old.todoId == row.todoId) then
    .error .integrityError
  else .ok (todos ++ [row])

/-- The rows from a position on, in one session. -/
def fromPosition (sessionId : String) (position : Int) (row : Todo) : Bool :=
  ofSession sessionId row && decide (position ≤ row.position)

/-- The two `UPDATE`s of `add_todo` that make room at a position. -/
def makeRoom (todos : List Todo) (sessionId : String) (target : Int) :
    Except StoreError (List Todo) :=
  let offset := positionShiftOffset
  if todos.any fun row => fromPosition sessionId target row &&
      todos.any fun other => ofSession sessionId other && other.position == row.position + offset
  then .error .integrityError
  else
    let lifted := Table.updateWhere (fromPosition sessionId target)
      (fun row => { row with position := row.position + offset }) todos
    .ok (Table.updateWhere (fromPosition sessionId (offset + target))
      (fun row => { row with position := row.position - offset + 1 }) lifted)

/-- `get_todo_by_id`. -/
def getTodoById (todos : List Todo) (sessionId : String) (todoId : Nat) : Option Todo :=
  todos.find? (named sessionId todoId)

/-- `replace_all`: the rows it inserts and the table. -/
def replaceAll (todos : List Todo) (sessionId : String) (input : List TodoInput) :
    Except StoreError (List Todo × List Todo) :=
  let sessionId := PyText.strip sessionId
  if sessionId.isEmpty then .error (.valueError "session_id must be a non-empty string")
  else do
    let rows ← normalizeRows sessionId 0 input
    let inserted := withTodoIds (nextTodoId todos sessionId) rows
    let table ← inserted.foldlM insertRow (Table.deleteWhere (ofSession sessionId) todos)
    return (inserted, table)

/-- The inserting end of `add_todo`. -/
def addAt (todos : List Todo) (sessionId : String) (row : TodoRow) (target : Int) :
    Except StoreError (List Todo × List Todo) := do
  let inserted : Todo :=
    { row with position := target, todoId := nextTodoId todos sessionId }
  let table ← insertRow todos inserted
  return ([inserted], table)

/-- `add_todo`: the row it inserts (none when the anchor is not in the session) and the
table. -/
def addTodo (todos : List Todo) (sessionId : String) (todo : TodoInput)
    (afterTodoId : Option Nat) : Except StoreError (List Todo × List Todo) :=
  let sessionId := PyText.strip sessionId
  if sessionId.isEmpty then .error (.valueError "session_id must be a non-empty string")
  else do
    let rows ← normalizeRows sessionId 0 [todo]
    match rows with
    | [] => .ok ([], todos)
    | row :: _ =>
      if positionShiftOffset ≤ maxPosition todos sessionId then
        .error (.valueError "todo position exceeds the insertion offset")
      else
        match afterTodoId with
        | none => addAt todos sessionId row (maxPosition todos sessionId + 1)
        | some anchorId =>
          match getTodoById todos sessionId anchorId with
          | none => .ok ([], todos)
          | some anchor => do
            let shifted ← makeRoom todos sessionId (anchor.position + 1)
            addAt shifted sessionId row (anchor.position + 1)

/-- `patch_todo_by_id`: the row after it, none for an unknown id. -/
def patchTodoById (todos : List Todo) (sessionId : String) (todoId : Nat)
    (content status priority category : Option String) : Option Todo × List Todo :=
  let patched := Table.updateWhere (named sessionId todoId)
    (fun row => { row with
      content := content.getD row.content
      status := status.getD row.status
      priority := priority.getD row.priority
      category := category.getD row.category }) todos
  (getTodoById patched sessionId todoId, patched)

/-- `remove_todo_by_id`: the removed row, none for an unknown id. -/
def removeTodoById (todos : List Todo) (sessionId : String) (todoId : Nat) :
    Option Todo × List Todo :=
  (getTodoById todos sessionId todoId, Table.deleteWhere (named sessionId todoId) todos)

/-- `set_todo_flow_id_by_id`. -/
def setTodoFlowIdById (todos : List Todo) (sessionId : String) (todoId : Nat) (flowId : String) :
    Option Todo × List Todo :=
  let bound := Table.updateWhere (named sessionId todoId)
    (fun row => { row with flowId := some flowId }) todos
  (getTodoById bound sessionId todoId, bound)

/-- The active todos of a session that reference one of the flows. -/
def activeInFlows (sessionId : String) (flowIds : List String) (row : Todo) : Bool :=
  ofSession sessionId row && !(["completed", "cancelled"].contains row.status) &&
    row.flowId.any fun flowId => (flowIds.filter (!·.isEmpty)).contains flowId

/-- `cancel_todos_for_flows` and `complete_todos_for_flows`, by the status they write:
the number of rows changed and the table. -/
def closeTodosForFlows (status : String) (todos : List Todo) (sessionId : String)
    (flowIds : List String) : Nat × List Todo :=
  (todos.countP (activeInFlows sessionId flowIds),
    Table.updateWhere (activeInFlows sessionId flowIds) ({ · with status }) todos)

def cancelTodosForFlows := closeTodosForFlows "cancelled"
def completeTodosForFlows := closeTodosForFlows "completed"

/-- `delete_todos_by_session`: the number of rows deleted and the table. -/
def deleteTodosBySession (todos : List Todo) (sessionId : String) :
    Except StoreError (Nat × List Todo) :=
  let sessionId := PyText.strip sessionId
  if sessionId.isEmpty then .error (.valueError "session_id must be a non-empty string")
  else .ok (todos.countP (ofSession sessionId), Table.deleteWhere (ofSession sessionId) todos)

/-- The store's writing transactions. -/
inductive TodoOp where
  | replaceAll (sessionId : String) (todos : List TodoInput)
  | add (sessionId : String) (todo : TodoInput) (afterTodoId : Option Nat)
  | patch (sessionId : String) (todoId : Nat) (content status priority category : Option String)
  | remove (sessionId : String) (todoId : Nat)
  | reattach (sessionId : String) (todoId : Nat) (flowId : String)
  | cancelForFlows (sessionId : String) (flowIds : List String)
  | completeForFlows (sessionId : String) (flowIds : List String)
  | purge (sessionId : String)

namespace TodoOp

/-- The session whose todos an operation is about. -/
def session : TodoOp → String
  | replaceAll sessionId _ => PyText.strip sessionId
  | add sessionId _ _ => PyText.strip sessionId
  | patch sessionId .. => sessionId
  | remove sessionId _ => sessionId
  | reattach sessionId .. => sessionId
  | cancelForFlows sessionId _ => sessionId
  | completeForFlows sessionId _ => sessionId
  | purge sessionId => PyText.strip sessionId

/-- One transaction: the rows it inserts and the table it commits. -/
def perform (todos : List Todo) : TodoOp → Except StoreError (List Todo × List Todo)
  | replaceAll sessionId input => TodoList.replaceAll todos sessionId input
  | add sessionId todo afterTodoId => addTodo todos sessionId todo afterTodoId
  | patch sessionId todoId content status priority category =>
    .ok ([], (patchTodoById todos sessionId todoId content status priority category).2)
  | remove sessionId todoId => .ok ([], (removeTodoById todos sessionId todoId).2)
  | reattach sessionId todoId flowId => .ok ([], (setTodoFlowIdById todos sessionId todoId flowId).2)
  | cancelForFlows sessionId flowIds => .ok ([], (cancelTodosForFlows todos sessionId flowIds).2)
  | completeForFlows sessionId flowIds =>
    .ok ([], (completeTodosForFlows todos sessionId flowIds).2)
  | purge sessionId => (deleteTodosBySession todos sessionId).map fun deleted => ([], deleted.2)

/-- A transaction that raises inserts nothing and leaves the table alone. -/
def commit (todos : List Todo) (op : TodoOp) : List Todo × List Todo :=
  match op.perform todos with
  | .error _ => ([], todos)
  | .ok written => written

end TodoOp

end SherryAgent.Source.TodoList
