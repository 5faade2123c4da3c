import SherryAgent.Library.Table

/-!
# The message tree of the store

`context_engine/store/core.py`: the `messages` table with the parent chain, the
`session_leafs` table, forks, batches and the two deletes. What a row says (role,
content and the other columns none of these functions look at) is its `body`.
`sequence` is the last id `AUTOINCREMENT` gave out.
-/

namespace SherryAgent.Source.ContextEngine

open SherryAgent.Library

structure MessageRow (β : Type) where
  id : Nat
  sessionId : String
  turnNum : Nat
  parentMessageId : Option Nat
  body : β
  deriving DecidableEq

structure SessionLeaf where
  sessionId : String
  leafMessageId : Nat
  deriving DecidableEq

structure TreeStore (β : Type) where
  messages : List (MessageRow β) := []
  leafs : List SessionLeaf := []
  sequence : Nat := 0

variable {β : Type}

namespace TreeStore

/-- `get_max_turn_num`: 0 without rows. -/
def maxTurnNum (store : TreeStore β) (sessionId : String) : Nat :=
  ((store.messages.filter fun row => row.sessionId == sessionId).map (·.turnNum)).foldl max 0

/-- `get_session_leaf`. -/
def getSessionLeaf (store : TreeStore β) (sessionId : String) : Option Nat :=
  (store.leafs.find? fun leaf => leaf.sessionId == sessionId).map (·.leafMessageId)

/-- `set_session_leaf`. -/
def setSessionLeaf (store : TreeStore β) (sessionId : String) (leafMessageId : Nat) :
    TreeStore β :=
  if store.leafs.any fun leaf => leaf.sessionId == sessionId then
    { store with
      leafs := Table.updateWhere (fun leaf => leaf.sessionId == sessionId)
        ({ · with leafMessageId }) store.leafs }
  else { store with leafs := store.leafs ++ [{ sessionId, leafMessageId }] }

/-- `get_message_by_id`: by id alone, a fork shares the rows of its source. -/
def getMessageById (messages : List (MessageRow β)) (id : Nat) : Option (MessageRow β) :=
  messages.find? fun row => row.id == id

/-- A row the loop has just seen is one fewer unseen row. -/
theorem unseen_lt {messages : List (MessageRow β)} {seen : List Nat} {current : Nat}
    {row : MessageRow β} (unseen : current ∉ seen)
    (found : getMessageById messages current = some row) :
    (messages.filter fun other => other.id ∉ current :: seen).length <
      (messages.filter fun other => other.id ∉ seen).length := by
  have member := List.mem_of_find?_eq_some found
  have id : row.id = current := by simpa using List.find?_some found
  have refined : messages.filter (fun other => other.id ∉ current :: seen) =
      (messages.filter fun other => other.id ∉ seen).filter fun other => other.id ≠ current := by
    rw [List.filter_filter]
    refine List.filter_congr fun other _ => ?_
    simp
  rw [refined]
  refine List.length_filter_lt_length_iff_exists.mpr ⟨row, ?_, by simp [id]⟩
  simp [member, id, unseen]

/-- The loop of `get_message_path_to_root`, leaf first. -/
def walkToRoot (messages : List (MessageRow β)) (seen : List Nat) (current : Nat) :
    List (MessageRow β) :=
  if current ∈ seen then []
  else
    match _found : getMessageById messages current with
    | none => []
    | some row =>
      match row.parentMessageId with
      | none => [row]
      | some parent => row :: walkToRoot messages (current :: seen) parent
  termination_by (messages.filter fun row => row.id ∉ seen).length
  decreasing_by
    rename_i unseen
    exact unseen_lt unseen _found

/-- `get_message_path_to_root`. -/
def getMessagePathToRoot (store : TreeStore β) (leaf : Nat) : List (MessageRow β) :=
  (walkToRoot store.messages [] leaf).reverse

/-- `fork_from_message`: only the new session's leaf is written. -/
def forkFromMessage (store : TreeStore β) (targetMessageId : Nat) (newSessionId : String) :
    TreeStore β :=
  store.setSessionLeaf newSessionId targetMessageId

/-- The inserts of `_persist_batch`: each row's parent is the row before it. The rows and
the last parent. -/
def chainRows (sessionId : String) (turnNum : Nat) :
    Nat → Option Nat → List β → List (MessageRow β) × Option Nat
  | _, parent, [] => ([], parent)
  | id, parent, body :: rest =>
    let (rows, last) := chainRows sessionId turnNum (id + 1) (some id) rest
    ({ id, sessionId, turnNum, parentMessageId := parent, body } :: rows, last)

/-- `_persist_batch` for the rows the builders made. -/
def addMessages (store : TreeStore β) (sessionId : String) (bodies : List β) : TreeStore β :=
  let currentTurn := store.maxTurnNum sessionId + 1
  let (rows, last) :=
    chainRows sessionId currentTurn (store.sequence + 1) (store.getSessionLeaf sessionId) bodies
  let stored := { store with
    messages := store.messages ++ rows
    sequence := store.sequence + bodies.length }
  match last with
  | none => stored
  | some leaf => stored.setSessionLeaf sessionId leaf

/-- `ORDER BY turn_num DESC, id DESC`. -/
def newestFirst (a b : MessageRow β) : Bool :=
  decide (b.turnNum < a.turnNum) || (a.turnNum == b.turnNum && decide (b.id ≤ a.id))

/-- The row the leaf is re-pointed to: the newest of the session before the turn. -/
def newestBefore (messages : List (MessageRow β)) (sessionId : String) (turnNum : Nat) :
    Option (MessageRow β) :=
  (Table.selectWhere (fun row => row.sessionId == sessionId && decide (row.turnNum < turnNum))
    newestFirst 1 messages).head?

/-- `delete_messages_from_turn`. -/
def deleteMessagesFromTurn (store : TreeStore β) (sessionId : String) (fromTurnNum : Nat) :
    TreeStore β :=
  let kept := Table.deleteWhere
    (fun row => row.sessionId == sessionId && decide (fromTurnNum ≤ row.turnNum)) store.messages
  let store := { store with messages := kept }
  match newestBefore kept sessionId fromTurnNum with
  | some previous => store.setSessionLeaf sessionId previous.id
  | none =>
    { store with leafs := Table.deleteWhere (fun leaf => leaf.sessionId == sessionId) store.leafs }

/-- `delete_messages_by_session`: the session's leaf stays. -/
def deleteMessagesBySession (store : TreeStore β) (sessionId : String) : TreeStore β :=
  { store with
    messages := Table.deleteWhere (fun row => row.sessionId == sessionId) store.messages }

end TreeStore

/-- The operations on the tree. -/
inductive TreeOp (β : Type) where
  | fork (targetMessageId : Nat) (newSessionId : String)
  | add (sessionId : String) (bodies : List β)
  | deleteFromTurn (sessionId : String) (fromTurnNum : Nat)
  | deleteSession (sessionId : String)

namespace TreeOp

/-- The session an operation is on. -/
def session : TreeOp β → String
  | fork _ newSessionId => newSessionId
  | add sessionId _ => sessionId
  | deleteFromTurn sessionId _ => sessionId
  | deleteSession sessionId => sessionId

def apply (store : TreeStore β) : TreeOp β → TreeStore β
  | fork target newSessionId => store.forkFromMessage target newSessionId
  | add sessionId bodies => store.addMessages sessionId bodies
  | deleteFromTurn sessionId fromTurnNum => store.deleteMessagesFromTurn sessionId fromTurnNum
  | deleteSession sessionId => store.deleteMessagesBySession sessionId

/-- A fork is at a message that exists. -/
def Valid (store : TreeStore β) : TreeOp β → Prop
  | fork target _ => ∃ row ∈ store.messages, row.id = target
  | _ => True

/-- The rows an operation deletes. -/
def deletes : TreeOp β → MessageRow β → Bool
  | deleteFromTurn sessionId fromTurnNum, row =>
    row.sessionId == sessionId && decide (fromTurnNum ≤ row.turnNum)
  | deleteSession sessionId, row => row.sessionId == sessionId
  | _, _ => false

end TreeOp

end SherryAgent.Source.ContextEngine
