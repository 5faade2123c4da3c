import SherryAgent.Library.Table
import SherryAgent.Source.Persistence.Prepare

/-!
# User turns in the message table

`context_engine/store/core.py`: the rows of one session, with the columns that tell a
user's message from an injected one, and the place an edit starts from. `message` is the
id of the message a row was made from; no column holds it and no query reads it.
-/

namespace SherryAgent.Source.ContextEngine

open SherryAgent.Library SherryAgent.Source.Agent SherryAgent.Source.Persistence
  SherryAgent.Source.Transcript

structure TurnRow where
  id : Nat
  turnNum : Nat
  role : String
  origin : Option String
  message : Option String
  deriving DecidableEq

/-- `_row_origin`. -/
def rowOrigin (message : Message) : Option String :=
  match (messageMetadata message).get "origin" with
  | .null => none
  | origin => some origin.pyStr

/-- The `origin` of a human message's row (`HumanMessageRowBuilder`). -/
def humanOrigin (message : Message) : String :=
  match rowOrigin message with
  | some origin => origin
  | none =>
    match (messageMetadata message).get "internal" with
    | .bool true =>
      if isText ((messageMetadata message).get "provenance") "subagent_completion" then
        "subagent_completion"
      else "user"
    | _ => "user"

/-- The role and the origin of a message's row, `none` where no row is built. -/
def buildRow (message : Message) : Option (String × Option String) :=
  match message with
  | .plain _ =>
    if isHuman message then
      if isText ((additionalKwargs message).get "lc_source") "summarization" then none
      else some ("human", some (humanOrigin message))
    else none
  | .ai _ => some ("ai", rowOrigin message)
  | .tool _ => some ("tool", none)

/-- `role = 'human' AND (origin IS NULL OR origin = 'user')`. -/
def isUserRow (row : TurnRow) : Bool :=
  row.role == "human" && (row.origin == none || row.origin == some "user")

/-- `get_max_turn_num`: 0 without rows. -/
def maxTurn (rows : List TurnRow) : Nat := (rows.map (·.turnNum)).foldl max 0

/-- `get_max_user_turn_num`. -/
def maxUserTurn (rows : List TurnRow) : Nat := maxTurn (rows.filter isUserRow)

/-- The rows `_persist_batch` inserts, from the id after `sequence` on. -/
def batchRows (turnNum : Nat) : (sequence : Nat) → List Message → List TurnRow
  | _, [] => []
  | sequence, message :: rest =>
    match buildRow message with
    | some (role, origin) =>
      { id := sequence + 1, turnNum, role, origin, message := messageId message } ::
        batchRows turnNum (sequence + 1) rest
    | none => batchRows turnNum sequence rest

/-- `ORDER BY turn_num DESC, id DESC`. -/
def latestFirst (a b : TurnRow) : Bool :=
  decide (b.turnNum < a.turnNum) || (a.turnNum == b.turnNum && decide (b.id ≤ a.id))

/-- The row an edit starts from: the clicked one, else the newest user row up to the turn. -/
def cutRow (rows : List TurnRow) (turnNum : Nat) (rowId : Option Nat) : Option TurnRow :=
  let candidate := rowId.bind fun id => rows.find? (·.id == id)
  match candidate.filter fun row => row.origin == none || row.origin == some "user" with
  | some row => some row
  | none =>
    (Table.selectWhere (fun row => isUserRow row && decide (row.turnNum ≤ turnNum)) latestFirst 1
      rows).head?

/-- How many user rows there are up to the row. -/
def userOrdinal (rows : List TurnRow) (row : TurnRow) : Nat :=
  rows.countP fun other => isUserRow other &&
    (decide (other.turnNum < row.turnNum) ||
      (other.turnNum == row.turnNum && decide (other.id ≤ row.id)))

/-- `find_user_turn_cut`: the ordinal and the turn the edit deletes from. -/
def findUserTurnCut (rows : List TurnRow) (turnNum : Nat) (rowId : Option Nat) :
    Option (Nat × Nat) :=
  (cutRow rows turnNum rowId).map fun row => (userOrdinal rows row, row.turnNum)

/-- `delete_messages_from_turn`. -/
def deleteFromTurn (rows : List TurnRow) (turnNum : Nat) : List TurnRow :=
  Table.deleteWhere (fun row => decide (turnNum ≤ row.turnNum)) rows

end SherryAgent.Source.ContextEngine
