import SherryAgent.Source.Agent.Session
import SherryAgent.Source.Agent.StatePort
import SherryAgent.Source.ContextEngine.UserTurns

/-!
# A conversation, its edits and its recovery

A session's checkpoint together with its rows in the message table. A flush stores the
messages of the checkpoint that are not stored yet, as one batch with a turn number of
its own (`agent/middlewares/message_persistence/core.py`); `stored` holds their ids. An
edit truncates the checkpoint at the user turn the table names and deletes the rows from
there on (`server/trigger/ws/messages.py`, `_handle_edit_message`). The workspace, the
files and the answer to the client are left out. `server/service/boot_recovery.py`: the scan for a
transcript that ends with calls without results; the ids of calls are texts.
-/

namespace SherryAgent.Source.Server

open SherryAgent.Source.Agent SherryAgent.Source.Transcript
open SherryAgent.Source.Agent SherryAgent.Source.ContextEngine SherryAgent.Source.Persistence
  SherryAgent.Source.Transcript

/-! ## Boot recovery -/

/-- The ids of a message's calls; `str(call.get("id") or "")` is empty for a call without one, and the
scan passes over it. -/
def callIds (message : AiMessage) : List String :=
  message.toolCalls.filterMap fun call => nonEmptyStr (call.get "id")

/-- `answered`. -/
def answeredIds (messages : List Message) : List String :=
  messages.filterMap fun message =>
    match message with
    | .tool message => some message.toolCallId
    | _ => none

/-- The loop over the messages, newest first. -/
def danglingFrom (answered : List String) : List Message → Bool
  | [] => false
  | .plain message :: older => if message.role == .human then false else danglingFrom answered older
  | .tool _ :: older => danglingFrom answered older
  | .ai message :: older =>
    if message.toolCalls.isEmpty then danglingFrom answered older
    else (callIds message).any fun id => !answered.contains id

/-- `_has_dangling_tool_call`. -/
def hasDanglingToolCall (messages : List Message) : Bool :=
  danglingFrom (answeredIds messages) messages.reverse

/-! ## Edits -/

structure Conversation where
  session : Session
  rows : List TurnRow := []
  sequence : Nat := 0
  stored : List String := []

inductive ConversationOp where
  | session (op : SessionOp)
  | flush (count : Nat)
  | record (origin : Option String)
  | edit (turnNum : Nat) (rowId : Option Nat)

namespace Conversation

def start (inherited : List Message) : Conversation := { session := .start inherited }

/-- `_collect_candidates`. -/
def pending (w : Conversation) : List Message :=
  w.session.messages.filter fun message =>
    isPersistable message && !((messageId message).any w.stored.contains)

/-- `_persist_sync` of the first `count` of the pending messages. -/
def flush (w : Conversation) (count : Nat) : Conversation :=
  let batch := w.pending.take count
  let prepared := dedupToolResults [] batch
  if prepared.isEmpty then w
  else
    { w with
      rows := w.rows ++ batchRows (maxTurn w.rows + 1) w.sequence prepared
      sequence := w.sequence + prepared.length
      stored := w.stored ++ batch.filterMap messageId }

/-- A row of an assistant that is written past the checkpoint, as an interruption's is. -/
def record (w : Conversation) (origin : Option String) : Conversation :=
  { w with
    rows := w.rows ++ [{ id := w.sequence + 1, turnNum := maxTurn w.rows + 1, role := "ai", origin
                         message := none }]
    sequence := w.sequence + 1 }

/-- `_handle_edit_message`. -/
def edit (thread : String) (w : Conversation) (turnNum : Nat) (rowId : Option Nat) :
    Option Conversation := do
  let (ordinal, cutTurn) ← findUserTurnCut w.rows turnNum rowId
  let latest := maxUserTurn w.rows
  if latest ≠ 0 ∧ cutTurn ≠ latest then none
  else
    let session ← w.session.step thread (.edit ordinal)
    some { w with session, rows := deleteFromTurn w.rows cutTurn }

/-- One operation; `none` where it is not possible. -/
def step (thread : String) (w : Conversation) : ConversationOp → Option Conversation
  | .session (.edit _) => none
  | .session op => (w.session.step thread op).map fun session => { w with session }
  | .flush count => some (w.flush count)
  | .record origin => some (w.record origin)
  | .edit turnNum rowId => w.edit thread turnNum rowId

end Conversation

end SherryAgent.Source.Server
