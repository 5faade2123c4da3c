import SherryAgent.Source.PyText
import SherryAgent.Source.Transcript.Repair

/-!
# The state port

`agent/state_port.py`: the operations of the server on the message list of a
checkpoint. Healing an interrupted turn answers the calls the last assistant left
open and appends a marker whose id is derived from the number of human messages;
the list is truncated at a user turn for an edit.

The framework's reducer merges by id, so the ids in a checkpoint are distinct.
-/

namespace SherryAgent.Source.Agent

open SherryAgent.Source.Transcript

/-! ## Messages -/

/-- `message.type == "human"`. -/
def isHuman : Message → Bool
  | .plain message => message.role == .human
  | _ => false

def messageId : Message → Option String
  | .plain message => message.id
  | .ai message => message.id
  | .tool message => message.id

def setId (id : String) : Message → Message
  | .plain message => .plain { message with id := some id }
  | .ai message => .ai { message with id := some id }
  | .tool message => .tool { message with id := some id }

/-- `getattr(message, "metadata", None) or {}`. -/
def messageMetadata : Message → Json
  | .plain message => .obj message.metadata
  | .ai message => .obj message.metadata
  | .tool _ => .obj []

def humanCount (messages : List Message) : Nat := messages.countP isHuman

/-- `any(getattr(m, "id", None) == id for m in messages)`. -/
def hasId (id : String) (messages : List Message) : Bool :=
  messages.any (messageId · == some id)

/-! ## The reducer -/

/-- A message with the id of one in the list takes its place, any other is appended. -/
def upsert (messages : List Message) (message : Message) : List Message :=
  if messages.any (messageId · == messageId message) then
    messages.map fun other => if messageId other == messageId message then message else other
  else messages ++ [message]

/-- `add_messages`, for messages that have an id. -/
def addMessages (messages added : List Message) : List Message := added.foldl upsert messages

/-! ## Healing -/

inductive InterruptReason where
  | cancelled
  | heartbeatTimeout
  deriving DecidableEq

def InterruptReason.text : InterruptReason → String
  | .cancelled => "cancelled"
  | .heartbeatTimeout => "heartbeat_timeout"

/-- `InterruptMarkerWrite`. -/
structure InterruptMarkerWrite where
  markerId : String
  wroteCheckpointer : Bool
  healedCalls : Nat
  turnSeq : Nat
  deriving DecidableEq

/-- `interrupted-{thread_id}-{turn_seq}`. -/
def markerId (thread : String) (turnSeq : Nat) : String :=
  "interrupted-" ++ thread ++ "-" ++ toString turnSeq

/-- `{marker_id}-heal-{call_id}`. -/
def healId (markerId callId : String) : String := markerId ++ "-heal-" ++ callId

/-- The last assistant and the messages after it. -/
def trailingAi : List Message → Option (AiMessage × List Message)
  | [] => none
  | message :: rest =>
    match trailingAi rest with
    | some found => some found
    | none =>
      match message with
      | .ai message => some (message, rest)
      | _ => none

/-- `names[id] = name`. -/
def putName (names : List (String × Option String)) (id : String) (name : Option String) :
    List (String × Option String) :=
  if names.any (·.1 == id) then names.map fun entry => if entry.1 == id then (id, name) else entry
  else names ++ [(id, name)]

/-- One entry of `call_names`. -/
def takeCall (names : List (String × Option String)) (call : Json) :
    List (String × Option String) :=
  match nonEmptyStr (call.get "id") with
  | some id =>
    putName names id (match call.get "name" with | .str name => some name | _ => none)
  | none => names

/-- `call_names`: the names of the assistant's calls by their ids. -/
def callNames (message : AiMessage) : List (String × Option String) :=
  message.toolCalls.foldl takeCall []

def answers (id : String) : Message → Bool
  | .tool message => message.toolCallId == id
  | _ => false

/-- `heal_trailing_tool_calls`. -/
def healTrailingToolCalls (messages : List Message) (markerId : String) (now : Int) :
    List ToolMessage :=
  match trailingAi messages with
  | none => []
  | some (trailing, later) =>
    (callNames trailing).filterMap fun (id, name) =>
      if later.any (answers id) then none
      else some { makeMissingToolResult id name now with id := some (healId markerId id) }

def interruptMarker (markerId partialText : String) (reason : InterruptReason) : AiMessage :=
  { id := some markerId
    content := .text (PyText.strip ("[interrupted] " ++ partialText))
    metadata := [("interrupted", .bool true), ("reason", .str reason.text)] }

/-- `_heal_with_graph`. -/
def healWithGraph (thread partialText : String) (reason : InterruptReason) (now : Int)
    (messages : List Message) : InterruptMarkerWrite × List Message :=
  let turnSeq := humanCount messages
  let marker := markerId thread turnSeq
  if hasId marker messages then
    ({ markerId := marker, wroteCheckpointer := false, healedCalls := 0, turnSeq }, messages)
  else
    let placeholders := healTrailingToolCalls messages marker now
    ({ markerId := marker, wroteCheckpointer := true, healedCalls := placeholders.length, turnSeq },
      addMessages messages
        (placeholders.map .tool ++ [.ai (interruptMarker marker partialText reason)]))

/-- `restore_interrupt_marker`: `none` when it returns `False`. -/
def restoreInterruptMarker (markerId content : String) (messages : List Message) :
    Option (List Message) :=
  if hasId markerId messages then
    some (addMessages messages [.ai { id := some markerId, content := .text content }])
  else none

/-! ## Truncation -/

/-- A human message that is not internal. -/
def countsAsTurn (message : Message) : Bool :=
  isHuman message &&
    match (messageMetadata message).get "internal" with
    | .bool true => false
    | _ => true

/-- The index of the human message at which `seen` reaches the turn. -/
def cutIndex (turnNum : Int) : (seen : Nat) → List Message → Option Nat
  | _, [] => none
  | seen, message :: rest =>
    if countsAsTurn message then
      if (seen + 1 : Int) = turnNum then some 0
      else (cutIndex turnNum (seen + 1) rest).map (· + 1)
    else (cutIndex turnNum seen rest).map (· + 1)

/-- `bool(getattr(message, "id", None))`. -/
def bearsId (message : Message) : Bool :=
  match messageId message with
  | some id => id != ""
  | none => false

/-- `truncate_messages_after_turn`: what it returns, and the list it leaves. -/
def truncateMessagesAfterTurn (turnNum : Int) (messages : List Message) : Int × List Message :=
  match cutIndex turnNum 0 messages with
  | none => (-1, messages)
  | some cut =>
    (((messages.drop cut).filter bearsId).length,
      messages.take cut ++ (messages.drop cut).filter fun message => !bearsId message)

end SherryAgent.Source.Agent
