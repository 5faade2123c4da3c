import SherryAgent.Source.Agent.StatePort

/-!
# Which messages are persisted

`agent/middlewares/message_persistence/prepare.py`: the messages of a checkpoint that
belong into the session's message table, and the empty or repeated tool results that
are left out of a batch.
-/

namespace SherryAgent.Source.Persistence

open SherryAgent.Source.Agent SherryAgent.Source.Transcript

/-- `getattr(message, "additional_kwargs", None) or {}`. -/
def additionalKwargs : Message → Json
  | .plain message => .obj message.additionalKwargs
  | .ai message => .obj message.additionalKwargs
  | .tool message => .obj message.additionalKwargs

/-- `message.type`; `none` for a type that has no row builder. -/
def rowRole : Message → Option String
  | .plain message => if message.role = .human then some "human" else none
  | .ai _ => some "ai"
  | .tool _ => some "tool"

def isText (value : Json) (text : String) : Bool :=
  match value with
  | .str other => other == text
  | _ => false

/-- `_is_persistable`, apart from the marker of what this process has stored. -/
def isPersistable (message : Message) : Bool :=
  (rowRole message).isSome &&
    !((additionalKwargs message).get "side_chat_context").truthy &&
    !isText ((messageMetadata message).get "provenance") "continuation" &&
    !isText ((additionalKwargs message).get "lc_source") "summarization"

/-- `_dedup_tool_results`; `seen` holds the call ids of the results put out. -/
def dedupToolResults : (seen : List String) → List Message → List Message
  | _, [] => []
  | seen, .tool message :: rest =>
    if !message.content.truthy then dedupToolResults seen rest
    else if message.toolCallId = "" then .tool message :: dedupToolResults seen rest
    else if seen.contains message.toolCallId then dedupToolResults seen rest
    else .tool message :: dedupToolResults (message.toolCallId :: seen) rest
  | seen, message :: rest => message :: dedupToolResults seen rest

end SherryAgent.Source.Persistence
