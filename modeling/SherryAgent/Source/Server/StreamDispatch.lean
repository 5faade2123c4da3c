import Mathlib.Data.List.AList
import SherryAgent.Source.Json
import SherryAgent.Source.PyText

/-!
# Tool frames of a streamed turn

`server/service/stream_dispatch.py`: what `StreamTurn` makes of the tool calls in the model's
chunks and of the results that come back. `json.loads` and the partial parser by which a
message chunk gets its `tool_calls` are parameters. A turn is known by the state that its tool
frames read and write.
-/

namespace SherryAgent.Source.Server

open SherryAgent.Source

/-- `json.loads` and `parse_partial_json`; `none` where they raise. -/
structure Readers where
  loads : String → Option Json
  parsePartialJson : String → Option Json

/-- An entry of `tool_call_chunks`. -/
structure ToolCallChunk where
  name : Option String := none
  args : Option String := none
  id : Option String := none

/-- The name and id of an entry of `tool_calls` or `tool_call_chunks`. -/
structure CallHead where
  name : Option String
  id : Option String

/-- An `AIMessageChunk` of the model node, by its `tool_call_chunks`. -/
abbrev MessageChunk := List ToolCallChunk

/-- `msg_chunk.tool_calls`: the entries whose own fragment parses, as far as it goes, to a
dict. -/
def MessageChunk.toolCalls (readers : Readers) (chunk : MessageChunk) : List CallHead :=
  chunk.filterMap fun entry =>
    let head : CallHead := ⟨some (entry.name.getD ""), entry.id⟩
    match entry.args with
    | none => some head
    | some args =>
      if args == "" then some head
      else if (readers.parsePartialJson args).any Json.isObject then some head
      else none

/-- `tool_calls`, else the `tool_call_chunks`. -/
def MessageChunk.calls (readers : Readers) (chunk : MessageChunk) : List CallHead :=
  let parsed := chunk.toolCalls readers
  if parsed.isEmpty then chunk.map fun entry => ⟨entry.name, entry.id⟩ else parsed

/-- A `ToolMessage` of an update. -/
structure StreamToolMessage where
  content : Json
  toolCallId : String
  status : String := "success"

/-- The frames of tool calls. The id of a start is the one its duration is measured and it is
logged under; the frame on the wire does not carry it. -/
inductive Frame where
  | toolStart (toolId content : String) (args : List (String × Json))
  | toolResult (content toolId toolName : String) (args : List (String × Json)) (error : Bool)
  | toolEnd (content : String)

/-- The turn's part of the state register (`none` for a key that is not set), of the pending
arguments and of `StreamTurn` itself. -/
structure StreamTurn where
  currentToolName : Option String := none
  currentToolId : Option String := none
  pendingArgs : AList fun _ : String => List (String × Json) := ∅
  pendingRaw : AList fun _ : String => List String := ∅
  partialToolCalls : AList fun _ : String => String := ∅
  hasToolCalls : Bool := false

/-! ## Pending arguments -/

/-- The text as a dict that is not empty. -/
def Readers.loadsDict (readers : Readers) (text : String) : Option (List (String × Json)) :=
  match readers.loads text with
  | some (.obj items) => if items.isEmpty then none else some items
  | _ => none

/-- `_accumulate_pending_args`, with a fragment of a chunk. -/
def accumulatePendingArgs (readers : Readers) (turn : StreamTurn) (toolId : Option String)
    (fragment : Option String) : StreamTurn :=
  match toolId with
  | none => turn
  | some toolId =>
    let buffer := (turn.pendingRaw.lookup toolId).getD []
    match fragment with
    | none => { turn with pendingRaw := turn.pendingRaw.insert toolId buffer }
    | some fragment =>
      match readers.loadsDict (String.join (buffer ++ [fragment])) with
      | some items =>
        { turn with
          pendingArgs := turn.pendingArgs.insert toolId items
          pendingRaw := turn.pendingRaw.insert toolId [] }
      | none => { turn with pendingRaw := turn.pendingRaw.insert toolId (buffer ++ [fragment]) }

/-- `_get_pending_args`. -/
def getPendingArgs (turn : StreamTurn) (toolId : Option String) : List (String × Json) :=
  (turn.pendingArgs.lookup (toolId.getD "")).getD []

/-- `_pop_pending_args`. -/
def popPendingArgs (turn : StreamTurn) (toolId : String) : List (String × Json) × StreamTurn :=
  ((turn.pendingArgs.lookup toolId).getD [],
    { turn with pendingArgs := turn.pendingArgs.erase toolId })

/-! ## Tool calls -/

/-- `text.strip() or text.strip() != state`: whether the state takes the text. -/
def replaces (state : Option String) (text : String) : Bool :=
  PyText.strip text != "" || some (PyText.strip text) != state

/-- The name of the chunk's first call becomes the current one. -/
def StreamTurn.noteName (turn : StreamTurn) (head : CallHead) : StreamTurn :=
  match head.name with
  | none => turn
  | some name =>
    if name != "" && replaces turn.currentToolName name then
      { turn with currentToolName := some name }
    else turn

/-- The id of the chunk's first call becomes the current one; the id and whether it starts a
call. -/
def StreamTurn.noteId (turn : StreamTurn) (head : CallHead) : StreamTurn × Option String × Bool :=
  match head.id with
  | none => (turn, none, false)
  | some id =>
    if id == "" then (turn, none, false)
    else if replaces turn.currentToolId id then ({ turn with currentToolId := some id }, some id, true)
    else (turn, some id, false)

/-- The calls whose chunks have started streaming. -/
def StreamTurn.notePartial (turn : StreamTurn) (calls : List CallHead) : StreamTurn :=
  calls.foldl (fun turn head =>
    match head.name with
    | none => turn
    | some name =>
      if name == "" then turn
      else
        let key := (head.id.filter (· != "")).getD name
        if key ∈ turn.partialToolCalls then turn
        else { turn with partialToolCalls := turn.partialToolCalls.insert key name })
    { turn with hasToolCalls := true }

/-- What the first of the chunk's calls does to the current name and id. -/
def StreamTurn.noteCalls (turn : StreamTurn) (calls : List CallHead) :
    StreamTurn × Option String × Bool :=
  match calls with
  | [] => (turn, none, false)
  | head :: _ => ((turn.notePartial calls).noteName head).noteId head

/-- `CURRENT_TOOL_ID`, stripped; `none` for an empty one. -/
def StreamTurn.strippedId (turn : StreamTurn) : Option String :=
  let stripped := PyText.strip (turn.currentToolId.getD "")
  if stripped == "" then none else some stripped

/-- `_tool_call_frames`. -/
def toolCallFrames (readers : Readers) (turn : StreamTurn) (chunk : MessageChunk)
    (calls : List CallHead) : StreamTurn × List Frame :=
  let (turn, toolId, started) := turn.noteCalls calls
  let effToolId := toolId.or turn.strippedId
  let fragment := chunk.head?.bind (·.args)
  let turn := accumulatePendingArgs readers turn effToolId fragment
  if started then
    (turn, [.toolStart (effToolId.getD "") (turn.currentToolName.getD "")
      (getPendingArgs turn toolId)])
  else (turn, [])

/-- The tool frames of `_messages_frames`. -/
def messagesFrames (readers : Readers) (turn : StreamTurn) (chunk : MessageChunk) :
    StreamTurn × List Frame :=
  let calls := chunk.calls readers
  if !calls.isEmpty || turn.strippedId.isSome then toolCallFrames readers turn chunk calls
  else (turn, [])

/-! ## Results -/

/-- `_normalize_text`. -/
def normalizeText : Json → String
  | .str text => text
  | .arr blocks =>
    "\n".intercalate <| blocks.filterMap fun block =>
      match block with
      | .str text => some text
      | .obj items =>
        match (Json.obj items).get "text" with
        | .str text => some text
        | _ => some ""
      | _ => none
  | content => content.pyStr

/-- `_tool_result_frames`. -/
def toolResultFrames (turn : StreamTurn) (message : StreamToolMessage) : StreamTurn × List Frame :=
  let name := turn.currentToolName.getD ""
  let (args, turn) := popPendingArgs turn message.toolCallId
  ({ turn with partialToolCalls := turn.partialToolCalls.erase message.toolCallId },
    [.toolResult (normalizeText message.content) message.toolCallId name args
      (message.status == "error"),
      .toolEnd name])

/-- The tool node's messages of `_updates_frames`. -/
def updatesFrames (turn : StreamTurn) : List StreamToolMessage → StreamTurn × List Frame
  | [] => (turn, [])
  | message :: rest =>
    let (turn, frames) := toolResultFrames turn message
    let (turn, later) := updatesFrames { turn with currentToolId := some "" } rest
    (turn, frames ++ later)

/-- A chunk of the source's stream. -/
inductive StreamChunk where
  | messages (chunk : MessageChunk)
  | updates (results : List StreamToolMessage)

/-- The loop of `_stream_frames`. -/
def streamFrames (readers : Readers) (turn : StreamTurn) : List StreamChunk → StreamTurn × List Frame
  | [] => (turn, [])
  | .messages chunk :: rest =>
    let (turn, frames) := messagesFrames readers turn chunk
    let (turn, later) := streamFrames readers turn rest
    (turn, frames ++ later)
  | .updates results :: rest =>
    let (turn, frames) := updatesFrames turn results
    let (turn, later) := streamFrames readers turn rest
    (turn, frames ++ later)

end SherryAgent.Source.Server
