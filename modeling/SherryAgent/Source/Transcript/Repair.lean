import SherryAgent.Source.Transcript.Messages

/-!
# Transcript repair

`pub/func/transcript_repair.py`: tool results are brought behind the assistant
message whose calls they answer, a missing one is replaced by a placeholder and
one that answers no call is dropped. The list is scanned from left to right;
`clock` gives the milliseconds at which a placeholder is made, by the number of
messages put out before it.
-/

namespace SherryAgent.Source.Transcript

/-- A `ToolCallLike`. -/
structure ToolCallLike where
  id : String
  name : Option String
  error : Option String := none
  deriving DecidableEq

def nonEmptyStr : Json → Option String
  | .str value => if value = "" then none else some value
  | _ => none

/-- `extract_tool_call_id`. -/
def extractToolCallId (block : Json) : Option String :=
  match nonEmptyStr (block.get "id") with
  | some id => some id
  | none => nonEmptyStr (block.get "call_id")

def extractToolCall (block : Json) : Option ToolCallLike :=
  if !block.truthy || !block.isObject then none
  else
    match extractToolCallId block with
    | none => none
    | some id =>
      match block.get "type" with
      | .str "tool_call" =>
        some { id, name := match block.get "name" with | .str name => some name | _ => none }
      | _ => none

/-- `extract_tool_calls_from_assistant`. -/
def extractToolCalls (message : AiMessage) : List ToolCallLike :=
  message.toolCalls.filterMap extractToolCall

/-- `extract_tool_result_id`. -/
def extractToolResultId (message : ToolMessage) : Option String :=
  if message.toolCallId = "" then none else some message.toolCallId

def EMPTY_TOOL_RESULT : String := "(no output)"

def MISSING_TOOL_RESULT : String :=
  "tool result missing (not recorded; re-run the tool if you still need it)."

/-- `make_missing_tool_result`. -/
def makeMissingToolResult (toolCallId : String) (toolName : Option String) (now : Int) :
    ToolMessage :=
  { name := some (match toolName with
      | some name => if name = "" then "unknown" else name
      | none => "unknown")
    content := .text MISSING_TOOL_RESULT
    toolCallId
    additionalKwargs := [("timestamp", .int now), ("sherry_repair", .str "missing_tool_result")] }

/-- The copy made of a tool message without content. -/
def fillEmpty (message : ToolMessage) : ToolMessage :=
  if message.content.truthy then message
  else { message with
    content := .text EMPTY_TOOL_RESULT
    additionalKwargs := setField "sherry_repair" (.str "empty_result") message.additionalKwargs }

def fillMessage : Message → Message
  | .tool message => .tool (fillEmpty message)
  | message => message

/-- `out`, `seen_tool_result_ids` and `changed`. -/
structure Repair where
  out : List Message := []
  seen : List String := []
  changed : Bool := false

namespace Repair

def push (st : Repair) (message : Message) : Repair := { st with out := st.out ++ [message] }

/-- `push_tool_result`. -/
def pushToolResult (st : Repair) (message : ToolMessage) : Repair :=
  match extractToolResultId message with
  | some id =>
    if id ∈ st.seen then { st with changed := true }
    else { st with out := st.out ++ [.tool message], seen := st.seen ++ [id] }
  | none => st.push (.tool message)

end Repair

/-- `span_results_by_id`, `remainder` and `changed`. -/
structure Span where
  results : List (String × ToolMessage) := []
  remainder : List ToolMessage := []
  changed : Bool

namespace Span

def keep (span : Span) (message : ToolMessage) : Span :=
  if message.content.isEmptyText then { span with changed := true }
  else { span with remainder := span.remainder ++ [message] }

/-- One tool message of the span. -/
def take (ids seen : List String) (span : Span) (message : ToolMessage) : Span :=
  if message.content.truthy then
    match extractToolResultId message with
    | some id =>
      if id ∈ ids then
        if id ∈ seen then { span with changed := true }
        else if span.results.any (·.1 = id) then span
        else { span with results := span.results ++ [(id, message)] }
      else span.keep message
    | none => span.keep message
  else span.keep message

/-- `span_results_by_id.get(id)`. -/
def get (span : Span) (id : String) : Option ToolMessage :=
  (span.results.find? (·.1 = id)).map (·.2)

end Span

/-- The messages up to the next assistant, and those from it on. -/
def scanSpan (ids seen : List String) : List Message → Span → Span × List Message
  | [], span => (span, [])
  | .ai message :: rest, span => (span, .ai message :: rest)
  | .tool message :: rest, span => scanSpan ids seen rest (span.take ids seen message)
  | .plain _ :: rest, span => scanSpan ids seen rest { span with changed := true }

theorem scanSpan_length (ids seen : List String) (messages : List Message) (span : Span) :
    (scanSpan ids seen messages span).2.length ≤ messages.length := by
  induction messages generalizing span with
  | nil => exact Nat.le_refl 0
  | cons message rest ih =>
    cases message with
    | ai message => exact Nat.le_refl _
    | tool message => exact Nat.le_succ_of_le (ih _)
    | plain message => exact Nat.le_succ_of_le (ih _)

/-- The result for a call: one of the span, else a placeholder. -/
def pushCall (clock : Nat → Int) (span : Span) (st : Repair) (call : ToolCallLike) : Repair :=
  match span.get call.id with
  | some existing => st.pushToolResult existing
  | none =>
    { st with changed := true }.pushToolResult
      (makeMissingToolResult call.id call.name (clock st.out.length))

def hasInvalid (message : AiMessage) : Bool := !message.invalidToolCalls.isEmpty

def clearInvalid (message : AiMessage) : AiMessage := { message with invalidToolCalls := [] }

/-- The assistant messages that are put out without a look at their calls. -/
def passesThrough (message : AiMessage) : Bool :=
  message.status == some "error" || hasInvalid message

/-- The assistant, a result for each of its calls, and what is left of its span. -/
def putOut (clock : Nat → Int) (message : AiMessage) (calls : List ToolCallLike) (span : Span)
    (st : Repair) : Repair :=
  let changed := span.changed || (!span.results.isEmpty && !span.remainder.isEmpty)
  let st := calls.foldl (pushCall clock span) { st.push (.ai message) with changed }
  { st with out := st.out ++ span.remainder.map .tool }

/-- The loop over the messages. -/
def repairLoop (clock : Nat → Int) : List Message → Repair → Repair
  | [], st => st
  | .plain message :: rest, st => repairLoop clock rest (st.push (.plain message))
  | .tool message :: rest, st =>
    if message.content.truthy then repairLoop clock rest (st.push (.tool message))
    else repairLoop clock rest { st with changed := true }
  | .ai message :: rest, st =>
    if passesThrough message then
      if hasInvalid message then
        repairLoop clock rest { st.push (.ai (clearInvalid message)) with changed := true }
      else repairLoop clock rest (st.push (.ai message))
    else
      let calls := extractToolCalls message
      if calls.isEmpty then repairLoop clock rest (st.push (.ai message))
      else
        let scanned := scanSpan (calls.map (·.id)) st.seen rest { changed := st.changed }
        repairLoop clock scanned.2 (putOut clock message calls scanned.1 st)
  termination_by messages => messages.length
  decreasing_by
    all_goals first
      | exact Nat.lt_succ_self _
      | exact Nat.lt_succ_of_le (scanSpan_length _ _ _ _)

/-- The cleanup of tool messages that answer no call, and whether it dropped one. -/
def dropOrphans : (active : List String) → List Message → List Message × Bool
  | _, [] => ([], false)
  | _, .ai message :: rest =>
    let (cleaned, dropped) := dropOrphans ((extractToolCalls message).map (·.id)) rest
    (.ai message :: cleaned, dropped)
  | active, .tool message :: rest =>
    let (cleaned, dropped) := dropOrphans active rest
    match extractToolResultId message with
    | some id => if id ∈ active then (.tool message :: cleaned, dropped) else (cleaned, true)
    | none => (.tool message :: cleaned, dropped)
  | active, .plain message :: rest =>
    let (cleaned, dropped) := dropOrphans active rest
    (.plain message :: cleaned, dropped)

/-- A tool message without content. -/
def isEmptyResult : Message → Bool
  | .tool message => !message.content.truthy
  | _ => false

/-- `sanitize_tool_use_result_pairing`. -/
def sanitizeToolUseResultPairing (clock : Nat → Int) (messages : List Message) : List Message :=
  let filled := messages.any isEmptyResult
  let messages := if filled then messages.map fillMessage else messages
  let st := repairLoop clock messages { changed := filled }
  let (cleaned, dropped) := dropOrphans [] st.out
  if st.changed || dropped then cleaned else messages

end SherryAgent.Source.Transcript
