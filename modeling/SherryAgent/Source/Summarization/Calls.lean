import Mathlib.Algebra.Ring.Int.Defs
import SherryAgent.Source.Json
import SherryAgent.Source.Transcript.Messages

/-!
# Tool calls as the reduction passes read and truncate them

The dict of a tool call, and `_find_tool_call` of `pub/func/message/target_truncation.py`
(`_find_tool_name` of `tool_output_prune.py` is its name). LangChain types the name of a call as a
string and its id as a string or `None`. `pub/func/message/tool_args_truncate.py`: `headChars` and
`tailChars` are `int(max_args_chars * head_ratio)` and `int(max_args_chars * tail_ratio)`; both may be
any integer.
-/

namespace SherryAgent.Source.Summarization

open SherryAgent.Source SherryAgent.Source.Transcript

/-- `entry.get(key, default)` of a dict. -/
def getOr (entry : Json) (key : String) (default : Json) : Json :=
  match entry with
  | .obj items => ((items.find? fun item => item.1 == key).map (·.2)).getD default
  | _ => default

/-- `tc.get("name", "")`. -/
def callName (call : Json) : String := (getOr call "name" (.str "")).pyStr

/-- `tc.get("args", {})`. -/
def callArgs (call : Json) : Json := getOr call "args" (.obj [])

/-- `tc.get("id")`. -/
def callId (call : Json) : Option String :=
  match call.get "id" with
  | .str value => some value
  | _ => none

/-- `str(message.content)`. -/
def contentStr : Content → String
  | .text value => value
  | .blocks items => (Json.arr items).pyStr

/-- `_find_tool_call`: the nearest assistant message before the index that calls the id. -/
def findToolCall (messages : List Message) (targetIdx : Nat) (tcId : String) : Option Json :=
  if tcId = "" then none
  else
    (messages.take targetIdx).reverse.findSome? fun message =>
      match message with
      | .ai message => message.toolCalls.find? fun call => callId call == some tcId
      | _ => none

/-- `_find_tool_name`. -/
def findToolName (messages : List Message) (targetIdx : Nat) (tcId : String) : String :=
  ((findToolCall messages targetIdx tcId).map callName).getD ""

/-! ## Truncation of the arguments -/

/-- The arguments of `truncate_tool_args`. -/
structure ArgsConfig where
  headChars : Int
  tailChars : Int
  minArgsChars : Int
  protectedTools : List String
  skipRecent : Nat

/-- `text[:stop]`. -/
def sliceTo (stop : Int) (text : List Char) : List Char :=
  if 0 ≤ stop then text.take stop.toNat else text.take (text.length - (-stop).toNat)

/-- `text[start:]`. -/
def sliceFrom (start : Int) (text : List Char) : List Char :=
  if 0 ≤ start then text.drop start.toNat else text.drop (text.length - (-start).toNat)

/-- The kept slices of `_truncate_args_str`, with its `omitted`. -/
def argsHead (config : ArgsConfig) (argsStr : List Char) : List Char :=
  sliceTo config.headChars argsStr

def argsTail (config : ArgsConfig) (argsStr : List Char) : List Char :=
  sliceFrom (-config.tailChars) argsStr

def argsOmitted (config : ArgsConfig) (argsStr : List Char) : Int :=
  argsStr.length - (argsHead config argsStr).length - (argsTail config argsStr).length

/-- `_ARGS_OMISSION_TEMPLATE`. -/
def argsNotice (omitted : Int) : String :=
  "...[args truncated, omitted " ++ toString omitted ++ " chars]..."

/-- `_truncate_args_str`. -/
def truncateArgsStr (config : ArgsConfig) (argsStr : List Char) : List Char :=
  argsHead config argsStr ++ (argsNotice (argsOmitted config argsStr)).toList ++
    argsTail config argsStr

/-- The `args_str` of a call. -/
def argsStr (call : Json) : List Char := (callArgs call).dumps.toList

/-- `{"_truncated_args": truncated}`. -/
def truncatedArgs (config : ArgsConfig) (call : Json) : Json :=
  .obj [("_truncated_args", .str (String.ofList (truncateArgsStr config (argsStr call))))]

/-- The call is not protected and its arguments are long enough. -/
def rewrites (config : ArgsConfig) (call : Json) : Bool :=
  !config.protectedTools.contains (callName call) &&
    decide (config.minArgsChars < (argsStr call).length)

/-- `{**tc, "args": new_args}`. -/
def withArgs (newArgs : Json) : Json → Json
  | .obj fields => .obj (setField "args" newArgs fields)
  | _ => .obj [("args", newArgs)]

/-- The call in `new_tcs`. -/
def truncateCall (config : ArgsConfig) (call : Json) : Json :=
  if rewrites config call then withArgs (truncatedArgs config call) call else call

/-- What the call adds to `freed_total`. -/
def freedTokens (estimateText : String → Nat) (config : ArgsConfig) (call : Json) : Int :=
  if rewrites config call then
    max ((estimateText (callArgs call).dumps : Int) -
      estimateText (truncatedArgs config call).dumps) 0
  else 0

/-- The message in the result; without a rewritten call it is the same message. -/
def truncateCalls (config : ArgsConfig) : Message → Message
  | .ai message => .ai { message with toolCalls := message.toolCalls.map (truncateCall config) }
  | message => message

def messageFreed (estimateText : String → Nat) (config : ArgsConfig) : Message → Int
  | .ai message => (message.toolCalls.map (freedTokens estimateText config)).sum
  | _ => 0

/-- `keep_until`. -/
def keepUntil (config : ArgsConfig) (messages : List Message) : Nat :=
  messages.length - config.skipRecent

/-- `truncate_tool_args`. -/
def truncateToolArgs (estimateText : String → Nat) (config : ArgsConfig)
    (messages : List Message) : List Message × Int :=
  let older := messages.take (keepUntil config messages)
  (older.map (truncateCalls config) ++ messages.drop (keepUntil config messages),
    (older.map (messageFreed estimateText config)).sum)

/-- The arguments with which the compaction pipeline calls it. -/
def pipelineArgsConfig : ArgsConfig :=
  { headChars := 600, tailChars := 600, minArgsChars := 500
    protectedTools := ["memory", "skill_view", "skill_list"], skipRecent := 6 }

end SherryAgent.Source.Summarization
