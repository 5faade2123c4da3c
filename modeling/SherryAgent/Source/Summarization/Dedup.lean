import Mathlib.Algebra.GroupWithZero.Nat
import Mathlib.Algebra.Order.Group.Int
import SherryAgent.Source.Summarization.Calls

/-!
# Deduplication and microcompaction of tool outputs

`pub/func/message/tool_output_dedup.py`. The two dicts are read off the list of the calls that have
an id, in the order of the messages; `md5` is the hex digest of a value's JSON text and
`estimateText` the token estimate of a text. `agent/middlewares/summarization/microcompact.py`: the
token estimate of a message and `int(threshold * microcompact_threshold_ratio)` are arguments; the two
times are whole milliseconds.
-/

namespace SherryAgent.Source.Summarization

open SherryAgent.Source SherryAgent.Source.Transcript

mutual

/-- The value as `json.dumps(..., sort_keys=True)` writes it. -/
def sortKeys : Json → Json
  | .arr items => .arr (sortItems items)
  | .obj items => .obj ((sortFields items).mergeSort fun a b => decide (a.1 ≤ b.1))
  | .null => .null
  | .bool value => .bool value
  | .int value => .int value
  | .float repr => .float repr
  | .str value => .str value

def sortItems : List Json → List Json
  | [] => []
  | item :: rest => sortKeys item :: sortItems rest

def sortFields : List (String × Json) → List (String × Json)
  | [] => []
  | (key, value) :: rest => (key, sortKeys value) :: sortFields rest

end

/-- `_tool_signature`. -/
def toolSignature (md5 : Json → String) (call : Json) : String :=
  callName call ++ "::" ++ md5 (sortKeys (callArgs call))

/-- `sig.split("::")[0]`. -/
def beforeColons : List Char → List Char
  | ':' :: ':' :: _ => []
  | c :: rest => c :: beforeColons rest
  | [] => []

def duplicatePlaceholder (sig : String) : String :=
  "[Duplicated call to " ++ String.ofList (beforeColons sig.toList) ++
    " - output cleared, see latest result]"

/-- The id and the signature of a call that is recorded. -/
def recordedCall (md5 : Json → String) (isProtected : List String) (call : Json) :
    Option (String × String) :=
  if callName call ∈ isProtected then none
  else
    match callId call with
    | some id => if id = "" then none else some (id, toolSignature md5 call)
    | none => none

/-- The calls that fill `tc_id_to_sig` and `sig_to_tc_ids`. -/
def recordedCalls (md5 : Json → String) (isProtected : List String) (messages : List Message) :
    List (String × String) :=
  messages.flatMap fun message =>
    match message with
    | .ai message => message.toolCalls.filterMap (recordedCall md5 isProtected)
    | _ => []

/-- `tc_id_to_sig.get(tc_id)`. -/
def tcIdToSig (calls : List (String × String)) (tcId : String) : Option String :=
  (calls.reverse.find? (·.1 == tcId)).map (·.2)

/-- `sig_to_tc_ids[sig]`. -/
def sigToTcIds (calls : List (String × String)) (sig : String) : List String :=
  (calls.filter (·.2 == sig)).map (·.1)

/-- `sig in sigs_with_dupes`. -/
def hasDupes (calls : List (String × String)) (sig : String) : Bool :=
  decide (1 < (sigToTcIds calls sig).length)

/-- `keep_tc_ids`. -/
def keepTcIds (calls : List (String × String)) : List String :=
  calls.filterMap fun call =>
    if hasDupes calls call.2 then (sigToTcIds calls call.2).getLast? else none

/-- The placeholder that `to_replace` holds for a message. -/
def placeholderFor (calls : List (String × String)) : Message → Option String
  | .tool message =>
    match tcIdToSig calls message.toolCallId with
    | none => none
    | some sig =>
      if !hasDupes calls sig then none
      else if message.toolCallId ∈ keepTcIds calls then none
      else some (duplicatePlaceholder sig)
  | _ => none

/-- `message.model_copy(update={"content": text})` of a tool result. -/
def withContent (text : String) : Message → Message
  | .tool message => .tool { message with content := .text text }
  | message => message

/-- The message in the result of the pass. -/
def dedupMessage (calls : List (String × String)) (message : Message) : Message :=
  match placeholderFor calls message with
  | some placeholder => withContent placeholder message
  | none => message

/-- What a message adds to `tokens_reduced`. -/
def dedupReduced (estimateText : String → Nat) (calls : List (String × String)) :
    Message → Int
  | .tool message =>
    match placeholderFor calls (.tool message) with
    | some placeholder =>
      if placeholder.length < (contentStr message.content).length then
        estimateText (contentStr message.content) - estimateText placeholder
      else 0
    | none => 0
  | _ => 0

/-- `DEFAULT_PROTECTED_TOOLS`. -/
def dedupDefaultProtectedTools : List String := []

/-- `protected_tools or DEFAULT_PROTECTED_TOOLS`. -/
def dedupProtected (protectedTools : List String) : List String :=
  if protectedTools.isEmpty then dedupDefaultProtectedTools else protectedTools

/-- `dedup_tool_outputs`. -/
def dedupToolOutputs (md5 : Json → String) (estimateText : String → Nat)
    (protectedTools : List String) (messages : List Message) : List Message × Int :=
  let calls := recordedCalls md5 (dedupProtected protectedTools) messages
  (messages.map (dedupMessage calls), (messages.map (dedupReduced estimateText calls)).sum)

/-! ## Microcompaction -/

def clearedMarker : String := "[Old tool result content cleared]"

/-- The arguments of `maybe_local_microcompact` and the settings. -/
structure MicroConfig where
  enabled : Bool := true
  keepRecent : Nat := 5
  idleMs : Int := 3600000
  minSavings : Int := 256
  atRatio : Int → Int
  bufferTokens : Int := 2000
  compactable : List String
  autoCompactThreshold : Int
  lastCompletedAtMs : Option Int := none
  nowMs : Option Int := none

def mediaBlockTypes : List String :=
  ["image", "image_url", "input_image", "video", "video_url", "audio", "input_audio", "file",
    "input_file"]

/-- A block of media: its type, or a key that ends in `_url`. -/
def isMediaBlock : Json → Bool
  | .obj fields =>
    (match (Json.obj fields).get "type" with
      | .str kind => mediaBlockTypes.contains kind
      | _ => false) || fields.any fun field => "_url".toList.isSuffixOf field.1.toList
  | _ => false

/-- `_has_media`. -/
def hasMedia : Content → Bool
  | .text _ => false
  | .blocks items => items.any isMediaBlock

/-- `CLEARED_MARKER in text`. -/
def hasMarker (text : String) : Bool :=
  text.toList.tails.any fun tail => clearedMarker.toList.isPrefixOf tail

def isClearedBlock : Json → Bool
  | .obj fields =>
    (match (Json.obj fields).get "type" with
      | .str kind => kind == "text"
      | _ => false) && hasMarker (getOr (.obj fields) "text" (.str "")).pyStr
  | _ => false

/-- `_is_cleared`. -/
def isCleared : Content → Bool
  | .text value => hasMarker value
  | .blocks items => items.any isClearedBlock

/-- The idle time is over. -/
def idleLongEnough (config : MicroConfig) : Bool :=
  match config.lastCompletedAtMs, config.nowMs with
  | some last, some now => decide (config.idleMs ≤ now - last)
  | _, _ => false

/-- `resolve_microcompact_trigger` is not `None`. -/
def microcompactTriggered (estimateMsg : Message → Nat) (config : MicroConfig)
    (messages : List Message) : Bool :=
  if idleLongEnough config then true
  else if config.autoCompactThreshold ≤ 0 then false
  else
    decide (min (config.atRatio config.autoCompactThreshold)
      (max 0 (config.autoCompactThreshold - config.bufferTokens)) ≤ (messages.map estimateMsg).sum)

/-- The loop replaces the content of the message. -/
def compacts (config : MicroConfig) : Message → Bool
  | .tool message =>
    config.compactable.contains (message.name.getD "") && !hasMedia message.content &&
      !isCleared message.content
  | _ => false

/-- The message in `updated`. -/
def compactMessage (config : MicroConfig) (message : Message) : Message :=
  if compacts config message then withContent clearedMarker message else message

/-- What the message adds to `saved`. -/
def compactSaving (estimateMsg : Message → Nat) (config : MicroConfig) (message : Message) : Int :=
  if compacts config message then
    max 0 ((estimateMsg message : Int) - estimateMsg (withContent clearedMarker message))
  else 0

/-- The messages in front of `keep_from`. -/
def microcompactOlder (config : MicroConfig) (messages : List Message) : List Message :=
  messages.take (messages.length - config.keepRecent)

/-- `saved`. -/
def microcompactSaved (estimateMsg : Message → Nat) (config : MicroConfig)
    (messages : List Message) : Int :=
  ((microcompactOlder config messages).map (compactSaving estimateMsg config)).sum

/-- The messages are returned as they are. -/
def microcompactDiscards (estimateMsg : Message → Nat) (config : MicroConfig)
    (messages : List Message) : Bool :=
  !config.enabled || messages.isEmpty || !microcompactTriggered estimateMsg config messages ||
    decide (microcompactSaved estimateMsg config messages < config.minSavings)

/-- `maybe_local_microcompact`. -/
def maybeLocalMicrocompact (estimateMsg : Message → Nat) (config : MicroConfig)
    (messages : List Message) : List Message × Int :=
  if microcompactDiscards estimateMsg config messages then (messages, 0)
  else
    ((microcompactOlder config messages).map (compactMessage config) ++
      messages.drop (messages.length - config.keepRecent),
      microcompactSaved estimateMsg config messages)

end SherryAgent.Source.Summarization
