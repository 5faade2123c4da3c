import Mathlib.Algebra.GroupWithZero.Nat
import SherryAgent.Source.FileTools.ReadFile
import SherryAgent.Source.PyText
import SherryAgent.Source.Summarization.Calls

/-!
# The token estimate and truncation by it

`pub/func/estimate_tokens.py`, with `count_cjk` of `pub/func/cjk.py` and the costs of
`config/features/agent_side/token_estimation.py`. The estimate of a text and `str(...)` of the
arguments of a call are arguments of the message estimates, and so is `usage_metadata`, which the
message model does not carry. `pub/func/message/token_truncation.py`: the float sums of
`_chars_for_tokens` add halves and quarters, so they are exact; tokens are counted in quarters here.
-/

namespace SherryAgent.Source.Summarization

open SherryAgent.Source SherryAgent.Source.Transcript
open SherryAgent.Source.FileTools (isCjkCodepoint)


/-! ## Texts -/

def charsPerToken : Nat := 4
def charsPerTokenCjk : Nat := 2

/-- `count_cjk`. -/
def countCjk (text : String) : Nat := text.toList.countP fun c => isCjkCodepoint c.toNat

/-- `estimate_text_tokens`. -/
def estimateTextTokens (text : String) : Nat :=
  countCjk text / charsPerTokenCjk + (text.toList.length - countCjk text) / charsPerToken

/-! ## Content blocks -/

def tokensPerImageBlock : Nat := 85
def tokensPerAudioBlock : Nat := 256
def tokensPerVideoBlock : Nat := 1024
def tokensPerUnknownBlock : Nat := 85

inductive MediaFamily where
  | image
  | audio
  | video
  | unknown

/-- `_FAMILY_TOKENS.get(family, TOKENS_PER_UNKNOWN_BLOCK)`. -/
def familyTokens : MediaFamily → Nat
  | .image => tokensPerImageBlock
  | .audio => tokensPerAudioBlock
  | .video => tokensPerVideoBlock
  | .unknown => tokensPerUnknownBlock

def dataPrefix : List Char := "data:".toList

/-- The family of a data URL: `candidate[5:].split(";", 1)[0].split(",", 1)[0].strip().lower()`. -/
def mimeFamily (candidate : String) : MediaFamily :=
  let head := (candidate.toList.drop dataPrefix.length).takeWhile fun c => c != ';' && c != ','
  let mime := PyText.lower (PyText.strip (String.ofList head))
  if "image/".toList.isPrefixOf mime.toList then .image
  else if "audio/".toList.isPrefixOf mime.toList then .audio
  else if "video/".toList.isPrefixOf mime.toList then .video
  else .unknown

/-- The URL under a key: the value itself or the `url` of a dict. -/
def urlAt (block : Json) (key : String) : Option String :=
  match block.get key with
  | .str value => some value
  | .obj fields =>
    match (Json.obj fields).get "url" with
    | .str value => some value
    | _ => none
  | _ => none

/-- `_data_url_family`. -/
def dataUrlFamily (block : Json) : Option MediaFamily :=
  let candidates := ["url", "image_url", "audio_url", "video_url"].filterMap (urlAt block)
  match candidates.find? fun candidate => dataPrefix.isPrefixOf candidate.toList with
  | some candidate => some (mimeFamily candidate)
  | none =>
    match block.get "base64" with
    | .str value => if PyText.strip value = "" then none else some .unknown
    | _ => none

/-- `classify_media_family`. -/
def classifyMediaFamily (block : Json) : Option MediaFamily :=
  match block.get "type" with
  | .str kind =>
    if kind ∈ ["image", "image_url", "input_image"] then some .image
    else if kind ∈ ["audio", "audio_url", "audio_bytes", "input_audio"] then some .audio
    else if kind ∈ ["video", "video_url", "video_bytes"] then some .video
    else dataUrlFamily block
  | _ => dataUrlFamily block

/-- `block.get("type") == "text"`. -/
def isTextBlock (block : Json) : Bool :=
  match block.get "type" with
  | .str kind => kind == "text"
  | _ => false

/-- What a block adds to `text_parts`. -/
def blockText : Json → Option String
  | .str value => some value
  | .obj fields =>
    if isTextBlock (.obj fields) then
      match (Json.obj fields).get "text" with
      | .str value => some value
      | _ => none
    else none
  | _ => none

/-- What a block adds to `fixed_tokens`. -/
def blockTokens : Json → Nat
  | .str _ => 0
  | .obj fields =>
    if isTextBlock (.obj fields) then 0
    else ((classifyMediaFamily (.obj fields)).map familyTokens).getD tokensPerUnknownBlock
  | _ => tokensPerUnknownBlock

/-- `estimate_content_tokens`. -/
def estimateContentTokens (estimateText : String → Nat) : Content → Nat
  | .text value => estimateText value
  | .blocks items =>
    let textParts := items.filterMap blockText
    (items.map blockTokens).sum +
      if textParts = [] then 0 else estimateText ("\n".intercalate textParts)

/-! ## Messages -/

/-- What a tool call adds to the estimate of its message. -/
def callTokens (estimateText : String → Nat) (str : Json → String) (call : Json) : Nat :=
  estimateText (callName call) + estimateText (str (getOr call "args" (.str "")))

/-- `estimate_msg_tokens`. -/
def estimateMsgTokens (estimateText : String → Nat) (str : Json → String) : Message → Nat
  | .plain message => estimateContentTokens estimateText message.content
  | .ai message =>
    estimateContentTokens estimateText message.content +
      (message.toolCalls.map (callTokens estimateText str)).sum
  | .tool message =>
    estimateContentTokens estimateText message.content +
      if message.toolCallId = "" then 0 else estimateText message.toolCallId

/-- `sum(estimate_msg_tokens(m) for m in messages)`. -/
def localTokens (estimateText : String → Nat) (str : Json → String) (messages : List Message) :
    Nat :=
  (messages.map (estimateMsgTokens estimateText str)).sum

/-- An `int` under a key that is greater than 0. -/
def positiveCount (usage : Json) (key : String) : Option Nat :=
  match usage.get key with
  | .int value => if 0 < value then some value.toNat else none
  | _ => none

/-- The `AIMessage` branch of `extract_reported_tokens`. -/
def reportedTokens (usage : Json) : Option Nat :=
  (positiveCount usage "input_tokens").or (positiveCount usage "total_tokens")

/-- `extract_reported_tokens`: only the last assistant message is asked. -/
def extractReportedTokens (usageMetadata : AiMessage → Json) (messages : List Message) :
    Option Nat :=
  (messages.reverse.findSome? fun message =>
    match message with
    | .ai message => some message
    | _ => none).bind fun message => reportedTokens (usageMetadata message)

/-- `estimate_messages_tokens(messages)`. -/
def estimateMessagesTokens (estimateText : String → Nat) (str : Json → String)
    (usageMetadata : AiMessage → Json) (messages : List Message) : Nat :=
  (extractReportedTokens usageMetadata messages).getD (localTokens estimateText str messages)

/-- `_estimate_tokens` of the compressor. -/
def estimateTokens (str : Json → String) (usageMetadata : AiMessage → Json)
    (messages : List Message) : Nat :=
  estimateMessagesTokens estimateTextTokens str usageMetadata messages

/-! ## Truncation by a token budget -/

/-- What a character costs: `1 / chars_per_token_cjk` or `1 / chars_per_token`, in quarters. -/
def charQuarters (c : Char) : Nat := if isCjkCodepoint c.toNat then 2 else 1

/-- `_chars_for_tokens`, with what is left of the target. -/
def charsForTokens : (targetQuarters : Nat) → List Char → Nat
  | 0, _ => 0
  | _, [] => 0
  | target + 1, c :: rest => charsForTokens (target + 1 - charQuarters c) rest + 1

/-- The marker of `truncate_by_tokens`, in front of the number of characters. -/
def omissionMarker : String := "...[truncated "

/-- `omission_template.format(omitted=omitted)`. -/
def omissionNotice (omitted : Nat) : String :=
  omissionMarker ++ toString omitted ++ " chars]..."

/-- The head and the tail that a clip keeps, with the number of characters between them. -/
structure Clip where
  head : List Char
  tail : List Char
  omitted : Nat

/-- The two slices, which never overlap. -/
def clipText (headQuarters tailQuarters : Nat) (text : List Char) : Clip :=
  let headChars := charsForTokens headQuarters text
  let tailChars := min (charsForTokens tailQuarters text.reverse) (text.length - headChars)
  { head := text.take headChars
    tail := text.drop (text.length - tailChars)
    omitted := text.length - headChars - tailChars }

/-- `truncate_by_tokens`. -/
def truncateByTokens (maxTokens headQuarters tailQuarters : Nat) (text : String) : String :=
  if maxTokens = 0 ∨ estimateTextTokens text ≤ maxTokens then text
  else
    let clip := clipText headQuarters tailQuarters text.toList
    String.ofList clip.head ++ omissionNotice clip.omitted ++ String.ofList clip.tail

end SherryAgent.Source.Summarization
