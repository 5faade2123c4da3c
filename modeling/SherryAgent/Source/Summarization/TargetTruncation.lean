import Mathlib.Data.List.Sort
import SherryAgent.Library.StrictJson
import SherryAgent.Source.Summarization.Dedup
import SherryAgent.Source.Summarization.Estimate

/-!
# Targeted truncation of tool outputs

`pub/func/message/target_truncation.py`. The token estimate of a text and the decimal digits of `\d`
with their values are arguments; line numbers of more digits than `int` takes are left out. The
products of the token budget with the two ratios are given in quarters of a token.
-/

namespace SherryAgent.Source.Summarization

open SherryAgent.Source SherryAgent.Source.Transcript SherryAgent.Library

/-- The arguments of `target_truncate_tool_outputs` and its constants. -/
structure TargetConfig where
  targetReductionTokens : Int
  minOutputChars : Nat := 500
  maxOutputTokens : Nat := 500
  protectedTools : List String := []
  headQuarters : Nat := 600
  tailQuarters : Nat := 600
  continueLimit : Nat := 500
  digitValue : Nat → Option Nat := fun _ => none

/-! ## Reads of files -/

/-- `json.loads(content)`, when it is a dict. -/
def payloadOf (content : List Char) : Option (List (List Nat × StrictJson.Value)) :=
  match StrictJson.loads content with
  | some (.obj entries) => some entries
  | _ => none

def codePoints (text : String) : List Nat := text.toList.map Char.toNat

/-- `_read_file_arg`. -/
def readFileArg (call : Option Json) : Option String :=
  match call with
  | none => none
  | some call =>
    if callName call = "read_file" then
      match call.get "args" with
      | .obj args =>
        match (Json.obj args).get "file_path" with
        | .str path => if path = "" then none else some path
        | _ => none
      | _ => none
    else none

/-- `_read_file_is_self_truncated`. -/
def readFileIsSelfTruncated (content : List Char) : Bool :=
  match (payloadOf content).bind fun payload => StrictJson.lookup payload (codePoints "truncated") with
  | some (.scalar word) => word == "true".toList
  | _ => false

/-- `_JSON_TWO_CHAR_ESCAPES`, with the letter of each. -/
def shortEscape (point : Nat) : Option Nat :=
  if point = 0x22 ∨ point = 0x5C then some point
  else if point = 0x0A then some 'n'.toNat
  else if point = 0x0D then some 'r'.toNat
  else if point = 0x09 then some 't'.toNat
  else if point = 0x08 then some 'b'.toNat
  else if point = 0x0C then some 'f'.toNat
  else none

/-- A code point as `json.dumps` with `ensure_ascii=False` writes it. -/
def escapePoint (point : Nat) : List Nat :=
  match shortEscape point with
  | some letter => [0x5C, letter]
  | none =>
    if point < 0x20 then
      [0x5C, 'u'.toNat, 0x30, 0x30, (Nat.digitChar (point / 0x10)).toNat,
        (Nat.digitChar (point % 0x10)).toNat]
    else [point]

/-- `_json_escaped_width`. -/
def jsonEscapedWidth (point : Nat) : Nat :=
  if (shortEscape point).isSome then 2 else if point < 0x20 then 6 else 1

/-- `text.find(part)`. -/
def findPart (part : List Nat) : List Nat → Option Nat
  | [] => if part.isEmpty then some 0 else none
  | point :: rest =>
    if part.isPrefixOf (point :: rest) then some 0 else (findPart part rest).map (· + 1)

/-- The number of a match of `(\d+)\|` at the start. -/
def firstLineNumber (digitValue : Nat → Option Nat) (inner : List Nat) : Option Nat :=
  let digits := inner.takeWhile fun point => (digitValue point).isSome
  if digits.isEmpty then none
  else
    match inner.drop digits.length with
    | bar :: _ =>
      if bar = 0x7C then some ((digits.filterMap digitValue).foldl (10 * · + ·) 0) else none
    | [] => none

/-- The line breaks that are whole in the head, when the text starts at `pos`. -/
def lineBreaksWithin (headChars : Nat) : (pos : Nat) → List Nat → Nat
  | _, [] => 0
  | pos, point :: rest =>
    if headChars < pos + jsonEscapedWidth point then 0
    else
      lineBreaksWithin headChars (pos + jsonEscapedWidth point) rest +
        if point = 0x0A then 1 else 0

/-- `_read_file_next_offset`. -/
def readFileNextOffset (digitValue : Nat → Option Nat) (content : List Char) (headChars : Nat) :
    Option Nat :=
  match (payloadOf content).bind fun payload => StrictJson.lookup payload (codePoints "content") with
  | some (.str inner) =>
    if inner.isEmpty then none
    else
      match firstLineNumber digitValue inner with
      | none => none
      | some first =>
        match findPart (inner.flatMap escapePoint) (content.map Char.toNat) with
        | none => none
        | some pos => some (first + lineBreaksWithin headChars pos inner)
  | _ => none

/-- The two notices. -/
def readFileNotice (omitted : Nat) (path : String) (limit : Nat) : Option Nat → String
  | some offset =>
    "...[truncated " ++ toString omitted ++
      " chars of read_file output; the file is unchanged on disk. Use offset=" ++ toString offset ++
      " to continue reading: read_file(file_path='" ++ path ++ "', offset=" ++ toString offset ++
      ", limit=" ++ toString limit ++ ").]..."
  | none =>
    "...[truncated " ++ toString omitted ++
      " chars of read_file output; the file is unchanged on disk. Re-read it from the start in " ++
      "chunks. Use offset=1 to continue reading: read_file(file_path='" ++ path ++
      "', offset=1, limit=" ++ toString limit ++ ").]..."

/-- `_truncate_read_file_content`. -/
def truncateReadFileContent (config : TargetConfig) (content path : String) : String :=
  let clip := clipText config.headQuarters config.tailQuarters content.toList
  let offset := readFileNextOffset config.digitValue content.toList clip.head.length
  String.ofList clip.head ++ readFileNotice clip.omitted path config.continueLimit offset ++
    String.ofList clip.tail

/-! ## The pass -/

/-- `_truncate_content`: `truncate_by_tokens` with the estimate as an argument. -/
def truncateContent (estimateText : String → Nat) (config : TargetConfig) (content : String) :
    String :=
  if config.maxOutputTokens = 0 ∨ estimateText content ≤ config.maxOutputTokens then content
  else
    let clip := clipText config.headQuarters config.tailQuarters content.toList
    String.ofList clip.head ++ omissionNotice clip.omitted ++ String.ofList clip.tail

theorem truncateContent_eq (config : TargetConfig) (content : String) :
    truncateContent estimateTextTokens config content =
      truncateByTokens config.maxOutputTokens config.headQuarters config.tailQuarters content := rfl

/-- An element of `candidates`. -/
structure Candidate where
  idx : Nat
  content : String
  call : Option Json

def candidateOf (config : TargetConfig) (messages : List Message) (entry : Message × Nat) :
    Option Candidate :=
  match entry.1 with
  | .tool message =>
    let content := contentStr message.content
    if content.toList.length < config.minOutputChars then none
    else if findToolName messages entry.2 message.toolCallId ∈ config.protectedTools then none
    else some { idx := entry.2, content, call := findToolCall messages entry.2 message.toolCallId }
  | _ => none

/-- `candidates`, the longest first. -/
def candidatesOf (config : TargetConfig) (messages : List Message) : List Candidate :=
  (messages.zipIdx.filterMap (candidateOf config messages)).mergeSort fun first second =>
    decide (second.content.toList.length ≤ first.content.toList.length)

/-- What the loop writes for a candidate, if it does not go on. -/
def truncatedText (estimateText : String → Nat) (config : TargetConfig) (candidate : Candidate) :
    Option String :=
  match readFileArg candidate.call with
  | some path =>
    if config.maxOutputTokens * 4 < candidate.content.toList.length then
      if readFileIsSelfTruncated candidate.content.toList then none
      else some (truncateReadFileContent config candidate.content path)
    else some (truncateContent estimateText config candidate.content)
  | none => some (truncateContent estimateText config candidate.content)

/-- `max(reduced_tokens, 0)`. -/
def truncatedSaving (estimateText : String → Nat) (written : Candidate × String) : Int :=
  max ((estimateText written.1.content : Int) - estimateText written.2) 0

/-- The loop: what it writes, until `total_reduced` is at the target. -/
def truncateLoop (estimateText : String → Nat) (config : TargetConfig) (totalReduced : Int) :
    List Candidate → List (Candidate × String)
  | [] => []
  | candidate :: rest =>
    if config.targetReductionTokens ≤ totalReduced then []
    else
      match truncatedText estimateText config candidate with
      | none => truncateLoop estimateText config totalReduced rest
      | some text =>
        (candidate, text) :: truncateLoop estimateText config
          (totalReduced + truncatedSaving estimateText (candidate, text)) rest

/-- The message in the result. -/
def writeBack (written : List (Candidate × String)) (index : Nat) (message : Message) : Message :=
  match written.find? fun entry => entry.1.idx == index with
  | some entry => withContent entry.2 message
  | none => message

/-- `target_truncate_tool_outputs`. -/
def targetTruncateToolOutputs (estimateText : String → Nat) (config : TargetConfig)
    (messages : List Message) : List Message × Int :=
  let written := truncateLoop estimateText config 0 (candidatesOf config messages)
  (messages.mapIdx (writeBack written), (written.map (truncatedSaving estimateText)).sum)

end SherryAgent.Source.Summarization
