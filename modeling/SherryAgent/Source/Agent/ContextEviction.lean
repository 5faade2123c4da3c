import Mathlib.Data.List.Infix
import SherryAgent.Source.FileTools.ReadFile
import SherryAgent.Source.Json

/-!
# The model's view of a read

`pub/func/message/eviction.py` and `agent/middlewares/context_eviction/core.py`, for the results
of `read_file`: the JSON text of an answer and the slice of it that the conversation keeps.
`json.loads` is a parameter. A text is the list of its characters.
-/

namespace SherryAgent.Source.Agent

open SherryAgent.Source SherryAgent.Source.FileTools

/-! ## JSON text -/

def hexDigit (value : Nat) : Char := if value < 10 then Char.ofNat (48 + value) else Char.ofNat (87 + value)

/-- A character in a string of `json.dumps(..., ensure_ascii=False)`. -/
def jsonChar (c : Char) : List Char :=
  if c = '"' then ['\\', '"']
  else if c = '\\' then ['\\', '\\']
  else if c = '\n' then ['\\', 'n']
  else if c = '\r' then ['\\', 'r']
  else if c = '\t' then ['\\', 't']
  else if c.toNat = 8 then ['\\', 'b']
  else if c.toNat = 12 then ['\\', 'f']
  else if c.toNat < 32 then ['\\', 'u', '0', '0', hexDigit (c.toNat / 16), hexDigit (c.toNat % 16)]
  else [c]

def jsonChars (text : List Char) : List Char := text.flatMap jsonChar

def jsonBool (value : Bool) : String := if value then "true" else "false"

/-- The text before the content of a page. -/
def contentOpening : List Char := "\x7b\"content\": \"".toList

/-- The text behind the content of a page. -/
def contentClosing (totalLines fileSize : Nat) (truncated truncatedByTokenCap : Bool)
    (more : List Char) : List Char :=
  (s!"\", \"total_lines\": {totalLines}, \"file_size\": {fileSize}, " ++
    s!"\"truncated\": {jsonBool truncated}, " ++
    s!"\"truncated_by_token_cap\": {jsonBool truncatedByTokenCap}").toList ++ more ++ ['\x7d']

/-- `_UNCHANGED_STUB`. -/
def unchangedStub : String :=
  "[File unchanged since your last read — its content is already in this " ++
  "conversation. Do not re-read the whole file; read a specific range with " ++
  "offset/limit if you need to re-check part of it.]"

/-- The JSON text of an answer with a content; the errors carry none. -/
def answerText : ReadResult → Option (List Char)
  | .page content totalLines fileSize truncated truncatedByTokenCap hint =>
    some <| contentOpening ++ jsonChars content ++
      contentClosing totalLines fileSize truncated truncatedByTokenCap
        (match hint with
          | some hint => ", \"hint\": \"".toList ++ jsonChars hint.toList ++ ['"']
          | none => [])
  | .unchanged totalLines fileSize =>
    some <| contentOpening ++ jsonChars unchangedStub.toList ++
      contentClosing totalLines fileSize false false ", \"unchanged\": true".toList
  | _ => none

/-! ## Slices -/

/-- `_READ_FILE_SLICE_CHARS`. -/
def readFileSliceChars : Nat := 4000

/-- `_READ_FILE_SLICE_NOTICE`. -/
def readFileSliceNotice : String :=
  "\n\n[Output was truncated due to eviction threshold. " ++
  "Use read_file with offset and limit to retrieve specific portions.]"

/-- `_read_file_is_self_truncated`. -/
def readFileIsSelfTruncated (loads : List Char → Option Json) (content : List Char) : Bool :=
  match loads content with
  | some (.obj items) =>
    match (Json.obj items).get "truncated" with
    | .bool value => value
    | _ => false
  | _ => false

/-- `slice_read_file_result`, by the content of the message. -/
def sliceReadFileResult (loads : List Char → Option Json) (content : List Char) : List Char :=
  if content.length ≤ readFileSliceChars || decide (readFileSliceNotice.toList <:+: content) ||
      readFileIsSelfTruncated loads content then content
  else content.take readFileSliceChars ++ readFileSliceNotice.toList

/-- `_maybe_evict` of a result of `read_file`: what enters the conversation. -/
def shownText (loads : List Char → Option Json) (result : ReadResult) : Option (List Char) :=
  (answerText result).map (sliceReadFileResult loads)

end SherryAgent.Source.Agent
