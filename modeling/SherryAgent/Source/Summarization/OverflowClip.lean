import SherryAgent.Source.Summarization.Estimate

/-!
# The overflow tail clip

`pub/func/message/overflow_clip.py`. The settings and the two functions of the token estimate are
arguments.
-/

namespace SherryAgent.Source.Summarization

open SherryAgent.Source SherryAgent.Source.Transcript SherryAgent.Source.FileTools

structure ClipConfig where
  enabled : Bool
  minKeep : Nat
  maxRemove : Nat
  estimateText : String → Nat
  str : Json → String

def clipMarker : String := "[overflow-clip]"

def evictionPrefix : String := "[evicted to: "

/-- `READ_FILE_SLICE_NOTICE.strip()`. -/
def readFileSliceNotice : String :=
  "[Output was truncated due to eviction threshold. Use read_file with offset and limit to " ++
    "retrieve specific portions.]"

/-- `_content_text`. -/
def contentJoined : Content → String
  | .text value => value
  | .blocks items => "\n".intercalate (items.filterMap blockText)

/-- `_is_text_block`. -/
def isTextual : Json → Bool
  | .str _ => true
  | .obj fields => isTextBlock (.obj fields)
  | _ => false

/-- `text.splitlines()`. -/
def textLines (text : List Char) : List (List Char) :=
  (splitLines text).map fun line => line.takeWhile fun c => !isLineBreak c

/-- `text.removesuffix("]")`. -/
def withoutBracket (text : List Char) : List Char :=
  if text.getLast? = some ']' then text.dropLast else text

/-- The path of a line that starts with the eviction prefix; it may be empty. -/
def pointedPath (line : List Char) : Option String :=
  if evictionPrefix.toList.isPrefixOf line then
    some (PyText.strip (String.ofList (withoutBracket (line.drop evictionPrefix.toList.length))))
  else none

/-- `_evicted_path`. -/
def evictedPath (text : String) : Option String :=
  match (textLines text.toList).findSome? pointedPath with
  | some path => if path = "" then none else some path
  | none => none

def stubHead (chars : Nat) : String :=
  clipMarker ++ " tool result shrunk from " ++ toString chars ++
    " chars to recover context overflow. The full output was persisted to session memory; " ++
    "use message_search to retrieve it."

/-- `_READ_FILE_HINT.format(path=path)`. -/
def readFileHint (path : String) : String :=
  "Use read_file(file_path='" ++ path ++ "', offset=0, limit=100) to read the full content."

def stubPointer (path : String) : String :=
  "\n" ++ evictionPrefix ++ path ++ "]\n" ++ readFileHint path

/-- `_build_stub_text`. -/
def buildStubText (text : String) : String :=
  stubHead text.toList.length ++ ((evictedPath text).map stubPointer).getD "" ++
    if PyText.contains readFileSliceNotice text then "\n" ++ readFileSliceNotice else ""

/-- `new_content`. -/
def stubContent (text : String) : Content → Content
  | .text _ => .text (buildStubText text)
  | .blocks items => .blocks (.obj [("type", .str "text"), ("text", .str (buildStubText text))] ::
      items.filter fun block => !isTextual block)

def stubOf (message : ToolMessage) : ToolMessage :=
  { message with content := stubContent (contentJoined message.content) message.content }

def toolTokens (config : ClipConfig) (message : ToolMessage) : Nat :=
  estimateMsgTokens config.estimateText config.str (.tool message)

/-- `_stubbed`. -/
def stubbed (config : ClipConfig) (message : ToolMessage) : Option ToolMessage :=
  if toolTokens config message ≤ toolTokens config (stubOf message) then none
  else some (stubOf message)

/-- The loop over the messages, newest first, with `freed_total` and `clipped`; the flag is
`changed`. -/
def clipFrom (config : ClipConfig) (targetTokens : Int) (freed : Int) (clipped : Nat) :
    List Message → List Message × Bool
  | .tool message :: older =>
    if PyText.contains clipMarker (contentJoined message.content) then
      (.tool message :: older, false)
    else
      match stubbed config message with
      | none =>
        let rest := clipFrom config targetTokens freed clipped older
        (.tool message :: rest.1, rest.2)
      | some stub =>
        let freedNow := freed + (toolTokens config message - toolTokens config stub)
        if config.maxRemove ≤ clipped + 1 ∨ (0 < targetTokens ∧ targetTokens ≤ freedNow) then
          (.tool stub :: older, true)
        else
          let rest := clipFrom config targetTokens freedNow (clipped + 1) older
          (.tool stub :: rest.1, true)
  | messages => (messages, false)

/-- `clip_overflow_tail`. -/
def clipOverflowTail (config : ClipConfig) (messages : List Message) (targetTokens : Int) :
    Option (List Message) :=
  if !config.enabled then none
  else if messages.length ≤ config.minKeep ∨ config.maxRemove = 0 then none
  else
    let result := clipFrom config targetTokens 0 0 messages.reverse
    if result.2 then some result.1.reverse else none

end SherryAgent.Source.Summarization
