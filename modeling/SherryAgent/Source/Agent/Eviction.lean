import SherryAgent.Library.FileTree
import SherryAgent.Source.FileTools.ReadFile
import SherryAgent.Source.PyText

/-!
# Evicted messages (`pub/func/message/eviction.py`)

An oversized tool result or user message goes to a file, and the message keeps a pointer to it.
Texts are lists of characters; paths and text files are those of POSIX, where a text written is kept
as it is and a text read has its newlines translated.
-/

namespace SherryAgent.Source.Agent

open SherryAgent.Library SherryAgent.Source SherryAgent.Source.FileTools

/-! ## Paths and text files -/

/-- The names in a path: neither empty nor a dot. -/
def pathNames (path : List Char) : NamePath :=
  (path.splitOnP (· == '/')).filter fun name => name != [] && name != ['.']

/-- `directory / name`: an absolute name replaces the directory. -/
def joinPath (directory : NamePath) (name : List Char) : NamePath :=
  if name.head? = some '/' then pathNames name else directory ++ pathNames name

/-- `str(path)`. -/
def pathText (path : NamePath) : List Char := path.flatMap fun name => '/' :: name

/-- The universal newlines of a text file that is read; `returned` says that the last character was
a carriage return. -/
def universalNewlines (returned : Bool) : List Char → List Char
  | [] => []
  | c :: rest =>
    if c = '\r' then '\n' :: universalNewlines true rest
    else if c = '\n' ∧ returned = true then universalNewlines false rest
    else c :: universalNewlines false rest

/-! ## Messages -/

/-- The part of a message's content that is text or not. -/
inductive ContentBlock where
  | plain (text : List Char)
  | text (text : Option (List Char))
  | other

inductive MessageContent where
  | text (text : List Char)
  | blocks (blocks : List ContentBlock)

def ContentBlock.texts : ContentBlock → List (List Char)
  | .plain part => [part]
  | .text (some part) => [part]
  | .text none => []
  | .other => []

/-- `_extract_text`. -/
def extractText : MessageContent → List Char
  | .text text => text
  | .blocks blocks => ['\n'].intercalate (blocks.flatMap ContentBlock.texts)

/-- `_is_text_block`. -/
def ContentBlock.isText : ContentBlock → Bool
  | .plain _ => true
  | .text _ => true
  | .other => false

/-- `_build_evicted_content`. -/
def buildEvictedContent (content : MessageContent) (preview : List Char) : MessageContent :=
  match content with
  | .text _ => .text preview
  | .blocks blocks => .blocks (.text (some preview) :: blocks.filter fun block => !block.isText)

structure ToolResult where
  content : MessageContent
  name : List Char := []
  toolCallId : List Char

/-- `user` is `is_user_message`, `evictedTo` the `lc_evicted_to` of `additional_kwargs`. -/
structure UserMessage where
  content : MessageContent
  id : Option (List Char)
  user : Bool := true
  evictedTo : List Char := []

/-! ## The preview -/

def evictionPrefix : List Char := "[evicted to: ".toList

def previewLineMaxChars : Nat := 2048

/-- `_PREVIEW_HEAD_MAX_CHARS` and `_PREVIEW_TAIL_MAX_CHARS`. -/
def previewSideMaxChars : Nat := 8192

/-- `preview_head_lines`, `preview_tail_lines` and those of the human previews. -/
def previewLines : Nat := 5

def midlineCutNote : List Char :=
  ("One very long line was cut above (it does not fit the per-line preview " ++
  "budget). `read_file` pages by line number and CANNOT read the rest of that " ++
  "line — use `search_files` (regex with context), or `terminal` " ++
  "(`head -c` / `tail -c` / `dd`) / `python_repl` (slicing) to reach it.").toList

/-- A line of `splitlines()`. -/
def lineBody (line : List Char) : List Char :=
  match line.reverse with
  | '\n' :: '\r' :: rest => rest.reverse
  | c :: rest => if isLineBreak c then rest.reverse else line
  | [] => []

structure PreviewSide where
  kept : List (List Char) := []
  used : Nat := 0
  dropped : Bool := false
  clipped : Bool := false

/-- The loop of `_take_preview_side`. -/
def takePreviewSide (side : PreviewSide) : List (List Char) → PreviewSide
  | [] => side
  | line :: rest =>
    if previewLines ≤ side.kept.length ∨ previewSideMaxChars ≤ side.used then
      { side with dropped := true }
    else
      let long := decide (previewLineMaxChars < line.length)
      let line := if long then line.take previewLineMaxChars ++ [Char.ofNat 0x2026] else line
      takePreviewSide
        { kept := side.kept ++ [line]
          used := side.used + line.length
          dropped := side.dropped || long
          clipped := side.clipped || long }
        rest

def countText (n : Nat) : List Char := (toString n).toList

/-- `_build_preview` and the part that its templates share; `closing` is the rest of the template,
given whether a line was cut. -/
def buildPreview (content : List Char) (path : NamePath) (stamp : List Char)
    (closing : Bool → List Char) : List Char :=
  let lines := (splitLines content).map lineBody
  let head := takePreviewSide {} lines
  let tail := takePreviewSide {} lines.reverse
  let midline := if head.dropped || tail.dropped then "...".toList else []
  evictionPrefix ++ pathText path ++ "]\n--- head (".toList ++ countText head.kept.length ++
    " lines) ---\n".toList ++ ['\n'].intercalate head.kept ++ "\n".toList ++ midline ++
    "\n--- tail (".toList ++ countText tail.kept.length ++ " lines) ---\n".toList ++
    ['\n'].intercalate tail.kept.reverse ++ "\n[full content: ".toList ++
    countText content.length ++ " chars, evicted at ".toList ++ stamp ++ "]\n\n".toList ++
    closing (head.clipped || tail.clipped)

/-- `build_preview`. -/
def buildToolPreview (content : List Char) (path : NamePath) (stamp : List Char) : List Char :=
  buildPreview content path stamp fun clipped =>
    "Use read_file(file_path='".toList ++ pathText path ++
      "', offset=0, limit=100) to read the full content in chunks.".toList ++
      (if clipped then "\n\n".toList ++ midlineCutNote else []) ++ "]".toList

/-- `human_eviction_notice`. -/
def humanEvictionNotice (path : NamePath) : List Char :=
  "This user message exceeded the eviction threshold; its full text is at '".toList ++
    pathText path ++ "'. Use read_file(file_path='".toList ++ pathText path ++
    ("', offset=0, limit=100) to read the full content in chunks. If it is one very long line, " ++
    "read_file shows only its head — use terminal (head -c / tail -c) or python_repl " ++
    "(slicing) for the rest.").toList

/-- `build_human_preview`. -/
def buildHumanPreview (content : List Char) (path : NamePath) (stamp : List Char) : List Char :=
  buildPreview content path stamp fun _ => humanEvictionNotice path

/-! ## Eviction -/

/-- The sessions directory, resolved, and the first eight hex digits of the MD5 of a text. -/
structure EvictionEnv where
  sessionsDir : NamePath
  digest : List Char → List Char
  resolved : dotDot ∉ sessionsDir

/-- What a call finds outside the program: the clock, and whether the system refuses the write. -/
structure Moment where
  timeNs : Nat
  stamp : List Char
  refused : Bool := false

inductive Eviction (message : Type) where
  | kept
  | raised
  | offloaded (evicted : message) (pointer : NamePath)

def evictThresholdChars : Nat := 20000

def humanEvictThresholdChars : Nat := 200000

/-- `excluded_tools`. -/
def excludedTools : List (List Char) :=
  ["read_file".toList, "write_file".toList, "patch_file".toList, "search_files".toList,
    "list_files".toList, "memory".toList, "skill_view".toList, "skill_list".toList]

/-- `is_safe_session_segment`. -/
def isSafeSessionSegment (sessionId : List Char) : Bool :=
  sessionId != [] && sessionId != ['.'] && sessionId != ['.', '.'] && !sessionId.contains '/' &&
    !sessionId.contains '\\'

/-- `_eviction_dir_path` of a safe session. -/
def evictionDir (env : EvictionEnv) (sessionId : List Char) : NamePath :=
  env.sessionsDir ++ [sessionId, "evicted".toList]

def isSafeChar (c : Char) : Bool :=
  c.isAlphanum || c == '.' || c == '_' || c == '-'

/-- `re.sub(r"[^A-Za-z0-9._-]+", "_", text)`; `gap` says that the run has its underscore. -/
def replaceUnsafe (gap : Bool) : List Char → List Char
  | [] => []
  | c :: rest =>
    if isSafeChar c then c :: replaceUnsafe false rest
    else if gap then replaceUnsafe true rest
    else '_' :: replaceUnsafe true rest

/-- The shortened id that is safe in a file name. -/
def safeId (id : List Char) : List Char :=
  (PyText.stripChars (fun c => c == '.' || c == '_' || c == '-') (replaceUnsafe false id)).take 64

/-- `_human_file_name`. -/
def humanFileName (message : UserMessage) (timeNs : Nat) : List Char :=
  let safe := safeId (message.id.getD [])
  "human-".toList ++ (if safe = [] then countText timeNs else safe) ++ ".md".toList

/-- The file name of `evict_tool_result`. -/
def toolFileName (env : EvictionEnv) (result : ToolResult) : List Char :=
  (if result.toolCallId = [] then "unknown".toList else result.toolCallId) ++ '_' ::
    env.digest (extractText result.content) ++ ".txt".toList

/-- `mkdir` and `write_text`: `none` where the directories cannot be made, and the tree with
whether the text was written. -/
def saveText (tree : FileTree) (directory path : NamePath) (text : List Char) (refused : Bool) :
    Option (FileTree × Bool) :=
  match tree.mkdirs [] directory with
  | none => none
  | some made =>
    if refused then some (made, false)
    else
      match made.write path text with
      | none => some (made, false)
      | some written => some (written, true)

/-- `evict_human_message`. -/
def evictHumanMessage (env : EvictionEnv) (tree : FileTree) (sessionId : List Char)
    (message : UserMessage) (moment : Moment) : FileTree × Eviction UserMessage :=
  let text := extractText message.content
  if message.user = false ∨ message.evictedTo ≠ [] ∨ text.length ≤ humanEvictThresholdChars ∨
      isSafeSessionSegment sessionId = false then (tree, .kept)
  else
    let directory := evictionDir env sessionId
    let path := joinPath directory (humanFileName message moment.timeNs)
    if text.length ≤ (buildHumanPreview text path moment.stamp).length then (tree, .kept)
    else
      match saveText tree directory path text moment.refused with
      | none => (tree, .raised)
      | some (tree, false) => (tree, .kept)
      | some (tree, true) =>
        (tree, .offloaded { message with evictedTo := pathText path } path)

/-- `evict_tool_result`; a failed write raises. -/
def evictToolResult (env : EvictionEnv) (tree : FileTree) (sessionId : List Char)
    (result : ToolResult) (moment : Moment) : FileTree × Eviction ToolResult :=
  let text := extractText result.content
  if excludedTools.contains result.name = true ∨ text.length ≤ evictThresholdChars ∨
      evictionPrefix.isPrefixOf text = true ∨ isSafeSessionSegment sessionId = false then
    (tree, .kept)
  else
    let directory := evictionDir env sessionId
    let path := joinPath directory (toolFileName env result)
    let preview := buildToolPreview text path moment.stamp
    if text.length ≤ preview.length then (tree, .kept)
    else
      match saveText tree directory path text moment.refused with
      | none => (tree, .raised)
      | some (tree, false) => (tree, .raised)
      | some (tree, true) =>
        (tree, .offloaded { result with content := buildEvictedContent result.content preview } path)

/-- `load_evicted`. -/
def loadEvicted (tree : FileTree) (path : NamePath) : Option (List Char) :=
  (tree.read path).map (universalNewlines false)

end SherryAgent.Source.Agent
