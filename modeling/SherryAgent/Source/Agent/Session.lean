import SherryAgent.Source.Agent.StatePort

/-!
# A session's checkpoint

The operations on the message list of one session, from turn to turn: a turn begins
(`server/service/messages.py`), its input reaches the checkpoint, middlewares inject
messages and repair the transcript before a model call, the model and the tools append
theirs; a turn may be interrupted and healed, and continued where it was; a compaction
replaces a prefix by its summary (`agent/middlewares/summarization`), and an edit
truncates the list. A healing may be tried again, also after a restart.

Notices about the workspace are put before the last human message
(`agent/middlewares/workspace_notice/core.py`), reminders of live state before the
user's message when it is the last one (`agent/middlewares/reminder_catalog/dynamic.py`,
`pub/func/message/system_reminder.py`). A reminder of a transient source is taken
out again at a later turn. Which notices are due, and which reminders, is left out.

`uuid` stands for the ids the reducer gives to messages that come without one. `turn`
and `writes` record which turn wrote a marker and are read by no operation.
-/

namespace SherryAgent.Source.Agent

open SherryAgent.Source.Transcript

/-! ## Injected messages -/

inductive NoticeOrigin where
  | projectDir
  | gitHead

def NoticeOrigin.text : NoticeOrigin → String
  | .projectDir => "project_dir"
  | .gitHead => "git_head"

/-- `workspace_notice_metadata`. -/
def workspaceNoticeMetadata (origin : NoticeOrigin) : List (String × Json) :=
  [("origin", .str origin.text), ("internal", .bool true), ("provenance", .str "workspace_notice")]

/-- `_notice`. -/
def notice (origin : NoticeOrigin) (text : String) : Message :=
  .plain { role := .human, content := .text text, metadata := workspaceNoticeMetadata origin }

/-- `_insert_before_last_human`: `none` without a human message. -/
def insertBeforeLast (notices : List Message) : List Message → Option (List Message)
  | [] => none
  | message :: rest =>
    match insertBeforeLast notices rest with
    | some inserted => some (message :: inserted)
    | none => if isHuman message then some (notices ++ message :: rest) else none

/-- `_insert_before_last_human`. -/
def insertBeforeLastHuman (messages notices : List Message) : List Message :=
  (insertBeforeLast notices messages).getD (messages ++ notices)

def REMINDER_PROVENANCE : String := "reminder_catalog"

/-- `is_system_reminder`. -/
def isSystemReminder (message : Message) : Bool :=
  match (messageMetadata message).get "internal" with
  | .bool true =>
    PyText.strip ((messageMetadata message).getText "provenance") == REMINDER_PROVENANCE
  | _ => false

def systemReminderMetadata (sourceId : String) (compressExclude : Bool) : List (String × Json) :=
  [("origin", .str sourceId), ("internal", .bool true), ("provenance", .str REMINDER_PROVENANCE),
    ("compress_exclude", .bool compressExclude)]

def wrapReminder (sourceId content : String) : String :=
  let escaped := PyText.replace "<system-reminder" "&lt;system-reminder" content
  let escaped := PyText.replace "</system-reminder>" "&lt;/system-reminder&gt;" escaped
  "<system-reminder source=\"" ++ sourceId ++ "\">\n" ++ escaped ++ "\n</system-reminder>"

/-- A resolved injection: its source, its content and the source's `compress_exclude`. -/
structure Injection where
  sourceId : String
  content : String
  compressExclude : Bool := true

def Injection.reminder (injection : Injection) : Message :=
  .plain
    { role := .human
      content := .text (wrapReminder injection.sourceId injection.content)
      metadata := systemReminderMetadata injection.sourceId injection.compressExclude }

/-- `_is_injected`. -/
def isInjected (message : Message) : Bool :=
  ((messageMetadata message).get "internal").truthy ||
    match message with
    | .plain { content := .text text, .. } => "[SYSTEM DIRECTIVE".toList.isPrefixOf text.toList
    | _ => false

/-- `_already_injected_this_turn`, over the messages before the last in reverse. -/
def alreadyInjected : List Message → Bool
  | [] => false
  | .ai _ :: _ => false
  | message :: rest => isSystemReminder message || alreadyInjected rest

/-- `_is_transient_reminder`. -/
def isTransientReminder (transient : List String) (message : Message) : Bool :=
  isSystemReminder message &&
    match (messageMetadata message).get "origin" with
    | .str origin => transient.contains origin
    | _ => false

/-- `DynamicReminderMiddleware.abefore_model`; the injections in the order of delivery.
`none` when it leaves the messages alone. -/
def injectReminders (transient : List String) (injections : List Injection)
    (messages : List Message) : Option (List Message) := do
  let final ← messages.getLast?
  if !isHuman final || isInjected final then none
  else
    let tail := messages.dropLast
    if alreadyInjected tail.reverse then none
    else
      let kept := tail.filter fun message => !isTransientReminder transient message
      if injections.isEmpty && kept.length == tail.length then none
      else some (kept ++ injections.map Injection.reminder ++ [final])

/-! ## The checkpoint -/

/-- The reducer's `uuid4`: no two are the same. -/
def uuid (n : Nat) : String := "uuid-" ++ toString n

/-- Ids for the messages without one, from the `next`th on. -/
def assignIds : (next : Nat) → List Message → List Message
  | _, [] => []
  | next, message :: rest =>
    if bearsId message then message :: assignIds next rest
    else setId (uuid next) message :: assignIds (next + 1) rest

/-- Messages that have not been in a checkpoint. -/
def withoutIds : List Message → List Message := List.map fun
  | .plain message => .plain { message with id := none }
  | .ai message => .ai { message with id := none }
  | .tool message => .tool { message with id := none }

inductive Phase where
  | idle
  | begun
  | running
  | healed
  deriving DecidableEq

/-- `build_breakpoint`, with what the validation reads. -/
structure Breakpoint where
  markerId : String
  partialText : String
  turnSeq : Nat

structure Session where
  messages : List Message
  nextId : Nat
  phase : Phase := .idle
  breakpoint : Option Breakpoint := none
  turn : Nat := 0
  writes : List (String × Nat) := []

namespace Session

/-- A session with the messages it inherits, as a side chat does. -/
def start (inherited : List Message) : Session :=
  { messages := assignIds 0 (withoutIds inherited), nextId := inherited.length }

/-- The list after a middleware has put out a new one, with ids for its new messages. -/
def rewrite (s : Session) (messages : List Message) : Session :=
  { s with
    messages := assignIds s.nextId messages
    nextId := s.nextId + messages.length }

def append (s : Session) (messages : List Message) : Session :=
  s.rewrite (s.messages ++ withoutIds messages)

end Session

/-- `_build_new_messages`. -/
def buildNewMessages (summary : String) : List Message :=
  [.plain
      { role := .human
        content := .text "What did we do so far?"
        additionalKwargs := [("lc_source", .str "summarization")] },
    .ai { content := .text summary, additionalKwargs := [("lc_source", .str "summarization")] }]

/-- `breakpoint_is_valid`. -/
def breakpointIsValid (messages : List Message) (breakpoint : Breakpoint) : Bool :=
  humanCount messages == breakpoint.turnSeq &&
    (messages.getLast?.bind messageId) == some breakpoint.markerId

/-- `_record_resumable_breakpoint`: whether the interrupted turn can be continued. -/
def isResumable (write : InterruptMarkerWrite) (partialText : String) (hasReasoning : Bool) :
    Bool :=
  write.wroteCheckpointer && write.healedCalls == 0 &&
    (PyText.strip partialText != "" || hasReasoning)

/-- What a turn's input consists of: what a user said, or a prompt to continue. -/
def isInput (message : Message) : Bool := isHuman message && !isSystemReminder message

inductive SessionOp where
  | begin
  | input (messages : List Message)
  | announce (notices : List (NoticeOrigin × String))
  | remind (transient : List String) (injections : List Injection)
  | normalize (clock : Nat → Int)
  | work (messages : List Message)
  | finish
  | interrupt (partialText : String) (reason : InterruptReason) (hasReasoning : Bool) (now : Int)
  | resume
  | compact (cutoff : Nat) (summary : String)
  | edit (turnNum : Int)

namespace Session

/-- The server's part of an interruption: the heal, and a breakpoint if it can be continued. -/
def heal (thread partialText : String) (reason : InterruptReason) (hasReasoning : Bool)
    (now : Int) (s : Session) : Session :=
  let (write, messages) := healWithGraph thread partialText reason now s.messages
  { s with
    messages
    phase := .healed
    breakpoint := if isResumable write partialText hasReasoning then
        some { markerId := write.markerId, partialText, turnSeq := write.turnSeq }
      else s.breakpoint
    writes := if write.wroteCheckpointer then s.writes ++ [(write.markerId, s.turn)]
      else s.writes }

/-- `_ContinueTurn._prepare`: the breakpoint is used up, and the marker restored. -/
def resume (s : Session) : Option Session := do
  let breakpoint ← s.breakpoint
  if breakpointIsValid s.messages breakpoint then
    let messages ←
      restoreInterruptMarker breakpoint.markerId breakpoint.partialText s.messages
    some { s with messages, phase := .begun, breakpoint := none, turn := s.turn + 1 }
  else none

/-- One operation; `none` where it is not possible. -/
def step (thread : String) (s : Session) : SessionOp → Option Session
  | .begin => some { s with phase := .begun, breakpoint := none, turn := s.turn + 1 }
  | .input messages =>
    if s.phase = .begun ∧ messages ≠ [] ∧ messages.all isInput then
      some { s.append messages with phase := .running }
    else none
  | .announce notices =>
    if s.phase = .running then
      some (s.rewrite (insertBeforeLastHuman s.messages
        (notices.map fun (origin, text) => notice origin text)))
    else none
  | .remind transient injections =>
    if s.phase = .running then
      (injectReminders transient injections s.messages).map s.rewrite
    else none
  | .normalize clock =>
    if s.phase = .running then
      some (s.rewrite (sanitizeToolUseResultPairing clock s.messages))
    else none
  | .work messages => if s.phase = .running then some (s.append messages) else none
  | .finish => if s.phase = .running then some { s with phase := .idle } else none
  | .interrupt partialText reason hasReasoning now =>
    if s.phase = .idle then none else some (s.heal thread partialText reason hasReasoning now)
  | .resume => s.resume
  | .compact cutoff summary =>
    if 0 < cutoff then
      some (s.rewrite (buildNewMessages summary ++ s.messages.drop cutoff))
    else none
  | .edit turnNum =>
    let (removed, messages) := truncateMessagesAfterTurn turnNum s.messages
    if removed < 0 then none else some { s with messages, phase := .idle, breakpoint := none }

end Session

end SherryAgent.Source.Agent
