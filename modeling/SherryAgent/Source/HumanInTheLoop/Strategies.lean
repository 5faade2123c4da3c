import SherryAgent.Source.HumanInTheLoop.Approval

/-!
# The review of an assistant message

`humanInTheLoop/strategies.py`, with `_sandbox_bypass_interrupt` and `after_model` of
`core.py`. Each handler owns the calls it matches; it decides a call (`Ruling`) or lets it
fall through to the handlers behind it. The staged memory writes and the approval hooks
are not read by a review and are left out.
-/

namespace SherryAgent.Source.HumanInTheLoop

open SherryAgent.Library.Reruns Program
open SherryAgent.Source.Transcript (AiMessage Message ToolMessage)

/-- `ApprovalOutcome.approve` or `ApprovalOutcome.deny`. -/
inductive Ruling where
  | approve (call : ToolCall)
  | deny (message : ToolMessage)

def autoDenyContent : String := NO_OPERATOR_MESSAGE ++ " " ++ BLOCKED_MESSAGE

def INTERRUPT_FAILED : String := "Approval interrupt failed. " ++ BLOCKED_MESSAGE

/-- `_deny_content`. -/
def denyContent (reason : String) : String :=
  let reason := PyText.strip reason
  let reason := if reason ≠ "" ∧ reason.toList.getLast? ≠ some '.' then reason ++ "." else reason
  PyText.strip (reason ++ " " ++ BLOCKED_MESSAGE)

/-- `decision.get("message") or "Rejected by user"`. -/
def Decision.rejection (decision : Decision) : String :=
  match decision.message with
  | some message => if message = "" then "Rejected by user" else message
  | none => "Rejected by user"

def userDenied (message : String) : String :=
  "User denied: " ++ message ++ ". " ++ BLOCKED_MESSAGE

section Handlers

variable (ctx : ApprovalContext) (index : Nat) (call : ToolCall)

/-- `ApprovalOutcome.deny`; a message needs the call's id. -/
def deny (content : String) : Hook (Option Ruling) :=
  match call.id with
  | none => raise
  | some id =>
    pure (some (.deny
      { content := .text content, name := some call.name, toolCallId := id, status := "error" }))

def approve : Hook (Option Ruling) := pure (some (.approve call))

def setYolo : Hook Unit :=
  modifyState fun st => { st with session := st.session.setSessionYolo }

/-- `not args.get("sandbox", True)`. -/
def unsandboxed : Bool := !(Args.getD call.args "sandbox" (.bool true)).truthy

def BYPASS_DESCRIPTION : String :=
  "Sandbox bypass approval: ⚠ UNSANDBOXED — this call requests " ++
  "sandbox=False, so it executes directly after env scrubbing with no OS " ++
  "sandbox isolation. The OS sandbox is the only thing that keeps a shell " ++
  "command inside the session's project directory, so approving this call " ++
  "lets it read and write anywhere this process can."

def bypassCard (actionDesc : String) : Card :=
  { gate := .bypass, index, name := call.name, args := call.args
    description := BYPASS_DESCRIPTION ++ " " ++ actionDesc
    allowedDecisions := [.approve, .reject] }

/-- `_sandbox_bypass_interrupt`: the content of the denial, `none` when approved. -/
def sandboxBypassInterrupt (actionDesc : String) : Hook (Option String) :=
  if ctx.operator.isNone then pure (some autoDenyContent)
  else do
    let response ← ask (bypassCard index call actionDesc)
    match response with
    | .malformed => pure (some INTERRUPT_FAILED)
    | .decisions [] => pure (some (userDenied "No decision"))
    | .decisions (decision :: _) =>
      if decision.type = .yolo ∧ ctx.sessionId ≠ "" then do
        setYolo
        pure none
      else if decision.type = .approve then pure none
      else pure (some (userDenied decision.rejection))

/-! ## Terminal -/

/-- The strings of a list, `none` if it holds anything else. -/
def textItems : List Json → Option (List String)
  | [] => some []
  | .str item :: rest => (textItems rest).map (item :: ·)
  | _ :: _ => none

/-- The command a terminal call runs; `none` where the patterns cannot search it. -/
def commandText (args : Args) : Option String :=
  let commands := Args.getD args "commands" (.str "")
  let command := if commands.truthy then commands else Args.getD args "command" (.str "")
  match command with
  | .str text => some text
  | .arr items => (textItems items).map (" && ".intercalate ·)
  | _ => none

/-- `can_cache`. -/
def canCache (session : SessionState) (command : String) : Bool :=
  (detectDangerousCommand ctx command).isEmpty && !isConfirmAllMode ctx session &&
    (detectClawhubCommand ctx command).isNone

/-- The card for a command that nothing has approved. -/
def commandCard (session : SessionState) (command : String) : Card :=
  { gate := .command, index, name := call.name, args := call.args
    description :=
      match detectClawhubCommand ctx command with
      | some tag => "clawhub remote npm execution (" ++ tag ++ "): " ++ command
      | none =>
        if isConfirmAllMode ctx session then
          "Confirm-all mode: approval needed before running: " ++ command
        else "Dangerous command: " ++ command
    allowedDecisions :=
      if canCache ctx session command then [.approve, .session, .reject] else [.approve, .reject] }

def askCommand (session : SessionState) (command : String) : Hook (Option Ruling) := do
  let response ← ask (commandCard ctx index call session command)
  match response with
  | .malformed => deny call INTERRUPT_FAILED
  | .decisions [] => deny call (userDenied "No decision")
  | .decisions (decision :: _) =>
    if decision.type = .yolo then do
      setYolo
      approve call
    else if decision.type = .session ∧ canCache ctx session command then do
      modifyState fun st => { st with session := st.session.addToSession command }
      approve call
    else if decision.type = .approve then approve call
    else deny call (userDenied decision.rejection)

/-- The smart approval, where it is asked for. -/
def smartVerdict (session : SessionState) (command : String) (result : ApprovalResult) :
    SmartApprovalResult :=
  if !result.approved && ctx.config.mode == .smart && (detectClawhubCommand ctx command).isNone &&
      !isConfirmAllMode ctx session then
    smartApprove ctx index command
  else .escalate

/-- What follows the pipeline's verdict and the sandbox. -/
def reviewCommand (session : SessionState) (command : String) (result : ApprovalResult) :
    Hook (Option Ruling) :=
  match smartVerdict ctx index session command result with
  | .approve => approve call
  | .deny => deny call ("Smart approval denied. " ++ BLOCKED_MESSAGE)
  | .escalate =>
    if ((detectClawhubCommand ctx command).isSome || !result.approved) &&
        !isYoloMode ctx session then
      if ctx.operator.isNone then deny call autoDenyContent
      else askCommand ctx index call session command
    else approve call

/-- `TerminalApprovalHandler.handle`. -/
def handleTerminal : Hook (Option Ruling) :=
  match commandText call.args with
  | none => raise
  | some command => do
    let st ← getState
    let result := checkCommand ctx st.session command
    if result.blocked && result.decision == some .deny then deny call result.reason
    else if !isYoloMode ctx st.session && unsandboxed call then
      if ctx.operator.isNone then deny call autoDenyContent
      else do
        let denial ← sandboxBypassInterrupt ctx index call ("Command: " ++ command)
        match denial with
        | some content => deny call content
        | none => approve call
    else reviewCommand ctx index call st.session command result

/-! ## The handlers behind it -/

/-- `SandboxBypassApprovalHandler.handle`: an approved call falls through. -/
def handleSandboxBypass : Hook (Option Ruling) :=
  if ctx.operator.isNone then deny call autoDenyContent
  else do
    let denial ← sandboxBypassInterrupt ctx index call
      ("Query: " ++ (Args.getD call.args "query" (.str "")).pyStr)
    match denial with
    | some content => deny call content
    | none => pure none

/-- `WriteApprovalGate.request_write` for the memory. -/
def requestMemoryWrite : ApprovalResult :=
  if ctx.config.writeApprovalMemory then
    { approved := false, decision := some .deny
      reason := "Write staged for approval (id=" ++ ctx.writeId index ++
        "). Use approve_write/reject_write." }
  else { approved := true, decision := some .once, reason := "Write approval gate off" }

/-- `action in ("add", "replace")`. -/
def addsOrReplaces (args : Args) : Bool :=
  match Args.getD args "action" (.str "") with
  | .str action => action == "add" || action == "replace"
  | _ => false

/-- `MemoryWriteApprovalHandler.handle`. -/
def handleMemoryWrite : Hook (Option Ruling) :=
  let result := requestMemoryWrite ctx index
  if addsOrReplaces call.args && result.blocked then deny call result.reason else pure none

/-- `_mark_confirmed`. -/
def SessionState.markConfirmed (session : SessionState) (toolName : String) : SessionState :=
  { session with confirmedTools := (session.confirmedTools.insert toolName).mergeSort }

/-- `FirstCallConfirmationHandler.matches`. -/
def matchesFirstCall (session : SessionState) : Bool :=
  ctx.config.firstCallConfirmationTools.contains call.name && !isYoloMode ctx session &&
    ctx.operator.isSome &&
    (isConfirmAllMode ctx session ||
      (ctx.config.firstCallConfirmationEnabled && !session.confirmedTools.contains call.name))

def firstCallCard (strict : Bool) : Card :=
  { gate := .firstCall strict, index, name := call.name, args := call.args
    description :=
      if strict then
        "Confirm-all mode: '" ++ call.name ++ "' changes files on disk and every change needs approval."
      else "First use of '" ++ call.name ++ "' in this session: it changes files on " ++
        "disk. Approving allows this and later calls to it."
    allowedDecisions := [.approve, .reject] }

/-- `FirstCallConfirmationHandler.handle`. -/
def handleFirstCall : Hook (Option Ruling) := do
  let st ← getState
  let strict := isConfirmAllMode ctx st.session
  let response ← ask (firstCallCard index call strict)
  match response with
  | .malformed => deny call INTERRUPT_FAILED
  | .decisions [] => deny call (denyContent ("User denied: " ++ "No decision"))
  | .decisions (decision :: _) =>
    if decision.type = .yolo then do
      setYolo
      approve call
    else if decision.type = .approve then do
      modifyState fun st =>
        if strict then st else { st with session := st.session.markConfirmed call.name }
      approve call
    else deny call (denyContent ("User denied: " ++ decision.rejection))

/-- The call an edit puts in the place of this one. -/
def ToolCall.edited (call : ToolCall) (action : EditedAction) : ToolCall :=
  { call with name := action.name.getD call.name, args := action.args.getD call.args }

/-- The description of a configured tool's card; `none` if its function raises. -/
def describe (config : InterruptOnConfig) : Option String :=
  match config.description with
  | some (.callable describe) => describe call
  | some (.text value) => some value
  | none => some (ctx.config.descriptionPrefix ++ "\n\nTool: " ++ call.name ++ "\nArgs: " ++
      (Json.obj call.args).pyRepr)

/-- The answer to a configured tool's card. -/
def decideInterrupt (allowed : List DecisionType) (decision : Decision) : Hook (Option Ruling) :=
  if decision.type = .yolo then do
    setYolo
    approve call
  else if decision.type = .approve ∧ .approve ∈ allowed then do
    modifyState fun st => st.setToolDecision ctx index call.name call.args true ctx.operator
      "User approved for this session"
    approve call
  else if decision.type = .edit ∧ .edit ∈ allowed then
    match decision.editedAction with
    | some action => approve (call.edited action)
    | none => deny call INTERRUPT_FAILED
  else if decision.type = .reject ∧ .reject ∈ allowed then do
    let message := decision.message.getD ("User rejected " ++ call.name)
    let ruling ← deny call (message ++ ". " ++ BLOCKED_MESSAGE)
    modifyState fun st => st.setToolDecision ctx index call.name call.args false ctx.operator
      ("User denied: " ++ message)
    pure ruling
  else deny call ("Unexpected decision type. " ++ BLOCKED_MESSAGE)

def interruptCard (description : String) (allowed : List DecisionType) : Card :=
  { gate := .interruptOn, index, name := call.name, args := call.args, description
    allowedDecisions := allowed }

/-- The card of a configured tool. -/
def askInterruptOn (config : InterruptOnConfig) : Hook (Option Ruling) :=
  match describe ctx call config with
  | none => raise
  | some description =>
    if ctx.operator.isNone then deny call NO_OPERATOR_MESSAGE
    else do
      let response ← ask (interruptCard index call description config.allowedDecisions)
      match response with
      | .malformed => deny call INTERRUPT_FAILED
      | .decisions [] => deny call ("No decision received. " ++ BLOCKED_MESSAGE)
      | .decisions (decision :: _) =>
        decideInterrupt ctx index call config.allowedDecisions decision

/-- `InterruptOnApprovalHandler.handle`. -/
def handleInterruptOn : Hook (Option Ruling) :=
  match ctx.config.interruptOn call.name with
  | none => pure none
  | some config => do
    let st ← getState
    let evaluation := evaluate ctx st.store call.name call.args ctx.operator
    match evaluation.verdict with
    | .deny =>
      deny call (denyContent (if evaluation.reason = "" then
        "Tool '" ++ call.name ++ "' is denied for this session" else evaluation.reason))
    | .allow => approve call
    | .unknown => askInterruptOn ctx index call config

/-- `PluginToolApprovalHandler.handle`. -/
def handlePlugin : Hook (Option Ruling) := do
  let st ← getState
  let result := requestToolApproval ctx st call.name call.args
  if result.blocked then deny call result.reason else approve call

end Handlers

/-! ## The registry -/

structure Handler where
  applies : ApprovalContext → SessionState → ToolCall → Bool
  handle : ApprovalContext → Nat → ToolCall → Hook (Option Ruling)

def terminalApproval : Handler where
  applies _ _ call := call.name == "terminal"
  handle := handleTerminal

def sandboxBypassApproval : Handler where
  applies ctx session call :=
    call.name == "python_repl" && !isYoloMode ctx session && unsandboxed call
  handle := handleSandboxBypass

def memoryWriteApproval : Handler where
  applies ctx _ call := call.name == "memory" && ctx.config.writeApprovalMemory
  handle := handleMemoryWrite

def firstCallConfirmation : Handler where
  applies ctx session call := matchesFirstCall ctx call session
  handle := handleFirstCall

def interruptOnApproval : Handler where
  applies ctx _ call := (ctx.config.interruptOn call.name).isSome
  handle := handleInterruptOn

def pluginToolApproval : Handler where
  applies _ _ _ := true
  handle ctx _ call := handlePlugin ctx call

def handlers : List Handler :=
  [terminalApproval, sandboxBypassApproval, memoryWriteApproval, firstCallConfirmation,
    interruptOnApproval, pluginToolApproval]

/-- `ApprovalHandlerRegistry.dispatch`. -/
def dispatch (ctx : ApprovalContext) (index : Nat) (call : ToolCall) :
    List Handler → Hook (Option Ruling)
  | [] => pure none
  | handler :: rest => do
    let st ← getState
    if handler.applies ctx st.session call then do
      let ruling ← handler.handle ctx index call
      match ruling with
      | some ruling => pure (some ruling)
      | none => dispatch ctx index call rest
    else dispatch ctx index call rest

/-- The loop over the calls. -/
def review (ctx : ApprovalContext) : (index : Nat) → List ToolCall → Hook (List Ruling)
  | _, [] => pure []
  | index, call :: rest => do
    let ruling ← dispatch ctx index call handlers
    let later ← review ctx (index + 1) rest
    pure (ruling.toList ++ later)

def isDenial : Ruling → Bool
  | .approve _ => false
  | .deny _ => true

/-- The last assistant message, between what stands before and behind it. -/
def splitLastAi : List Message → Option (List Message × AiMessage × List Message)
  | [] => none
  | message :: rest =>
    match splitLastAi rest with
    | some (before, found, after) => some (message :: before, found, after)
    | none =>
      match message with
      | .ai found => some ([], found, rest)
      | _ => none

/-- The reviewed message, what surrounds it, and a ruling on each of its calls. -/
structure ApprovalOutcome where
  before : List Message
  message : AiMessage
  after : List Message
  rulings : List Ruling

namespace ApprovalOutcome

/-- `revised_tool_calls`. -/
def revisedToolCalls (outcome : ApprovalOutcome) : List ToolCall :=
  outcome.rulings.filterMap fun
    | .approve call => some call
    | .deny _ => none

/-- `artificial_tool_messages`. -/
def artificialToolMessages (outcome : ApprovalOutcome) : List ToolMessage :=
  outcome.rulings.filterMap fun
    | .approve _ => none
    | .deny message => some message

/-- The message without its denied calls. -/
def revised (outcome : ApprovalOutcome) : AiMessage :=
  { outcome.message with toolCalls := outcome.revisedToolCalls.map ToolCall.toJson }

/-- What stands behind it once the update is applied: the denials are appended. -/
def behind (outcome : ApprovalOutcome) : List Message :=
  outcome.after ++ outcome.artificialToolMessages.map .tool

/-- The messages once the update is applied. -/
def messages (outcome : ApprovalOutcome) : List Message :=
  outcome.before ++ .ai outcome.revised :: outcome.behind

end ApprovalOutcome

/-- `after_model`; `none` when there is nothing to review. -/
def afterModel (ctx : ApprovalContext) (messages : List Message) : Hook (Option ApprovalOutcome) :=
  match splitLastAi messages with
  | none => pure none
  | some (before, message, after) =>
    if message.toolCalls.isEmpty then pure none
    else
      match message.toolCalls.mapM ToolCall.ofJson? with
      | none => raise
      | some calls => do
        let rulings ← review ctx 0 calls
        pure (some { before, message, after, rulings })

end SherryAgent.Source.HumanInTheLoop
