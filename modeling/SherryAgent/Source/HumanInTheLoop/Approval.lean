import SherryAgent.Source.HumanInTheLoop.Types

/-!
# The approval pipeline

`humanInTheLoop/detection.py`, `approval.py` and `approval_store.py`: the layers a command
passes, the decisions recorded for a tool and its arguments, and the modes of a session.
-/

namespace SherryAgent.Source.HumanInTheLoop

open SherryAgent.Source.PyText

/-! ## Detection -/

section Detection

variable (ctx : ApprovalContext)

/-- `detect_hardline_command`. -/
def detectHardlineCommand (command : String) : Option String :=
  (ctx.hardlinePatterns.find? fun pattern => pattern.search command).map fun pattern =>
    "hardline:" ++ pattern.pattern

/-- The tags `detect_dangerous_command` finds. -/
def detectDangerousCommand (command : String) : List String :=
  (ctx.dangerousPatterns.filter fun entry => entry.1.search command).map (·.2)

def CLAWHUB_REMOTE_NPM_TAG : String := "clawhub_remote_npm"

/-- `detect_clawhub_command`. -/
def detectClawhubCommand (command : String) : Option String :=
  if ctx.clawhubPatterns.any fun pattern => pattern.search command then
    some CLAWHUB_REMOTE_NPM_TAG
  else none

/-- `_check_deny_rules`. -/
def checkDenyRules (command : String) : Option String :=
  ctx.config.denyRules.find? fun rule => fnmatch command rule

end Detection

/-! ## Modes -/

/-- `is_yolo_mode`. -/
def isYoloMode (ctx : ApprovalContext) (session : SessionState) : Bool :=
  ctx.config.yoloMode || ctx.config.mode == .off ||
    (ctx.sessionId != "" && session.sessionYolo) ||
    ["1", "true", "yes"].contains (strip ctx.sherryYoloMode)

/-- `is_confirm_all_mode`. -/
def isConfirmAllMode (ctx : ApprovalContext) (session : SessionState) : Bool :=
  ctx.sessionId != "" && session.confirmAll && !isYoloMode ctx session

/-- `set_session_yolo`. -/
def SessionState.setSessionYolo (session : SessionState) : SessionState :=
  { session with sessionYolo := true, confirmAll := false }

/-! ## Commands -/

section Commands

variable (ctx : ApprovalContext)

/-- `check_command`. -/
def checkCommand (session : SessionState) (command : String) : ApprovalResult :=
  match detectHardlineCommand ctx command with
  | some hardline =>
    { approved := false, decision := some .deny, patternKey := hardline
      reason := "Hardline blocklist: " ++ hardline ++ ". " ++ BLOCKED_MESSAGE }
  | none =>
    match checkDenyRules ctx command with
    | some rule =>
      { approved := false, decision := some .deny, patternKey := "deny:" ++ rule
        reason := "User deny rule: " ++ rule ++ ". " ++ BLOCKED_MESSAGE }
    | none =>
      let dangerous := detectDangerousCommand ctx command
      if isYoloMode ctx session then
        { approved := true, decision := some .once, reason := "YOLO mode active" }
      else if isConfirmAllMode ctx session then
        let tags := if dangerous.isEmpty then "no dangerous pattern" else ", ".intercalate dangerous
        { approved := false, patternKey := dangerous.headD "confirm_all"
          reason := "Confirm-all mode: every command needs approval (" ++ tags ++ ")." }
      else if session.permanent.any fun pattern => fnmatch command pattern then
        { approved := true, decision := some .always, reason := "Permanent allowlist match" }
      else if dangerous.isEmpty then
        if session.sessionApproved.any fun pattern => fnmatch command pattern then
          { approved := true, decision := some .session, reason := "Session allowlist match" }
        else
          { approved := true, decision := some .once, reason := "No dangerous patterns detected" }
      else
        { approved := false, patternKey := dangerous.headD ""
          reason := "Dangerous pattern(s): " ++ ", ".intercalate dangerous ++
            ". Requires human approval." }

/-- `_extract_pattern`. -/
def extractPattern (command : String) : String :=
  match splitWords command with
  | first :: second :: _ => first ++ " " ++ second ++ "*"
  | [first] => first ++ "*"
  | [] => command

/-- `_add_to_session`. -/
def SessionState.addToSession (session : SessionState) (command : String) : SessionState :=
  let pattern := extractPattern command
  if session.sessionApproved.contains pattern then session
  else { session with sessionApproved := session.sessionApproved ++ [pattern] }

/-- `smart_approve`, for the call at `index`. -/
def smartApprove (index : Nat) (command : String) : SmartApprovalResult :=
  match ctx.config.smartApprovalLlm with
  | none => .escalate
  | some llm =>
    match llm index command with
    | none => .escalate
    | some response =>
      let text := lower (strip response)
      if contains "safe" text then .approve
      else if contains "dangerous" text then .deny
      else .escalate

end Commands

/-! ## Recorded decisions -/

inductive ApprovalVerdict where
  | allow
  | deny
  | unknown
  deriving DecidableEq

structure ApprovalEvaluation where
  verdict : ApprovalVerdict
  reason : String := ""

section Records

variable (ctx : ApprovalContext)

def nonBlank (text : String) : Option String :=
  let text := strip text
  if text = "" then none else some text

/-- `ToolApprovalStore._resolve_operator`: inside a review the scope is the turn's operator. -/
def resolveOperator (operator : Option String) : Option String :=
  match operator with
  | some operator => nonBlank operator
  | none => ctx.operator.bind nonBlank

/-- `ToolApprovalStore._lookup`. -/
def lookup (store : List ApprovalRecord) (operator toolName : String) (args : Args) :
    Option ApprovalRecord :=
  store.find? fun record =>
    record.operator == operator && record.sessionId == ctx.sessionId &&
      record.toolName == toolName && record.argsHash == ctx.argsHash args

/-- `ToolApprovalStore.evaluate`. -/
def evaluate (store : List ApprovalRecord) (toolName : String) (args : Args)
    (operator : Option String) : ApprovalEvaluation :=
  match resolveOperator ctx operator with
  | none => { verdict := .deny, reason := NO_OPERATOR_MESSAGE }
  | some present =>
    match lookup ctx store present toolName args with
    | none => { verdict := .unknown }
    | some record =>
      { verdict := if record.allow then .allow else .deny, reason := record.reason }

/-- `_store_operator`. -/
def storeOperator (operator : Option String) : String :=
  match operator.bind nonBlank with
  | some operator => operator
  | none =>
    match ctx.operator.bind nonBlank with
    | some present => present
    | none => (nonBlank ctx.sessionId).getD "default"

/-- `request_tool_approval`. -/
def requestToolApproval (st : HookState) (toolName : String) (args : Args) : ApprovalResult :=
  match st.session.toolApproved.find? (·.1 == (toolName, ctx.argsHash args)) with
  | some (_, true) =>
    { approved := true, decision := some .session, reason := "Previously session-approved" }
  | some (_, false) =>
    { approved := false, decision := some .deny
      reason := "Tool '" ++ toolName ++ "' is denied for this session." }
  | none =>
    let evaluation := evaluate ctx st.store toolName args (some (storeOperator ctx none))
    match evaluation.verdict with
    | .allow =>
      { approved := true, decision := some .session
        reason := if evaluation.reason = "" then "Previously approved (persisted)"
          else evaluation.reason }
    | .deny =>
      { approved := false, decision := some .deny
        reason := if evaluation.reason = "" then "Tool '" ++ toolName ++ "' is denied for this session."
          else evaluation.reason }
    | .unknown => { approved := true, decision := some .once, reason := "Tool allowed by default" }

/-- `_REASON_MAX_CHARS`. -/
def REASON_MAX_CHARS : Nat := 240

/-- `_set_tool_decision`, for the call at `index`: the session's record, and the store's
when its file takes it. The latest record of a call stands first. -/
def HookState.setToolDecision (st : HookState) (index : Nat) (toolName : String) (args : Args)
    (allow : Bool) (operator : Option String) (reason : String) : HookState :=
  let argsHash := ctx.argsHash args
  let record : ApprovalRecord :=
    { operator := storeOperator ctx operator, sessionId := ctx.sessionId, toolName, argsHash, allow
      reason := String.ofList (reason.toList.take REASON_MAX_CHARS) }
  { session := { st.session with
      toolApproved := ((toolName, argsHash), allow) :: st.session.toolApproved }
    store := if ctx.recordLands index then record :: st.store else st.store }

end Records

end SherryAgent.Source.HumanInTheLoop
