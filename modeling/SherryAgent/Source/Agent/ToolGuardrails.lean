import SherryAgent.Source.Json
import SherryAgent.Source.PyText

/-!
# Tool guardrails

`agent/middlewares/tool_guardrails/core.py`: the loop detection around the tool calls of one
turn. A call passes the precheck or is answered by it, the handler runs, and its result is
evaluated; the digests of arguments and results are parameters. A tool or an action is known
by its metadata.
-/

namespace SherryAgent.Source.Agent

open SherryAgent.Source

inductive GuardrailAction where
  | allow | warn | block | halt
  deriving DecidableEq

/-- `_ACTION_RANK`. -/
def GuardrailAction.rank : GuardrailAction → Nat
  | .allow => 0
  | .warn => 1
  | .block => 2
  | .halt => 3

structure ToolCallGuardrailConfig where
  warningsEnabled : Bool := true
  hardStopEnabled : Bool := false
  exactFailureWarnAfter : Int := 2
  exactFailureBlockAfter : Int := 5
  sameToolFailureWarnAfter : Int := 3
  sameToolFailureHaltAfter : Int := 8
  noProgressWarnAfter : Int := 2
  noProgressBlockAfter : Int := 5
  pingPongWarnAfter : Int := 4
  pingPongBlockAfter : Int := 6
  argChurnMinCallsPerVariant : Int := 3
  argChurnWarnAfter : Int := 3
  argChurnBlockAfter : Int := 5
  resultRepetitionWarnAfter : Int := 3
  resultRepetitionBlockAfter : Int := 6
  streakWarnAfter : Int := 3
  streakMaxWarningsPerTurn : Int := 3
  recoveryModeEnabled : Bool := true
  recoveryMaxViolations : Int := 1

/-- The keys of a tool's `metadata` that the guardrails read. -/
structure ToolMetadata where
  idempotentActions : Option (List String) := none
  idempotent : Option Bool := none
  clearsGuardrailBlocks : Bool := false
  streakWarnAfter : Option Int := none

/-- A `ToolCallRequest`; `metadata` is `none` for a call without a tool or metadata. -/
structure ToolCallRequest where
  name : String
  args : List (String × Json) := []
  id : String := ""
  metadata : Option ToolMetadata := none

/-- The `ToolMessage` of an executed call. -/
structure ToolResultMessage where
  content : Json
  toolCallId : String
  name : Option String
  status : String := "success"

/-- `str(status).lower() == "error"`. -/
def ToolResultMessage.isError (message : ToolResultMessage) : Bool :=
  PyText.lower message.status == "error"

/-- `args_hash` and `_result_hash`. -/
structure Digests where
  argsHash : List (String × Json) → String
  resultHash : String → String

structure ToolCallRecord where
  name : String
  argsHash : String
  isError : Bool
  resultHash : Option String := none
  isStagnant : Bool := false

/-- The first component of `last_pathology`. -/
inductive Pathology where
  | pingPong | argumentChurn | resultRepetition | toolRepetition
  deriving DecidableEq

/-! ## Counters -/

/-- `counts.get(key, 0)`. -/
def countOf {κ : Type} [BEq κ] (counts : List (κ × Int)) (key : κ) : Int :=
  ((counts.find? (·.1 == key)).map (·.2)).getD 0

/-- `items[key] = value`. -/
def setItem {κ α : Type} [BEq κ] (items : List (κ × α)) (key : κ) (value : α) : List (κ × α) :=
  if items.any (·.1 == key) then
    items.map fun entry => if entry.1 == key then (key, value) else entry
  else items ++ [(key, value)]

structure TurnGuardrailState where
  records : List ToolCallRecord := []
  exactFailureCounts : List (String × Int) := []
  sameToolFailureCounts : List (String × Int) := []
  noProgressCounts : List (String × Int) := []
  blockedTools : List String := []
  haltDecision : Option GuardrailAction := none
  pingPongCounts : List (String × Int) := []
  argChurnVariants : List ((String × String) × Int) := []
  lastSignature : Option String := none
  signatureStreak : Int := 0
  streakWarningCount : Int := 0
  blockedSignatures : List String := []
  lastResultHashByTool : List (String × String) := []
  resultRepetitionStreaks : List (String × Int) := []
  resultRepetitionWarned : List String := []
  lastPathology : Option (Pathology × Int × Int) := none
  recoveryMode : Bool := false
  recoveryViolationCount : Int := 0

/-- `_MAX_RECORDS`. -/
def maxRecords : Nat := 200

/-! ## Tools -/

/-- `_is_idempotent`. -/
def isIdempotent (request : ToolCallRequest) : Bool :=
  match request.metadata with
  | none => false
  | some metadata =>
    match metadata.idempotentActions with
    | some allowlist =>
      match (Json.obj request.args).get "action" with
      | .str action => allowlist.contains action
      | _ => false
    | none => metadata.idempotent.getD false

/-- `_clears_blocks_on_progress`. -/
def clearsBlocksOnProgress (request : ToolCallRequest) : Bool :=
  request.metadata.any (·.clearsGuardrailBlocks)

/-- `_streak_threshold`. -/
def streakThreshold (config : ToolCallGuardrailConfig) (request : ToolCallRequest) : Int :=
  match request.metadata.bind (·.streakWarnAfter) with
  | some value => if 0 < value then value else config.streakWarnAfter
  | none => config.streakWarnAfter

/-- `_signature`. -/
def signature (toolName argsHash : String) : String := s!"{toolName}:{argsHash}"

namespace TurnGuardrailState

/-- `_clear_block_accumulators`. -/
def clearBlockAccumulators (gs : TurnGuardrailState) : TurnGuardrailState :=
  { gs with
    records := []
    exactFailureCounts := []
    sameToolFailureCounts := []
    noProgressCounts := []
    pingPongCounts := []
    argChurnVariants := []
    blockedTools := []
    blockedSignatures := []
    lastResultHashByTool := []
    resultRepetitionStreaks := []
    resultRepetitionWarned := []
    lastSignature := none
    signatureStreak := 0
    lastPathology := none
    recoveryMode := false
    recoveryViolationCount := 0 }

/-- A success of a tool that clears the blocks. -/
def clearOnProgress (gs : TurnGuardrailState) (request : ToolCallRequest) (isError : Bool) :
    TurnGuardrailState :=
  if !isError && clearsBlocksOnProgress request then gs.clearBlockAccumulators else gs

/-- `_update_signature_streak`. -/
def updateSignatureStreak (gs : TurnGuardrailState) (toolName argsHash : String) :
    TurnGuardrailState :=
  if gs.lastSignature == some (signature toolName argsHash) then
    { gs with signatureStreak := gs.signatureStreak + 1 }
  else { gs with lastSignature := some (signature toolName argsHash), signatureStreak := 1 }

end TurnGuardrailState

/-! ## Evaluation -/

/-- `_chain_action`. -/
def chainAction (config : ToolCallGuardrailConfig) (count warnAfter blockAfter : Int) :
    Option GuardrailAction :=
  if config.hardStopEnabled && decide (blockAfter ≤ count) then some .halt
  else if blockAfter ≤ count then some .block
  else if config.warningsEnabled && decide (warnAfter ≤ count) then some .warn
  else none

/-- The action raised to another one, never lowered. -/
def GuardrailAction.escalate (action : GuardrailAction) (other : Option GuardrailAction) :
    GuardrailAction :=
  match other with
  | some other => if action.rank < other.rank then other else action
  | none => action

/-- The failure chains: the exact call, then the tool. -/
def evaluateFailure (config : ToolCallGuardrailConfig) (gs : TurnGuardrailState)
    (toolName argsHash : String) : TurnGuardrailState × GuardrailAction :=
  let exactKey := signature toolName argsHash
  let exactCount := countOf gs.exactFailureCounts exactKey + 1
  let exactAction := chainAction config exactCount config.exactFailureWarnAfter
    config.exactFailureBlockAfter
  let sameCount := countOf gs.sameToolFailureCounts toolName + 1
  let sameAction := chainAction config sameCount config.sameToolFailureWarnAfter
    config.sameToolFailureHaltAfter
  ({ gs with
      exactFailureCounts := setItem gs.exactFailureCounts exactKey exactCount
      sameToolFailureCounts := setItem gs.sameToolFailureCounts toolName sameCount },
    (exactAction.getD .allow).escalate sameAction)

/-- A record of the tool with this result. -/
def producedBefore (gs : TurnGuardrailState) (toolName resultHash : String) : Bool :=
  gs.records.any fun record => record.name == toolName && record.resultHash == some resultHash

/-- An idempotent success whose result is on record. -/
def evaluateNoProgress (config : ToolCallGuardrailConfig) (gs : TurnGuardrailState)
    (toolName resultHash : String) : TurnGuardrailState × GuardrailAction :=
  if producedBefore gs toolName resultHash then
    let noProgressKey := s!"{toolName}:{resultHash}"
    let count := countOf gs.noProgressCounts noProgressKey + 1
    ({ gs with noProgressCounts := setItem gs.noProgressCounts noProgressKey count },
      (chainAction config count config.noProgressWarnAfter config.noProgressBlockAfter).getD .allow)
  else (gs, .allow)

/-- Step 4 of `_evaluate_pair_pathologies`. -/
def evaluatePingPong (config : ToolCallGuardrailConfig) (gs : TurnGuardrailState)
    (toolName : String) (isStagnant : Bool) (action : GuardrailAction) :
    TurnGuardrailState × GuardrailAction :=
  match gs.records.reverse with
  | _ :: previous :: _ =>
    let pairKey := if previous.name ≤ toolName then s!"{previous.name},{toolName}"
      else s!"{toolName},{previous.name}"
    if isStagnant && previous.isStagnant then
      let count := countOf gs.pingPongCounts pairKey + 1
      let gs := { gs with pingPongCounts := setItem gs.pingPongCounts pairKey count }
      let raised := chainAction config count config.pingPongWarnAfter config.pingPongBlockAfter
      match raised with
      | some _ =>
        ({ gs with lastPathology := some (.pingPong, count, config.pingPongBlockAfter) },
          action.escalate raised)
      | none => (gs, action)
    else
      let restarted := gs.pingPongCounts.map fun entry => (entry.1, (0 : Int))
      ({ gs with pingPongCounts := setItem restarted pairKey 0 }, action)
  | _ => (gs, action)

/-- Step 5 of `_evaluate_pair_pathologies`. -/
def evaluateArgChurn (config : ToolCallGuardrailConfig) (gs : TurnGuardrailState)
    (toolName argsHash : String) (resultHash : Option String) (isStagnant : Bool)
    (action : GuardrailAction) : TurnGuardrailState × GuardrailAction :=
  if isStagnant then
    let variantKey := (toolName, argsHash)
    let variants := setItem gs.argChurnVariants variantKey
      (countOf gs.argChurnVariants variantKey + 1)
    let gs := { gs with argChurnVariants := variants }
    if action.rank ≤ GuardrailAction.warn.rank then
      let distinct : Int := (variants.filter fun variant =>
        decide (config.argChurnMinCallsPerVariant ≤ variant.2)).length
      let raised := chainAction config distinct config.argChurnWarnAfter config.argChurnBlockAfter
      match raised with
      | some _ =>
        ({ gs with lastPathology := some (.argumentChurn, distinct, config.argChurnBlockAfter) },
          action.escalate raised)
      | none => (gs, action)
    else (gs, action)
  else if resultHash.isNone then ({ gs with argChurnVariants := [] }, action)
  else (gs, action)

/-- `_evaluate_pair_pathologies`. -/
def evaluatePairPathologies (config : ToolCallGuardrailConfig) (gs : TurnGuardrailState)
    (toolName argsHash : String) (resultHash : Option String) (isError isStagnant : Bool)
    (action : GuardrailAction) : TurnGuardrailState × GuardrailAction :=
  let (gs, action) := evaluatePingPong config gs toolName isStagnant action
  if isError then (gs, action)
  else evaluateArgChurn config gs toolName argsHash resultHash isStagnant action

/-- The tool's results in a row that were this one, with the current one. -/
def repetitionStreak (gs : TurnGuardrailState) (toolName outputHash : String) : Int :=
  if (gs.lastResultHashByTool.find? (·.1 == toolName)).any (·.2 == outputHash) then
    countOf gs.resultRepetitionStreaks toolName + 1
  else 1

def noteResult (gs : TurnGuardrailState) (toolName outputHash : String) : TurnGuardrailState :=
  { gs with
    lastResultHashByTool := setItem gs.lastResultHashByTool toolName outputHash
    resultRepetitionStreaks :=
      setItem gs.resultRepetitionStreaks toolName (repetitionStreak gs toolName outputHash) }

/-- A non-idempotent success whose result is the tool's last one. -/
def evaluateResultRepetition (config : ToolCallGuardrailConfig) (gs : TurnGuardrailState)
    (toolName outputHash : String) (action : GuardrailAction) :
    TurnGuardrailState × GuardrailAction :=
  let streak := repetitionStreak gs toolName outputHash
  let gs := noteResult gs toolName outputHash
  let pathology := some (Pathology.resultRepetition, streak, config.resultRepetitionBlockAfter)
  if config.resultRepetitionBlockAfter ≤ streak then
    let repetitionAction := if config.hardStopEnabled then GuardrailAction.halt else .block
    if action.rank < repetitionAction.rank then
      ({ gs with lastPathology := pathology }, repetitionAction)
    else (gs, action)
  else if config.resultRepetitionWarnAfter ≤ streak then
    if gs.resultRepetitionWarned.contains toolName then (gs, action)
    else
      let gs := { gs with resultRepetitionWarned := gs.resultRepetitionWarned ++ [toolName] }
      if action = .allow && config.warningsEnabled then
        ({ gs with lastPathology := pathology }, .warn)
      else (gs, action)
  else (gs, action)

/-- The streak of one signature: warnings while the turn's budget lasts, then the signature is
blocked. -/
def evaluateSignature (config : ToolCallGuardrailConfig) (gs : TurnGuardrailState)
    (request : ToolCallRequest) (argsHash : String) (action : GuardrailAction) :
    TurnGuardrailState × GuardrailAction :=
  let threshold := streakThreshold config request
  if action = .allow && config.warningsEnabled && decide (threshold ≤ gs.signatureStreak) then
    let pathology := some (Pathology.toolRepetition, gs.signatureStreak, threshold)
    if gs.streakWarningCount < config.streakMaxWarningsPerTurn then
      ({ gs with
          streakWarningCount := gs.streakWarningCount + 1
          lastPathology := pathology
          signatureStreak := 0 }, .warn)
    else
      ({ gs with
          blockedSignatures := gs.blockedSignatures ++ [signature request.name argsHash]
          lastPathology := pathology
          signatureStreak := 0 },
        if config.hardStopEnabled then .halt else .block)
  else (gs, action)

/-- The pathology of the last evaluation. -/
def TurnGuardrailState.pathology (gs : TurnGuardrailState) : Option Pathology :=
  gs.lastPathology.map (·.1)

/-- Recovery mode: the first block enters it, later ones are violations. -/
def evaluateRecovery (config : ToolCallGuardrailConfig) (gs : TurnGuardrailState)
    (action : GuardrailAction) : TurnGuardrailState × GuardrailAction :=
  if action = .block && config.recoveryModeEnabled &&
      !(gs.pathology == some .toolRepetition || gs.pathology == some .resultRepetition) then
    if !gs.recoveryMode then ({ gs with recoveryMode := true }, action)
    else
      let violations := gs.recoveryViolationCount + 1
      ({ gs with recoveryViolationCount := violations },
        if config.recoveryMaxViolations < violations then .halt else action)
  else (gs, action)

/-- The halt is kept, and a block that is no signature block closes the tool. -/
def applyAction (gs : TurnGuardrailState) (toolName : String) (action : GuardrailAction) :
    TurnGuardrailState :=
  match action with
  | .halt => { gs with haltDecision := some .halt }
  | .block =>
    if gs.pathology == some .toolRepetition then gs
    else if gs.blockedTools.contains toolName then gs
    else { gs with blockedTools := gs.blockedTools ++ [toolName] }
  | _ => gs

/-- The chain of failures or of no progress, by the call's status. -/
def evaluateStatus (config : ToolCallGuardrailConfig) (gs : TurnGuardrailState)
    (toolName argsHash : String) (resultHash : Option String) (isError idempotent : Bool) :
    TurnGuardrailState × GuardrailAction :=
  if isError then evaluateFailure config gs toolName argsHash
  else if idempotent then
    match resultHash with
    | some resultHash => evaluateNoProgress config gs toolName resultHash
    | none => (gs, .allow)
  else (gs, .allow)

/-- `_evaluate`. -/
def evaluate (config : ToolCallGuardrailConfig) (gs : TurnGuardrailState)
    (request : ToolCallRequest) (argsHash : String) (resultHash : Option String)
    (isError idempotent isStagnant : Bool) (outputHash : Option String) :
    TurnGuardrailState × GuardrailAction :=
  let toolName := request.name
  let gs := { gs with lastPathology := none }.updateSignatureStreak toolName argsHash
  if gs.haltDecision.isSome then (gs, .halt)
  else if gs.blockedTools.contains toolName then (gs, .block)
  else
    let (gs, action) := evaluateStatus config gs toolName argsHash resultHash isError idempotent
    let (gs, action) := if action.rank ≤ GuardrailAction.warn.rank then
        evaluatePairPathologies config gs toolName argsHash resultHash isError isStagnant action
      else (gs, action)
    let (gs, action) := match outputHash with
      | some outputHash =>
        if action ≠ .halt && !isError && !idempotent then
          evaluateResultRepetition config gs toolName outputHash action
        else (gs, action)
      | none => (gs, action)
    let (gs, action) := evaluateSignature config gs request argsHash action
    let (gs, action) := evaluateRecovery config gs action
    (applyAction gs toolName action, action)

/-! ## Messages -/

/-- `_pathology_label`. -/
def pathologyLabel : Pathology → String
  | .pingPong => "ping-pong loop"
  | .argumentChurn => "argument churn"
  | .resultRepetition => "repeated identical result"
  | .toolRepetition => "repeated identical call"

def warningMessage (toolName pathology : String) (count limit : Int) : String :=
  s!"⚠ Tool [{toolName}] {pathology} detected ({count}/{limit}). " ++
  "Consider using a different approach or tool. " ++
  "If you keep repeating, this tool may be blocked."

def blockMessage (toolName pathology : String) (count limit : Int) : String :=
  s!"🚫 Tool [{toolName}] has been BLOCKED due to {pathology} " ++
  s!"({count} occurrences, limit: {limit}). " ++
  "Execution skipped. You MUST use a different approach."

def haltMessage (toolName pathology : String) : String :=
  s!"🔴 Agent halted: tool [{toolName}] triggered circuit breaker " ++
  s!"due to {pathology}. The entire turn is being terminated " ++
  "to prevent an infinite loop."

def errorAnswer (request : ToolCallRequest) (content : String) : ToolResultMessage :=
  { content := .str content, toolCallId := request.id, name := some request.name, status := "error" }

def haltAnswer (gs : TurnGuardrailState) (request : ToolCallRequest) : ToolResultMessage :=
  errorAnswer request <| haltMessage request.name <|
    if gs.recoveryMode then "recovery mode violation limit exceeded"
    else match gs.pathology with
      | some kind => pathologyLabel kind
      | none => "excessive repetition"

/-- The count and limit of a failure or of no progress, by the chain that is reported. -/
def noProgressCount (gs : TurnGuardrailState) (toolName : String) (resultHash : Option String) :
    Int :=
  countOf gs.noProgressCounts <| match resultHash with
    | some resultHash => if resultHash == "" then "" else s!"{toolName}:{resultHash}"
    | none => ""

def blockAnswer (config : ToolCallGuardrailConfig) (gs : TurnGuardrailState)
    (request : ToolCallRequest) (argsHash : String) (resultHash : Option String) (isError : Bool) :
    ToolResultMessage :=
  errorAnswer request <| match gs.lastPathology with
    | some (kind, count, limit) => blockMessage request.name (pathologyLabel kind) count limit
    | none =>
      if gs.recoveryMode then
        s!"⚠️ Tool [{request.name}] blocked; recovery mode active — retry allowed " ++
        s!"once (violations: {gs.recoveryViolationCount}/" ++ s!"{config.recoveryMaxViolations})."
      else if isError then
        let exactCount := countOf gs.exactFailureCounts (signature request.name argsHash)
        let sameCount := countOf gs.sameToolFailureCounts request.name
        if config.sameToolFailureHaltAfter ≤ sameCount then
          blockMessage request.name "same-tool failure accumulation" sameCount
            config.sameToolFailureHaltAfter
        else blockMessage request.name "exact failure repetition" exactCount
          config.exactFailureBlockAfter
      else blockMessage request.name "idempotent no-progress"
        (noProgressCount gs request.name resultHash) config.noProgressBlockAfter

def warnAnswer (config : ToolCallGuardrailConfig) (gs : TurnGuardrailState)
    (request : ToolCallRequest) (result : ToolResultMessage) (resultContent argsHash : String)
    (resultHash : Option String) (isError : Bool) : ToolResultMessage :=
  let warning := match gs.lastPathology with
    | some (kind, count, limit) => warningMessage request.name (pathologyLabel kind) count limit
    | none =>
      if isError then
        let exactCount := countOf gs.exactFailureCounts (signature request.name argsHash)
        let sameCount := countOf gs.sameToolFailureCounts request.name
        if config.exactFailureWarnAfter ≤ exactCount then
          warningMessage request.name "exact failure repetition" exactCount
            config.exactFailureBlockAfter
        else warningMessage request.name "same-tool failure accumulation" sameCount
          config.sameToolFailureHaltAfter
      else warningMessage request.name "idempotent no-progress"
        (noProgressCount gs request.name resultHash) config.noProgressBlockAfter
  { result with content := .str (resultContent ++ "\n\n" ++ warning) }

/-! ## One call -/

/-- An evaluated call: the state, the action and the message that answers it. -/
structure Evaluated where
  gs : TurnGuardrailState
  action : GuardrailAction
  answer : ToolResultMessage

/-- `gs.records` with one more record, the last `_MAX_RECORDS` of them. -/
def TurnGuardrailState.appendRecord (gs : TurnGuardrailState) (record : ToolCallRecord) :
    TurnGuardrailState :=
  let records := gs.records ++ [record]
  { gs with records := records.drop (records.length - maxRecords) }

/-- `_wrap_tool_call_locked`. -/
def wrapToolCallLocked (digests : Digests) (config : ToolCallGuardrailConfig)
    (gs : TurnGuardrailState) (request : ToolCallRequest) (result : ToolResultMessage) : Evaluated :=
  let argsDigest := digests.argsHash request.args
  let idempotent := isIdempotent request
  let isError := result.isError
  let resultContent := if result.content.truthy then result.content.pyStr else ""
  let outputHash := if isError then none else some (digests.resultHash resultContent)
  let resultHash := if idempotent then outputHash else none
  let gs := gs.clearOnProgress request isError
  let isStagnant := idempotent && resultHash.any (producedBefore gs request.name)
  let record : ToolCallRecord :=
    { name := request.name, argsHash := argsDigest, isError, resultHash, isStagnant }
  let (gs, action) := evaluate config (gs.appendRecord record) request argsDigest resultHash isError
    idempotent isStagnant outputHash
  { gs
    action
    answer := match action with
      | .halt => haltAnswer gs request
      | .block => blockAnswer config gs request argsDigest resultHash isError
      | .warn => warnAnswer config gs request result resultContent argsDigest resultHash isError
      | .allow => result }

/-- `_wrap_tool_call_precheck`: the message that answers the call instead of the handler, and
the state. -/
def wrapToolCallPrecheck (digests : Digests) (config : ToolCallGuardrailConfig)
    (gs : TurnGuardrailState) (request : ToolCallRequest) : Option ToolResultMessage × TurnGuardrailState :=
  if gs.haltDecision.isSome then
    (some (errorAnswer request (haltMessage request.name "previous halt")), gs)
  else if gs.blockedSignatures.contains (signature request.name (digests.argsHash request.args)) then
    (some (errorAnswer request (blockMessage request.name "repeated identical call" 0 0)), gs)
  else if config.recoveryModeEnabled && gs.recoveryMode && gs.blockedTools.contains request.name then
    (none, { gs with blockedTools := gs.blockedTools.filter (· != request.name) })
  else if gs.blockedTools.contains request.name then
    (some (errorAnswer request (blockMessage request.name "previously blocked" 0 0)), gs)
  else (none, gs)

/-- What becomes of a call: the precheck answers it, or the handler is reached and raises, or
its result is evaluated. -/
inductive Outcome where
  | refused (answer : ToolResultMessage)
  | raised
  | evaluated (action : GuardrailAction) (pathology : Option Pathology) (answer : ToolResultMessage)

/-- `wrap_tool_call`; `result` is what the handler answers, `none` when it raises. -/
def wrapToolCall (digests : Digests) (config : ToolCallGuardrailConfig) (gs : TurnGuardrailState)
    (request : ToolCallRequest) (result : Option ToolResultMessage) : TurnGuardrailState × Outcome :=
  match wrapToolCallPrecheck digests config gs request with
  | (some answer, gs) => (gs, .refused answer)
  | (none, gs) =>
    match result with
    | none => (gs, .raised)
    | some result =>
      let evaluated := wrapToolCallLocked digests config gs request result
      (evaluated.gs, .evaluated evaluated.action evaluated.gs.pathology evaluated.answer)

end SherryAgent.Source.Agent
