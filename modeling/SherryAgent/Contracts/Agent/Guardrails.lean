import SherryAgent.Source.Agent.ToolGuardrails

/-!
# What an evaluation may change

The blocks, the halt and the recovery counters of a turn. The pathology checks raise the action
and leave these alone; only the signature check, the recovery mode and the final action write
them.
-/

namespace SherryAgent.Contracts.Agent

open SherryAgent.Source SherryAgent.Source.Agent

/-- The part of the state that decides whether a call passes. -/
structure Blocks where
  tools : List String
  signatures : List String
  halt : Option GuardrailAction
  recovery : Bool
  violations : Int

def blocks (gs : TurnGuardrailState) : Blocks :=
  ⟨gs.blockedTools, gs.blockedSignatures, gs.haltDecision, gs.recoveryMode, gs.recoveryViolationCount⟩

/-- A check that leaves the blocks alone and reports no signature. -/
structure Checked (before after : TurnGuardrailState) : Prop where
  blocks : blocks after = blocks before
  pathology : before.pathology ≠ some .toolRepetition → after.pathology ≠ some .toolRepetition

theorem Checked.refl (gs : TurnGuardrailState) : Checked gs gs := ⟨rfl, id⟩

theorem Checked.trans {a b c : TurnGuardrailState} (first : Checked a b) (second : Checked b c) :
    Checked a c :=
  ⟨second.blocks.trans first.blocks, fun other => second.pathology (first.pathology other)⟩

/-- A check that does not report anything. -/
theorem Checked.silent {before after : TurnGuardrailState} (same : Agent.blocks after = Agent.blocks before)
    (quiet : after.lastPathology = before.lastPathology) : Checked before after := by
  refine ⟨same, fun other => ?_⟩
  rw [TurnGuardrailState.pathology, quiet]
  exact other

section Checks

variable (config : ToolCallGuardrailConfig) (gs : TurnGuardrailState) (toolName argsHash : String)

theorem evaluateStatus_checked (resultHash : Option String) (isError idempotent : Bool) :
    Checked gs (evaluateStatus config gs toolName argsHash resultHash isError idempotent).1 := by
  unfold evaluateStatus
  split
  · exact .silent rfl rfl
  split
  · cases resultHash with
    | none => exact .refl gs
    | some hash =>
      dsimp only
      unfold evaluateNoProgress
      split
      · exact .silent rfl rfl
      · exact .refl gs
  · exact .refl gs

theorem evaluatePingPong_checked (isStagnant : Bool) (action : GuardrailAction) :
    Checked gs (evaluatePingPong config gs toolName isStagnant action).1 := by
  unfold evaluatePingPong
  split
  · dsimp only
    split
    · split
      · exact ⟨rfl, fun _ => by simp [TurnGuardrailState.pathology]⟩
      · exact .silent rfl rfl
    · exact .silent rfl rfl
  · exact .refl gs

theorem evaluateArgChurn_checked (resultHash : Option String) (isStagnant : Bool)
    (action : GuardrailAction) :
    Checked gs (evaluateArgChurn config gs toolName argsHash resultHash isStagnant action).1 := by
  unfold evaluateArgChurn
  dsimp only
  split
  · split
    · split
      · exact ⟨rfl, fun _ => by simp [TurnGuardrailState.pathology]⟩
      · exact .silent rfl rfl
    · exact .silent rfl rfl
  · split
    · exact .silent rfl rfl
    · exact .refl gs

theorem evaluatePairPathologies_checked (resultHash : Option String) (isError isStagnant : Bool)
    (action : GuardrailAction) :
    Checked gs (evaluatePairPathologies config gs toolName argsHash resultHash isError isStagnant
      action).1 := by
  unfold evaluatePairPathologies
  have paired := evaluatePingPong_checked config gs toolName isStagnant action
  dsimp only
  split
  · exact paired
  · exact paired.trans (evaluateArgChurn_checked config _ toolName argsHash resultHash isStagnant _)

theorem evaluateResultRepetition_checked (outputHash : String) (action : GuardrailAction) :
    Checked gs (evaluateResultRepetition config gs toolName outputHash action).1 := by
  unfold evaluateResultRepetition
  have noted : Checked gs (noteResult gs toolName outputHash) := .silent rfl rfl
  generalize noteResult gs toolName outputHash = after at noted
  generalize repetitionStreak gs toolName outputHash = streak
  dsimp only
  generalize (if config.hardStopEnabled = true then GuardrailAction.halt else .block) = raised
  split
  · split
    · exact noted.trans ⟨rfl, fun _ => by simp [TurnGuardrailState.pathology]⟩
    · exact noted
  split
  · split
    · exact noted
    · split
      · exact noted.trans ⟨rfl, fun _ => by simp [TurnGuardrailState.pathology]⟩
      · exact noted.trans (.silent rfl rfl)
  · exact noted

end Checks

/-! ## Signature, recovery and action -/

/-- A block that neither a repeated signature nor a repeated result caused. -/
def otherBlock (action : GuardrailAction) (pathology : Option Pathology) : Bool :=
  action == .block && !(pathology == some .toolRepetition || pathology == some .resultRepetition)

/-- What an evaluation makes of the blocks. -/
structure Evaluates (config : ToolCallGuardrailConfig) (request : ToolCallRequest)
    (argsHash : String) (before after : TurnGuardrailState) (action : GuardrailAction) : Prop where
  tools : ∀ tool ∈ before.blockedTools, tool ∈ after.blockedTools
  signatures : ∀ other ∈ before.blockedSignatures, other ∈ after.blockedSignatures
  signed : action = .block → after.pathology = some .toolRepetition →
    signature request.name argsHash ∈ after.blockedSignatures
  closed : action = .block → after.pathology ≠ some .toolRepetition →
    request.name ∈ after.blockedTools
  recovery : before.recoveryMode = true → after.recoveryMode = true
  violations : before.recoveryViolationCount ≤ after.recoveryViolationCount
  counted : config.recoveryModeEnabled = true → otherBlock action after.pathology = true →
    after.recoveryMode = true ∧ (before.recoveryMode = true →
      after.recoveryViolationCount = before.recoveryViolationCount + 1 ∧
        after.recoveryViolationCount ≤ config.recoveryMaxViolations)

theorem blocks_appendRecord (gs : TurnGuardrailState) (record : ToolCallRecord) :
    blocks (gs.appendRecord record) = blocks gs := by
  simp only [blocks, TurnGuardrailState.appendRecord]

theorem Evaluates.of_blocks {config : ToolCallGuardrailConfig} {request : ToolCallRequest}
    {argsHash : String} {before recorded after : TurnGuardrailState} {action : GuardrailAction}
    (evaluates : Evaluates config request argsHash recorded after action)
    (same : blocks recorded = blocks before) :
    Evaluates config request argsHash before after action := by
  have tools : recorded.blockedTools = before.blockedTools := congrArg Blocks.tools same
  have signatures : recorded.blockedSignatures = before.blockedSignatures :=
    congrArg Blocks.signatures same
  have recovery : recorded.recoveryMode = before.recoveryMode := congrArg Blocks.recovery same
  have violations : recorded.recoveryViolationCount = before.recoveryViolationCount :=
    congrArg Blocks.violations same
  exact ⟨tools ▸ evaluates.tools, signatures ▸ evaluates.signatures, evaluates.signed,
    evaluates.closed, recovery ▸ evaluates.recovery, violations ▸ evaluates.violations,
    recovery ▸ violations ▸ evaluates.counted⟩

section Last

variable (config : ToolCallGuardrailConfig) (gs : TurnGuardrailState) (request : ToolCallRequest)
  (argsHash : String)

/-- The signature check blocks no more than the signature, and the signature when it blocks. -/
structure Signs (before after : TurnGuardrailState) (action : GuardrailAction) : Prop where
  tools : after.blockedTools = before.blockedTools
  signatures : ∀ other ∈ before.blockedSignatures, other ∈ after.blockedSignatures
  recovery : after.recoveryMode = before.recoveryMode
  violations : after.recoveryViolationCount = before.recoveryViolationCount
  signed : action = .block → after.pathology = some .toolRepetition →
    signature request.name argsHash ∈ after.blockedSignatures

theorem evaluateSignature_signs (unsigned : gs.pathology ≠ some .toolRepetition)
    (action : GuardrailAction) :
    Signs request argsHash gs (evaluateSignature config gs request argsHash action).1
      (evaluateSignature config gs request argsHash action).2 := by
  unfold evaluateSignature
  dsimp only
  split
  · split
    · exact ⟨rfl, fun _ => id, rfl, rfl, fun warned => by cases warned⟩
    · exact ⟨rfl, fun _ => List.mem_append_left _, rfl, rfl, fun _ _ => by simp⟩
  · exact ⟨rfl, fun _ => id, rfl, rfl, fun _ signed => absurd signed unsigned⟩

theorem applyAction_pathology (toolName : String) (action : GuardrailAction) :
    (applyAction gs toolName action).pathology = gs.pathology := by
  unfold applyAction
  split
  · rfl
  · split
    · rfl
    · split <;> rfl
  · rfl

/-- The final action keeps the signatures and the recovery counters. -/
theorem applyAction_keeps (toolName : String) (action : GuardrailAction) :
    (applyAction gs toolName action).blockedSignatures = gs.blockedSignatures ∧
      (applyAction gs toolName action).recoveryMode = gs.recoveryMode ∧
      (applyAction gs toolName action).recoveryViolationCount = gs.recoveryViolationCount ∧
      ∀ tool ∈ gs.blockedTools, tool ∈ (applyAction gs toolName action).blockedTools := by
  unfold applyAction
  split
  · exact ⟨rfl, rfl, rfl, fun _ => id⟩
  · split
    · exact ⟨rfl, rfl, rfl, fun _ => id⟩
    · split
      · exact ⟨rfl, rfl, rfl, fun _ => id⟩
      · exact ⟨rfl, rfl, rfl, fun _ => List.mem_append_left _⟩
  · exact ⟨rfl, rfl, rfl, fun _ => id⟩

theorem applyAction_closes (toolName : String) (unsigned : gs.pathology ≠ some .toolRepetition) :
    toolName ∈ (applyAction gs toolName .block).blockedTools := by
  unfold applyAction
  dsimp only
  rw [if_neg (by simpa using unsigned)]
  split
  · rename_i closed
    simpa using closed
  · exact List.mem_append_right _ List.mem_cons_self

/-- What the recovery mode makes of an action. -/
structure Recovers (before after : TurnGuardrailState) (action result : GuardrailAction) : Prop where
  tools : after.blockedTools = before.blockedTools
  signatures : after.blockedSignatures = before.blockedSignatures
  pathology : after.pathology = before.pathology
  blocked : result = .block → action = .block
  recovery : before.recoveryMode = true → after.recoveryMode = true
  violations : before.recoveryViolationCount ≤ after.recoveryViolationCount
  counted : config.recoveryModeEnabled = true → otherBlock result after.pathology = true →
    after.recoveryMode = true ∧ (before.recoveryMode = true →
      after.recoveryViolationCount = before.recoveryViolationCount + 1 ∧
        after.recoveryViolationCount ≤ config.recoveryMaxViolations)

theorem evaluateRecovery_recovers (action : GuardrailAction) :
    Recovers config gs (evaluateRecovery config gs action).1 action
      (evaluateRecovery config gs action).2 := by
  unfold evaluateRecovery
  split
  · rename_i counted
    have blocked : action = .block := by
      simp only [Bool.and_eq_true, decide_eq_true_eq] at counted
      exact counted.1.1
    split
    · rename_i first
      refine ⟨rfl, rfl, rfl, fun _ => blocked, fun _ => rfl, Int.le_refl _,
        fun _ _ => ⟨rfl, fun again => ?_⟩⟩
      rw [again] at first
      cases first
    · rename_i again
      have recovering : gs.recoveryMode = true := by simpa using again
      dsimp only
      refine ⟨rfl, rfl, rfl, fun _ => blocked, id, by dsimp only; omega, fun _ other => ?_⟩
      refine ⟨recovering, fun _ => ⟨rfl, ?_⟩⟩
      by_contra exceeded
      have halted : config.recoveryMaxViolations < gs.recoveryViolationCount + 1 := by
        dsimp only at exceeded
        omega
      rw [if_pos halted] at other
      cases other
  · rename_i uncounted
    refine ⟨rfl, rfl, rfl, id, id, Int.le_refl _, fun enabled other => absurd ?_ uncounted⟩
    rw [otherBlock, Bool.and_eq_true, beq_iff_eq] at other
    rw [Bool.and_eq_true, Bool.and_eq_true, decide_eq_true_eq]
    exact ⟨⟨other.1, enabled⟩, other.2⟩

/-- The checks up to the signature. -/
def checked (config : ToolCallGuardrailConfig) (gs : TurnGuardrailState) (toolName argsHash : String)
    (resultHash : Option String) (isError idempotent isStagnant : Bool)
    (outputHash : Option String) : TurnGuardrailState × GuardrailAction :=
  let (gs, action) := evaluateStatus config gs toolName argsHash resultHash isError idempotent
  let (gs, action) := if action.rank ≤ GuardrailAction.warn.rank then
      evaluatePairPathologies config gs toolName argsHash resultHash isError isStagnant action
    else (gs, action)
  match outputHash with
  | some outputHash =>
    if action ≠ .halt && !isError && !idempotent then
      evaluateResultRepetition config gs toolName outputHash action
    else (gs, action)
  | none => (gs, action)

theorem checked_checked (toolName : String) (resultHash : Option String)
    (isError idempotent isStagnant : Bool) (outputHash : Option String) :
    Checked gs (checked config gs toolName argsHash resultHash isError idempotent isStagnant
      outputHash).1 := by
  unfold checked
  have status := evaluateStatus_checked config gs toolName argsHash resultHash isError idempotent
  generalize evaluateStatus config gs toolName argsHash resultHash isError idempotent = first
    at status
  have paired : Checked gs (if first.2.rank ≤ GuardrailAction.warn.rank then
      evaluatePairPathologies config first.1 toolName argsHash resultHash isError isStagnant first.2
    else (first.1, first.2)).1 := by
    split
    · exact status.trans (evaluatePairPathologies_checked ..)
    · exact status
  dsimp only
  generalize (if first.2.rank ≤ GuardrailAction.warn.rank then
      evaluatePairPathologies config first.1 toolName argsHash resultHash isError isStagnant first.2
    else (first.1, first.2)) = second at paired ⊢
  cases outputHash with
  | none => exact paired
  | some outputHash =>
    dsimp only
    split
    · exact paired.trans (evaluateResultRepetition_checked ..)
    · exact paired

/-- The steps of `_evaluate` from the signature check on. -/
def conclude (config : ToolCallGuardrailConfig) (request : ToolCallRequest) (argsHash : String)
    (middle : TurnGuardrailState × GuardrailAction) : TurnGuardrailState × GuardrailAction :=
  let signed := evaluateSignature config middle.1 request argsHash middle.2
  let final := evaluateRecovery config signed.1 signed.2
  (applyAction final.1 request.name final.2, final.2)

theorem evaluate_eq (resultHash : Option String) (isError idempotent isStagnant : Bool)
    (outputHash : Option String) (start : TurnGuardrailState)
    (begins : { gs with lastPathology := none }.updateSignatureStreak request.name argsHash = start)
    (running : start.haltDecision = none) (unblocked : request.name ∉ start.blockedTools) :
    evaluate config gs request argsHash resultHash isError idempotent isStagnant outputHash =
      conclude config request argsHash (checked config start request.name argsHash resultHash isError
        idempotent isStagnant outputHash) := by
  have goes_on : ¬start.haltDecision.isSome = true := by simp [running]
  have passes : ¬start.blockedTools.contains request.name = true := by simpa using unblocked
  unfold evaluate
  dsimp only
  rw [begins, if_neg goes_on, if_neg passes]
  rfl

/-- `_evaluate` on a turn that is not halted, for a tool that is not blocked. -/
theorem evaluate_evaluates (resultHash : Option String) (isError idempotent isStagnant : Bool)
    (outputHash : Option String) (running : gs.haltDecision = none)
    (unblocked : request.name ∉ gs.blockedTools) :
    Evaluates config request argsHash gs
      (evaluate config gs request argsHash resultHash isError idempotent isStagnant outputHash).1
      (evaluate config gs request argsHash resultHash isError idempotent isStagnant outputHash).2 := by
  have started : blocks ({ gs with lastPathology := none }.updateSignatureStreak request.name
      argsHash) = blocks gs ∧ ({ gs with lastPathology := none }.updateSignatureStreak request.name
      argsHash).pathology = none := by
    unfold TurnGuardrailState.updateSignatureStreak
    split <;> exact ⟨rfl, rfl⟩
  generalize begins : { gs with lastPathology := none }.updateSignatureStreak request.name argsHash =
    start at started
  have closed : start.blockedTools = gs.blockedTools := congrArg Blocks.tools started.1
  rw [evaluate_eq config gs request argsHash resultHash isError idempotent isStagnant outputHash
    start begins ((congrArg Blocks.halt started.1).trans running) (closed ▸ unblocked), conclude]
  have through := checked_checked config start argsHash request.name resultHash isError idempotent
    isStagnant outputHash
  generalize checked config start request.name argsHash resultHash isError idempotent isStagnant
    outputHash = middle at through
  have unsigned : middle.1.pathology ≠ some .toolRepetition :=
    through.pathology (by rw [started.2]; exact nofun)
  have signs := evaluateSignature_signs config middle.1 request argsHash unsigned middle.2
  generalize evaluateSignature config middle.1 request argsHash middle.2 = signed at signs
  have recovers := evaluateRecovery_recovers config signed.1 signed.2
  generalize evaluateRecovery config signed.1 signed.2 = final at recovers
  dsimp only
  obtain ⟨signatures, recovery, violations, tools⟩ :=
    applyAction_keeps final.1 request.name final.2
  have same := through.blocks.trans started.1
  have before_tools : signed.1.blockedTools = gs.blockedTools :=
    signs.tools.trans (congrArg Blocks.tools same)
  have before_signatures : middle.1.blockedSignatures = gs.blockedSignatures :=
    congrArg Blocks.signatures same
  have before_recovery : signed.1.recoveryMode = gs.recoveryMode :=
    signs.recovery.trans (congrArg Blocks.recovery same)
  have before_violations : signed.1.recoveryViolationCount = gs.recoveryViolationCount :=
    signs.violations.trans (congrArg Blocks.violations same)
  refine ⟨fun tool member => ?_, fun other member => ?_, fun blocked signed_block => ?_,
    fun blocked other => ?_, fun recovering => ?_, ?_, fun enabled other => ?_⟩
  · exact tools tool (recovers.tools ▸ before_tools ▸ member)
  · rw [signatures, recovers.signatures]
    exact signs.signatures other (before_signatures ▸ member)
  · rw [applyAction_pathology, recovers.pathology] at signed_block
    rw [signatures, recovers.signatures]
    exact signs.signed (recovers.blocked blocked) signed_block
  · rw [applyAction_pathology] at other
    rw [blocked]
    exact applyAction_closes final.1 request.name other
  · rw [recovery]
    exact recovers.recovery (before_recovery ▸ recovering)
  · rw [violations, ← before_violations]
    exact recovers.violations
  · rw [applyAction_pathology] at other
    rw [recovery, violations, ← before_recovery, ← before_violations]
    exact recovers.counted enabled other

end Last

/-! ## One call -/

variable {digests : Digests} {config : ToolCallGuardrailConfig} {gs : TurnGuardrailState}
  {request : ToolCallRequest}

/-- The handler's result is a success of a tool that clears the blocks. -/
def clearsBlocks (request : ToolCallRequest) (result : ToolResultMessage) : Bool :=
  !result.isError && clearsBlocksOnProgress request

theorem wrapToolCallLocked_evaluates (result : ToolResultMessage) (running : gs.haltDecision = none)
    (unblocked : request.name ∉ gs.blockedTools) :
    Evaluates config request (digests.argsHash request.args)
      (gs.clearOnProgress request result.isError)
      (wrapToolCallLocked digests config gs request result).gs
      (wrapToolCallLocked digests config gs request result).action := by
  have still_running : (gs.clearOnProgress request result.isError).haltDecision = none := by
    unfold TurnGuardrailState.clearOnProgress
    split <;> exact running
  have still_unblocked :
      request.name ∉ (gs.clearOnProgress request result.isError).blockedTools := by
    unfold TurnGuardrailState.clearOnProgress
    split
    · exact List.not_mem_nil
    · exact unblocked
  unfold wrapToolCallLocked
  dsimp only
  generalize gs.clearOnProgress request result.isError = before at still_running still_unblocked ⊢
  generalize recording : before.appendRecord _ = recorded
  have same : blocks recorded = blocks before :=
    (congrArg blocks recording.symm).trans (blocks_appendRecord _ _)
  have halt : recorded.haltDecision = none := (congrArg Blocks.halt same).trans still_running
  have tools : recorded.blockedTools = before.blockedTools := congrArg Blocks.tools same
  exact (evaluate_evaluates config recorded request _ _ _ _ _ _ halt
    (tools ▸ still_unblocked)).of_blocks same

/-- The precheck takes the tool off the blocked ones: the turn recovers. -/
structure Releases (digests : Digests) (config : ToolCallGuardrailConfig) (gs : TurnGuardrailState)
    (request : ToolCallRequest) : Prop where
  running : gs.haltDecision = none
  unsigned : signature request.name (digests.argsHash request.args) ∉ gs.blockedSignatures
  enabled : config.recoveryModeEnabled = true
  recovering : gs.recoveryMode = true
  closed : request.name ∈ gs.blockedTools

instance : Decidable (Releases digests config gs request) :=
  decidable_of_iff (gs.haltDecision = none ∧
    signature request.name (digests.argsHash request.args) ∉ gs.blockedSignatures ∧
    config.recoveryModeEnabled = true ∧ gs.recoveryMode = true ∧ request.name ∈ gs.blockedTools)
    ⟨fun all => ⟨all.1, all.2.1, all.2.2.1, all.2.2.2.1, all.2.2.2.2⟩,
      fun releases => ⟨releases.running, releases.unsigned, releases.enabled, releases.recovering,
        releases.closed⟩⟩

/-- A call that passes the precheck, and the state it passes with. -/
structure Passes (digests : Digests) (config : ToolCallGuardrailConfig)
    (gs passed : TurnGuardrailState) (request : ToolCallRequest) : Prop where
  through : (wrapToolCallPrecheck digests config gs request).1 = none
  running : gs.haltDecision = none
  unsigned : signature request.name (digests.argsHash request.args) ∉ gs.blockedSignatures
  released : Releases digests config gs request ∧
      passed = { gs with blockedTools := gs.blockedTools.filter (· != request.name) } ∨
    request.name ∉ gs.blockedTools ∧ passed = gs

theorem precheck_cases :
    (∃ answer, wrapToolCallPrecheck digests config gs request = (some answer, gs)) ∨
    ∃ passed, wrapToolCallPrecheck digests config gs request = (none, passed) ∧
      Passes digests config gs passed request := by
  generalize checking : wrapToolCallPrecheck digests config gs request = outcome
  have through := congrArg Prod.fst checking
  unfold wrapToolCallPrecheck at checking
  split at checking
  · exact .inl ⟨_, checking.symm⟩
  rename_i running
  have running : gs.haltDecision = none := by simpa using running
  split at checking
  · exact .inl ⟨_, checking.symm⟩
  rename_i unsigned
  simp only [List.contains_iff_mem] at unsigned
  split at checking
  · rename_i releasing
    simp only [Bool.and_eq_true, List.contains_iff_mem] at releasing
    obtain ⟨⟨enabled, recovering⟩, closed⟩ := releasing
    subst checking
    exact .inr ⟨_, rfl, through, running, unsigned,
      .inl ⟨⟨running, unsigned, enabled, recovering, closed⟩, rfl⟩⟩
  split at checking
  · exact .inl ⟨_, checking.symm⟩
  · rename_i unblocked
    simp only [List.contains_iff_mem] at unblocked
    subst checking
    exact .inr ⟨gs, rfl, through, running, unsigned, .inr ⟨unblocked, rfl⟩⟩

namespace Passes

variable {passed : TurnGuardrailState}

theorem halt (passes : Passes digests config gs passed request) : passed.haltDecision = none := by
  rcases passes.released with ⟨-, rfl⟩ | ⟨-, rfl⟩ <;> exact passes.running

theorem unblocked (passes : Passes digests config gs passed request) :
    request.name ∉ passed.blockedTools := by
  rcases passes.released with ⟨-, rfl⟩ | ⟨unblocked, rfl⟩
  · simp
  · exact unblocked

theorem signatures (passes : Passes digests config gs passed request) :
    passed.blockedSignatures = gs.blockedSignatures := by
  rcases passes.released with ⟨-, rfl⟩ | ⟨-, rfl⟩ <;> rfl

theorem recovery (passes : Passes digests config gs passed request) :
    passed.recoveryMode = gs.recoveryMode ∧
      passed.recoveryViolationCount = gs.recoveryViolationCount := by
  rcases passes.released with ⟨-, rfl⟩ | ⟨-, rfl⟩ <;> exact ⟨rfl, rfl⟩

/-- Only the tool that is called is taken off. -/
theorem tools (passes : Passes digests config gs passed request) {tool : String}
    (blocked : tool ∈ gs.blockedTools) (other : tool ≠ request.name) :
    tool ∈ passed.blockedTools := by
  rcases passes.released with ⟨-, rfl⟩ | ⟨-, rfl⟩
  · simpa [other] using blocked
  · exact blocked

end Passes

/-- One call: refused, raised by the handler, or evaluated. -/
inductive Wrapped (digests : Digests) (config : ToolCallGuardrailConfig) (gs : TurnGuardrailState)
    (request : ToolCallRequest) : Option ToolResultMessage → TurnGuardrailState → Outcome → Prop
  | refused {result : Option ToolResultMessage} {answer : ToolResultMessage}
      (stopped : wrapToolCallPrecheck digests config gs request = (some answer, gs)) :
      Wrapped digests config gs request result gs (.refused answer)
  | raised {passed : TurnGuardrailState} (passes : Passes digests config gs passed request) :
      Wrapped digests config gs request none passed .raised
  | evaluated {message answer : ToolResultMessage} {passed after : TurnGuardrailState}
      {action : GuardrailAction} (passes : Passes digests config gs passed request)
      (evaluates : Evaluates config request (digests.argsHash request.args)
        (passed.clearOnProgress request message.isError) after action) :
      Wrapped digests config gs request (some message) after
        (.evaluated action after.pathology answer)

theorem wrapToolCall_wrapped (result : Option ToolResultMessage) :
    Wrapped digests config gs request result (wrapToolCall digests config gs request result).1
      (wrapToolCall digests config gs request result).2 := by
  unfold wrapToolCall
  obtain ⟨answer, refused⟩ | ⟨passed, through, passes⟩ :=
    @precheck_cases digests config gs request
  · simp only [refused]
    exact .refused refused
  · simp only [through]
    cases result with
    | none => exact .raised passes
    | some message =>
      exact .evaluated passes (wrapToolCallLocked_evaluates message passes.halt passes.unblocked)

theorem Releases.through (releases : Releases digests config gs request) :
    (wrapToolCallPrecheck digests config gs request).1 = none := by
  unfold wrapToolCallPrecheck
  simp [releases.running, releases.unsigned, releases.enabled, releases.recovering, releases.closed]

end SherryAgent.Contracts.Agent
