import SherryAgent.Source.HumanInTheLoop.Strategies

/-!
# What a review does with a call

A handler decides a call at once, or shows one card and follows its answer, or lets the
call fall through. `Handled` says it once for all six; a call's whole way through the
registry is a chain of them (`Dispatched`), and a review is one such way for each call of
the message (`Reviewed`).
-/

namespace SherryAgent.Contracts.HumanInTheLoop

open SherryAgent.Source SherryAgent.Source.HumanInTheLoop
open SherryAgent.Source.Transcript (Message ToolMessage)
open SherryAgent.Library.Reruns

/-! ## Cards -/

/-- The card answers for the call at this index. -/
structure Shows (index : Nat) (call : ToolCall) (card : Card) : Prop where
  index : card.index = index
  name : card.name = call.name
  args : card.args = call.args

/-- The answer lets the card's call go on. -/
def accepts (ctx : ApprovalContext) (card : Card) : HITLResponse → Bool
  | .malformed => false
  | .decisions [] => false
  | .decisions (decision :: _) =>
    match decision.type with
    | .yolo => card.gate != .bypass || ctx.sessionId != ""
    | .approve => card.allowedDecisions.contains .approve
    | .session => card.gate == .command && card.allowedDecisions.contains .session
    | .edit =>
      card.gate == .interruptOn && card.allowedDecisions.contains .edit &&
        decision.editedAction.isSome
    | .reject => false
    | .other _ => false

/-- The edit that the card takes from the answer. -/
def editOf (card : Card) : HITLResponse → Option EditedAction
  | .malformed => none
  | .decisions [] => none
  | .decisions (decision :: _) =>
    if decision.type = .edit ∧ card.gate = .interruptOn ∧ .edit ∈ card.allowedDecisions then
      decision.editedAction
    else none

/-- The terminal command is one the blocklist or a deny rule matches. -/
def Barred (ctx : ApprovalContext) (name : String) (args : Args) : Prop :=
  name = "terminal" ∧ ∃ command, commandText args = some command ∧
    ((detectHardlineCommand ctx command).isSome ∨ (checkDenyRules ctx command).isSome)

instance (ctx : ApprovalContext) (name : String) (args : Args) : Decidable (Barred ctx name args) :=
  decidable_of_iff (name = "terminal" ∧ (commandText args).any (fun command =>
      (detectHardlineCommand ctx command).isSome || (checkDenyRules ctx command).isSome) = true) <| by
    simp [Barred, Option.any_eq_true]

/-! ## One handler -/

section Handled

variable (ctx : ApprovalContext) (index : Nat) (call : ToolCall)

/-- The cards a handler shows with their answers, and its ruling. -/
inductive Handled : List (Card × HITLResponse) → Option Ruling → Prop where
  | fallsThrough (other : call.name ≠ "terminal") : Handled [] none
  | granted (safe : ¬Barred ctx call.name call.args) : Handled [] (some (.approve call))
  | refused (message : ToolMessage) (answers : call.id = some message.toolCallId) :
    Handled [] (some (.deny message))
  | accepted (card : Card) (response : HITLResponse) (shows : Shows index call card)
    (accepted : accepts ctx card response = true) (unedited : editOf card response = none)
    (safe : ¬Barred ctx call.name call.args) :
    Handled [(card, response)] (some (.approve call))
  | edited (card : Card) (response : HITLResponse) (action : EditedAction)
    (shows : Shows index call card) (accepted : accepts ctx card response = true)
    (edit : editOf card response = some action) :
    Handled [(card, response)] (some (.approve (call.edited action)))
  | rejected (card : Card) (response : HITLResponse) (message : ToolMessage)
    (shows : Shows index call card) (unaccepted : accepts ctx card response = false)
    (unedited : editOf card response = none) (answers : call.id = some message.toolCallId) :
    Handled [(card, response)] (some (.deny message))
  | bypassed (card : Card) (response : HITLResponse) (shows : Shows index call card)
    (accepted : accepts ctx card response = true) (unedited : editOf card response = none)
    (gate : card.gate = .bypass) (tool : call.name = "python_repl") :
    Handled [(card, response)] none

end Handled

section Handlers

variable {ctx : ApprovalContext} {index : Nat} {call : ToolCall} {state after : HookState}
  {log : List (Card × HITLResponse)} {result : Option Ruling}

theorem not_barred_of_other (other : call.name ≠ "terminal") : ¬Barred ctx call.name call.args :=
  fun barred => other barred.1

theorem deny_ends {content : String} (ends : ((deny call content) state).Ends log after result) :
    log = [] ∧ ∃ message, result = some (.deny message) ∧ call.id = some message.toolCallId := by
  unfold deny at ends
  cases named : call.id with
  | none =>
    rw [named] at ends
    exact ends.elim
  | some id =>
    rw [named] at ends
    obtain ⟨rfl, -, rfl⟩ := ends
    exact ⟨rfl, _, rfl, rfl⟩

theorem approve_ends (ends : ((approve call) state).Ends log after result) :
    log = [] ∧ result = some (.approve call) := by
  obtain ⟨rfl, -, rfl⟩ := ends
  exact ⟨rfl, rfl⟩

theorem handled_deny {content : String} (ends : ((deny call content) state).Ends log after result) :
    Handled ctx index call log result := by
  obtain ⟨rfl, message, rfl, answers⟩ := deny_ends ends
  exact .refused message answers

theorem handled_approve (safe : ¬Barred ctx call.name call.args)
    (ends : ((approve call) state).Ends log after result) : Handled ctx index call log result := by
  obtain ⟨rfl, rfl⟩ := approve_ends ends
  exact .granted safe

/-- A card whose answer is not accepted. -/
theorem handled_rejection {card : Card} {response : HITLResponse} {content : String}
    (shows : Shows index call card) (unaccepted : accepts ctx card response = false)
    (unedited : editOf card response = none)
    (ends : ((deny call content) state).Ends log after result) :
    Handled ctx index call ((card, response) :: log) result := by
  obtain ⟨rfl, message, rfl, answers⟩ := deny_ends ends
  exact .rejected card response message shows unaccepted unedited answers

/-- A card whose answer is accepted. -/
theorem handled_acceptance {card : Card} {response : HITLResponse}
    (shows : Shows index call card) (accepted : accepts ctx card response = true)
    (unedited : editOf card response = none) (safe : ¬Barred ctx call.name call.args)
    (ends : ((approve call) state).Ends log after result) :
    Handled ctx index call ((card, response) :: log) result := by
  obtain ⟨rfl, rfl⟩ := approve_ends ends
  exact .accepted card response shows accepted unedited safe

/-- The sandbox card: `none` stands for an accepted answer. -/
theorem sandboxBypassInterrupt_ends {actionDesc : String} {denial : Option String}
    (present : ctx.operator.isNone = false)
    (ends : ((sandboxBypassInterrupt ctx index call actionDesc) state).Ends log after denial) :
    ∃ response, log = [(bypassCard index call actionDesc, response)] ∧
      editOf (bypassCard index call actionDesc) response = none ∧
        accepts ctx (bypassCard index call actionDesc) response = denial.isNone := by
  unfold sandboxBypassInterrupt at ends
  rw [if_neg (by simp [present])] at ends
  rw [Program.ends_ask_bind] at ends
  obtain ⟨response, rest, rfl, ends⟩ := ends
  refine ⟨response, ?_⟩
  cases response with
  | malformed =>
    obtain ⟨rfl, -, rfl⟩ := ends
    exact ⟨rfl, rfl, rfl⟩
  | decisions items =>
    cases items with
    | nil =>
      obtain ⟨rfl, -, rfl⟩ := ends
      exact ⟨rfl, rfl, rfl⟩
    | cons decision items =>
      dsimp only at ends
      by_cases yolo : decision.type = .yolo ∧ ctx.sessionId ≠ ""
      · rw [if_pos yolo] at ends
        obtain ⟨rfl, -, rfl⟩ := ends
        refine ⟨rfl, ?_, ?_⟩
        · simp [editOf, yolo.1]
        · simp [accepts, yolo.1, yolo.2]
      · rw [if_neg yolo] at ends
        by_cases approved : decision.type = .approve
        · rw [if_pos approved] at ends
          obtain ⟨rfl, -, rfl⟩ := ends
          refine ⟨rfl, ?_, ?_⟩
          · simp [editOf, approved]
          · simp [accepts, approved, bypassCard]
        · rw [if_neg approved] at ends
          obtain ⟨rfl, -, rfl⟩ := ends
          refine ⟨rfl, ?_, ?_⟩
          · simp [editOf, bypassCard]
          · cases kind : decision.type <;> simp_all [accepts, bypassCard]

/-! ### Terminal -/

/-- A command the pipeline does not deny outright is neither on the blocklist nor ruled out. -/
theorem checkCommand_open {session : SessionState} {command : String}
    (text : commandText call.args = some command)
    (passed : ¬((checkCommand ctx session command).blocked &&
      (checkCommand ctx session command).decision == some .deny) = true) :
    ¬Barred ctx call.name call.args := by
  rintro ⟨-, other, same, listed⟩
  cases text.symm.trans same
  apply passed
  unfold checkCommand
  cases hardline : detectHardlineCommand ctx command with
  | some tag => rfl
  | none =>
    cases rule : checkDenyRules ctx command with
    | some rule => rfl
    | none => simp [hardline, rule] at listed

theorem handled_askCommand {session : SessionState} {command : String}
    (safe : ¬Barred ctx call.name call.args)
    (ends : ((askCommand ctx index call session command) state).Ends log after result) :
    Handled ctx index call log result := by
  unfold askCommand at ends
  rw [Program.ends_ask_bind] at ends
  obtain ⟨response, rest, rfl, ends⟩ := ends
  have shows : Shows index call (commandCard ctx index call session command) := ⟨rfl, rfl, rfl⟩
  have unedited : editOf (commandCard ctx index call session command) response = none := by
    unfold editOf
    split
    · rfl
    · rfl
    · rw [if_neg]
      simp [commandCard]
  cases response with
  | malformed => exact handled_rejection shows rfl unedited ends
  | decisions items =>
    cases items with
    | nil => exact handled_rejection shows rfl unedited ends
    | cons decision items =>
      dsimp only at ends
      by_cases yolo : decision.type = .yolo
      · rw [if_pos yolo] at ends
        refine handled_acceptance shows ?_ unedited safe (Program.ends_modifyState_bind.mp ends)
        simp [accepts, yolo, commandCard]
      · rw [if_neg yolo] at ends
        by_cases cached : decision.type = .session ∧ canCache ctx session command = true
        · rw [if_pos cached] at ends
          refine handled_acceptance shows ?_ unedited safe (Program.ends_modifyState_bind.mp ends)
          simp [accepts, cached.1, commandCard, cached.2]
        · rw [if_neg cached] at ends
          by_cases approved : decision.type = .approve
          · rw [if_pos approved] at ends
            refine handled_acceptance shows ?_ unedited safe ends
            simp only [accepts, approved, commandCard]
            split <;> rfl
          · rw [if_neg approved] at ends
            refine handled_rejection shows ?_ unedited ends
            cases kind : decision.type <;> simp_all [accepts, commandCard]

theorem handled_reviewCommand {session : SessionState} {command : String} {verdict : ApprovalResult}
    (safe : ¬Barred ctx call.name call.args)
    (ends : ((reviewCommand ctx index call session command verdict) state).Ends log after result) :
    Handled ctx index call log result := by
  unfold reviewCommand at ends
  cases smart : smartVerdict ctx index session command verdict with
  | approve =>
    rw [smart] at ends
    exact handled_approve safe ends
  | deny =>
    rw [smart] at ends
    exact handled_deny ends
  | escalate =>
    rw [smart] at ends
    dsimp only at ends
    split at ends
    · split at ends
      · exact handled_deny ends
      · exact handled_askCommand safe ends
    · exact handled_approve safe ends

theorem handled_terminal (ends : ((handleTerminal ctx index call) state).Ends log after result) :
    Handled ctx index call log result := by
  unfold handleTerminal at ends
  cases text : commandText call.args with
  | none =>
    rw [text] at ends
    exact ends.elim
  | some command =>
    rw [text] at ends
    dsimp only at ends
    rw [Program.ends_getState_bind] at ends
    split at ends
    · exact handled_deny ends
    · rename_i passed
      have safe := checkCommand_open text passed
      split at ends
      · cases headless : ctx.operator.isNone with
        | true =>
          rw [if_pos headless] at ends
          exact handled_deny ends
        | false =>
          rw [if_neg (by simp [headless]), Program.ends_bind] at ends
          obtain ⟨first, rest, between, denial, rfl, asked, ends⟩ := ends
          obtain ⟨response, rfl, unedited, answer⟩ := sandboxBypassInterrupt_ends headless asked
          cases denial with
          | none => exact handled_acceptance ⟨rfl, rfl, rfl⟩ answer unedited safe ends
          | some content => exact handled_rejection ⟨rfl, rfl, rfl⟩ answer unedited ends
      · exact handled_reviewCommand safe ends

/-! ### The other handlers -/

theorem handled_sandboxBypass (tool : call.name = "python_repl")
    (ends : ((handleSandboxBypass ctx index call) state).Ends log after result) :
    Handled ctx index call log result := by
  unfold handleSandboxBypass at ends
  cases headless : ctx.operator.isNone with
  | true =>
    rw [if_pos headless] at ends
    exact handled_deny ends
  | false =>
    rw [if_neg (by simp [headless]), Program.ends_bind] at ends
    obtain ⟨first, rest, between, denial, rfl, asked, ends⟩ := ends
    obtain ⟨response, rfl, unedited, answer⟩ := sandboxBypassInterrupt_ends headless asked
    cases denial with
    | none =>
      obtain ⟨rfl, -, rfl⟩ := ends
      exact .bypassed _ response ⟨rfl, rfl, rfl⟩ answer unedited rfl tool
    | some content => exact handled_rejection ⟨rfl, rfl, rfl⟩ answer unedited ends

theorem handled_memoryWrite (other : call.name ≠ "terminal")
    (ends : ((handleMemoryWrite ctx index call) state).Ends log after result) :
    Handled ctx index call log result := by
  unfold handleMemoryWrite at ends
  split at ends
  · exact handled_deny ends
  · obtain ⟨rfl, -, rfl⟩ := ends
    exact .fallsThrough other

theorem handled_firstCall (other : call.name ≠ "terminal")
    (ends : ((handleFirstCall ctx index call) state).Ends log after result) :
    Handled ctx index call log result := by
  unfold handleFirstCall at ends
  rw [Program.ends_getState_bind] at ends
  generalize isConfirmAllMode ctx state.session = strict at ends
  rw [Program.ends_ask_bind] at ends
  obtain ⟨response, rest, rfl, ends⟩ := ends
  have safe : ¬Barred ctx call.name call.args := not_barred_of_other other
  have shows : Shows index call (firstCallCard index call strict) := ⟨rfl, rfl, rfl⟩
  have unedited : editOf (firstCallCard index call strict) response = none := by
    unfold editOf
    split
    · rfl
    · rfl
    · rw [if_neg]
      simp [firstCallCard]
  cases response with
  | malformed => exact handled_rejection shows rfl unedited ends
  | decisions items =>
    cases items with
    | nil => exact handled_rejection shows rfl unedited ends
    | cons decision items =>
      dsimp only at ends
      by_cases yolo : decision.type = .yolo
      · rw [if_pos yolo] at ends
        refine handled_acceptance shows ?_ unedited safe (Program.ends_modifyState_bind.mp ends)
        simp [accepts, yolo, firstCallCard]
      · rw [if_neg yolo] at ends
        by_cases approved : decision.type = .approve
        · rw [if_pos approved] at ends
          refine handled_acceptance shows ?_ unedited safe (Program.ends_modifyState_bind.mp ends)
          simp [accepts, approved, firstCallCard]
        · rw [if_neg approved] at ends
          refine handled_rejection shows ?_ unedited ends
          cases kind : decision.type <;> simp_all [accepts, firstCallCard]

theorem handled_decideInterrupt (other : call.name ≠ "terminal") {description : String}
    {allowed : List DecisionType} {decision : Decision} {items : List Decision}
    (ends : ((decideInterrupt ctx index call allowed decision) state).Ends log after result) :
    Handled ctx index call
      ((interruptCard index call description allowed, .decisions (decision :: items)) :: log)
      result := by
  have safe : ¬Barred ctx call.name call.args := not_barred_of_other other
  have shows : Shows index call (interruptCard index call description allowed) := ⟨rfl, rfl, rfl⟩
  unfold decideInterrupt at ends
  by_cases yolo : decision.type = .yolo
  · rw [if_pos yolo] at ends
    refine handled_acceptance shows ?_ ?_ safe (Program.ends_modifyState_bind.mp ends)
    · simp [accepts, yolo, interruptCard]
    · simp [editOf, yolo]
  rw [if_neg yolo] at ends
  by_cases approved : decision.type = .approve ∧ .approve ∈ allowed
  · rw [if_pos approved] at ends
    refine handled_acceptance shows ?_ ?_ safe (Program.ends_modifyState_bind.mp ends)
    · simp [accepts, approved.1, interruptCard, approved.2]
    · simp [editOf, approved.1]
  rw [if_neg approved] at ends
  by_cases edits : decision.type = .edit ∧ .edit ∈ allowed
  · rw [if_pos edits] at ends
    cases found : decision.editedAction with
    | some action =>
      rw [found] at ends
      obtain ⟨rfl, -, rfl⟩ := ends
      refine .edited _ _ action shows ?_ ?_
      · simp_all [accepts, interruptCard]
      · simp_all [editOf, interruptCard]
    | none =>
      rw [found] at ends
      refine handled_rejection shows ?_ ?_ ends
      · simp_all [accepts, interruptCard]
      · simp_all [editOf, interruptCard]
  rw [if_neg edits] at ends
  have unedited : editOf (interruptCard index call description allowed)
      (.decisions (decision :: items)) = none := by
    refine if_neg ?_
    rintro ⟨kind, -, offered⟩
    exact edits ⟨kind, offered⟩
  have unaccepted : accepts ctx (interruptCard index call description allowed)
      (.decisions (decision :: items)) = false := by
    cases kind : decision.type <;> simp_all [accepts, interruptCard]
  by_cases rejects : decision.type = .reject ∧ .reject ∈ allowed
  · rw [if_pos rejects] at ends
    rw [Program.ends_bind] at ends
    obtain ⟨first, rest, between, ruling, rfl, denied, ends⟩ := ends
    rw [Program.ends_modifyState_bind] at ends
    obtain ⟨rfl, -, rfl⟩ := ends
    rw [List.append_nil]
    exact handled_rejection shows unaccepted unedited denied
  · rw [if_neg rejects] at ends
    exact handled_rejection shows unaccepted unedited ends

theorem handled_askInterruptOn (other : call.name ≠ "terminal") {config : InterruptOnConfig}
    (ends : ((askInterruptOn ctx index call config) state).Ends log after result) :
    Handled ctx index call log result := by
  unfold askInterruptOn at ends
  cases described : describe ctx call config with
  | none =>
    rw [described] at ends
    exact ends.elim
  | some description =>
    rw [described] at ends
    dsimp only at ends
    split at ends
    · exact handled_deny ends
    · rw [Program.ends_ask_bind] at ends
      obtain ⟨response, rest, rfl, ends⟩ := ends
      cases response with
      | malformed => exact handled_rejection ⟨rfl, rfl, rfl⟩ rfl rfl ends
      | decisions items =>
        cases items with
        | nil => exact handled_rejection ⟨rfl, rfl, rfl⟩ rfl rfl ends
        | cons decision items => exact handled_decideInterrupt other ends

theorem handled_interruptOn (other : call.name ≠ "terminal")
    (ends : ((handleInterruptOn ctx index call) state).Ends log after result) :
    Handled ctx index call log result := by
  unfold handleInterruptOn at ends
  cases configured : ctx.config.interruptOn call.name with
  | none =>
    rw [configured] at ends
    obtain ⟨rfl, -, rfl⟩ := ends
    exact .fallsThrough other
  | some config =>
    rw [configured] at ends
    dsimp only at ends
    rw [Program.ends_getState_bind] at ends
    cases verdict : (evaluate ctx state.store call.name call.args ctx.operator).verdict with
    | deny =>
      rw [verdict] at ends
      exact handled_deny ends
    | allow =>
      rw [verdict] at ends
      exact handled_approve (not_barred_of_other other) ends
    | unknown =>
      rw [verdict] at ends
      exact handled_askInterruptOn other ends

theorem handled_plugin (other : call.name ≠ "terminal")
    (ends : ((handlePlugin ctx call) state).Ends log after result) :
    Handled ctx index call log result ∧ result ≠ none := by
  unfold handlePlugin at ends
  rw [Program.ends_getState_bind] at ends
  split at ends
  · obtain ⟨-, message, rfl, -⟩ := deny_ends ends
    exact ⟨handled_deny ends, Option.some_ne_none _⟩
  · obtain ⟨-, rfl⟩ := approve_ends ends
    exact ⟨handled_approve (not_barred_of_other other) ends, Option.some_ne_none _⟩

end Handlers

/-! ## The registry -/

section Dispatched

variable (ctx : ApprovalContext) (index : Nat) (call : ToolCall)

/-- A call's way through the registry, up to the handler that decides it. -/
inductive Dispatched : List (Card × HITLResponse) → Ruling → Prop where
  | decided {log : List (Card × HITLResponse)} {ruling : Ruling}
    (handled : Handled ctx index call log (some ruling)) : Dispatched log ruling
  | onward {first rest : List (Card × HITLResponse)} {ruling : Ruling}
    (passed : Handled ctx index call first none) (later : Dispatched rest ruling) :
    Dispatched (first ++ rest) ruling

end Dispatched

section Registry

variable {ctx : ApprovalContext} {index : Nat} {call : ToolCall} {state after : HookState}
  {log : List (Card × HITLResponse)} {result : Option Ruling}

theorem dispatch_cons {handler : Handler} {rest : List Handler}
    (ends : ((dispatch ctx index call (handler :: rest)) state).Ends log after result) :
    (handler.applies ctx state.session call = true ∧
      ∃ first later between ruling, log = first ++ later ∧
        ((handler.handle ctx index call) state).Ends first between ruling ∧
        (ruling.isSome ∧ later = [] ∧ result = ruling ∨
          ruling = none ∧ ((dispatch ctx index call rest) between).Ends later after result)) ∨
    (handler.applies ctx state.session call = false ∧
      ((dispatch ctx index call rest) state).Ends log after result) := by
  rw [dispatch, Program.ends_getState_bind] at ends
  by_cases applies : handler.applies ctx state.session call = true
  · rw [if_pos applies, Program.ends_bind] at ends
    obtain ⟨first, later, between, ruling, rfl, handled, ends⟩ := ends
    refine .inl ⟨applies, first, later, between, ruling, rfl, handled, ?_⟩
    cases ruling with
    | some ruling =>
      obtain ⟨rfl, -, rfl⟩ := ends
      exact .inl ⟨rfl, rfl, rfl⟩
    | none => exact .inr ⟨rfl, ends⟩
  · rw [if_neg applies] at ends
    exact .inr ⟨Bool.eq_false_iff.mpr applies, ends⟩

/-- Behind handlers that are `Handled` the catch-all decides what is left. -/
theorem dispatched_of_handled (other : call.name ≠ "terminal") (handlers : List Handler)
    (sound : ∀ handler ∈ handlers, ∀ state after log result,
      handler.applies ctx state.session call = true →
        ((handler.handle ctx index call) state).Ends log after result →
          Handled ctx index call log result)
    (ends : ((dispatch ctx index call (handlers ++ [pluginToolApproval])) state).Ends log after
      result) :
    ∃ ruling, result = some ruling ∧ Dispatched ctx index call log ruling := by
  induction handlers generalizing state log with
  | nil =>
    rcases dispatch_cons ends with ⟨-, first, later, between, ruling, rfl, handled, next⟩ | ⟨never, -⟩
    · obtain ⟨whole, rules⟩ : Handled ctx index call first ruling ∧ ruling ≠ none :=
        handled_plugin other handled
      rcases next with ⟨-, rfl, rfl⟩ | ⟨passed, -⟩
      · obtain ⟨ruling, rfl⟩ := Option.ne_none_iff_exists'.mp rules
        refine ⟨ruling, rfl, ?_⟩
        rw [List.append_nil]
        exact .decided whole
      · exact absurd passed rules
    · cases never
  | cons handler handlers ih =>
    have sound' := fun other member => sound other (List.mem_cons_of_mem _ member)
    rcases dispatch_cons ends with ⟨applies, first, later, between, ruling, rfl, handled, next⟩ | ⟨-, passed⟩
    · have handled := sound handler List.mem_cons_self state between first ruling applies handled
      rcases next with ⟨decided, rfl, rfl⟩ | ⟨rfl, next⟩
      · obtain ⟨ruling, rfl⟩ := Option.isSome_iff_exists.mp decided
        refine ⟨ruling, rfl, ?_⟩
        rw [List.append_nil]
        exact .decided handled
      · obtain ⟨ruling, rfl, dispatched⟩ := ih sound' next
        exact ⟨ruling, rfl, .onward handled dispatched⟩
    · exact ih sound' passed

/-- Every call gets a ruling. -/
theorem dispatch_dispatched (ends : ((dispatch ctx index call handlers) state).Ends log after result) :
    ∃ ruling, result = some ruling ∧ Dispatched ctx index call log ruling := by
  by_cases terminal : call.name = "terminal"
  · have applies : terminalApproval.applies ctx state.session call = true := by
      simp [terminalApproval, terminal]
    rcases dispatch_cons ends with ⟨-, first, later, between, ruling, rfl, handled, next⟩ | ⟨never, -⟩
    · have whole : Handled ctx index call first ruling := handled_terminal handled
      rcases next with ⟨decided, rfl, rfl⟩ | ⟨rfl, -⟩
      · obtain ⟨ruling, rfl⟩ := Option.isSome_iff_exists.mp decided
        refine ⟨ruling, rfl, ?_⟩
        rw [List.append_nil]
        exact .decided whole
      · cases whole with
        | fallsThrough other => exact absurd terminal other
        | bypassed card response shows accepted unedited gate tool =>
          rw [terminal] at tool
          exact absurd tool (by decide)
    · rw [applies] at never
      cases never
  · refine dispatched_of_handled terminal [terminalApproval, sandboxBypassApproval,
      memoryWriteApproval, firstCallConfirmation, interruptOnApproval] ?_ ends
    intro handler member state after log result applies handled
    simp only [List.mem_cons, List.not_mem_nil, or_false] at member
    rcases member with rfl | rfl | rfl | rfl | rfl
    · exact handled_terminal handled
    · simp only [sandboxBypassApproval, Bool.and_eq_true, beq_iff_eq] at applies
      exact handled_sandboxBypass applies.1.1 handled
    · exact handled_memoryWrite terminal handled
    · exact handled_firstCall terminal handled
    · exact handled_interruptOn terminal handled

end Registry

/-! ## What a call's way says -/

section Facts

variable {ctx : ApprovalContext} {index : Nat} {call : ToolCall} {log : List (Card × HITLResponse)}
  {ruling : Ruling} {pair : Card × HITLResponse}

/-- A call falls through behind no card, or behind an accepted `python_repl` bypass. -/
theorem Handled.passed (handled : Handled ctx index call log none) (member : pair ∈ log) :
    Shows index call pair.1 ∧ accepts ctx pair.1 pair.2 = true ∧ editOf pair.1 pair.2 = none ∧
      pair.1.gate = .bypass ∧ call.name = "python_repl" := by
  cases handled with
  | fallsThrough other => cases member
  | bypassed card response shows accepted unedited gate tool =>
    obtain rfl := List.mem_singleton.mp member
    exact ⟨shows, accepted, unedited, gate, tool⟩

theorem Dispatched.shows (dispatched : Dispatched ctx index call log ruling) (member : pair ∈ log) :
    Shows index call pair.1 := by
  induction dispatched with
  | decided handled =>
    cases handled with
    | granted safe => cases member
    | refused message answers => cases member
    | accepted card response shows accepted unedited safe =>
      obtain rfl := List.mem_singleton.mp member
      exact shows
    | edited card response action shows accepted edit =>
      obtain rfl := List.mem_singleton.mp member
      exact shows
    | rejected card response message shows unaccepted unedited answers =>
      obtain rfl := List.mem_singleton.mp member
      exact shows
  | onward passed later ih =>
    rcases List.mem_append.mp member with first | rest
    · exact (passed.passed first).1
    · exact ih rest

/-- A call that is let through had every one of its cards accepted. -/
theorem Dispatched.accepted {through : ToolCall}
    (dispatched : Dispatched ctx index call log (.approve through)) (member : pair ∈ log) :
    accepts ctx pair.1 pair.2 = true := by
  generalize same : Ruling.approve through = ruling at dispatched
  induction dispatched with
  | decided handled =>
    subst same
    cases handled with
    | granted safe => cases member
    | accepted card response shows accepted unedited safe =>
      obtain rfl := List.mem_singleton.mp member
      exact accepted
    | edited card response action shows accepted edit =>
      obtain rfl := List.mem_singleton.mp member
      exact accepted
  | onward passed later ih =>
    rcases List.mem_append.mp member with first | rest
    · exact (passed.passed first).2.1
    · exact ih rest same

/-- A call with an accepted card is let through, the `python_repl` bypass aside. -/
theorem Dispatched.approved (dispatched : Dispatched ctx index call log ruling) (member : pair ∈ log)
    (accepted : accepts ctx pair.1 pair.2 = true)
    (decides : ¬(pair.1.gate = .bypass ∧ call.name = "python_repl")) :
    isDenial ruling = false := by
  induction dispatched with
  | decided handled =>
    cases handled with
    | granted safe => rfl
    | refused message answers => cases member
    | accepted card response shows accepted unedited safe => rfl
    | edited card response action shows accepted edit => rfl
    | rejected card response message shows unaccepted unedited answers =>
      obtain rfl := List.mem_singleton.mp member
      rw [unaccepted] at accepted
      cases accepted
  | onward passed later ih =>
    rcases List.mem_append.mp member with first | rest
    · exact absurd ⟨(passed.passed first).2.2.2.1, (passed.passed first).2.2.2.2⟩ decides
    · exact ih rest

/-- What is let through is the call itself, which is then not barred, or an edit of it. -/
theorem Dispatched.through {through : ToolCall}
    (dispatched : Dispatched ctx index call log (.approve through)) :
    through = call ∧ ¬Barred ctx call.name call.args ∨
      ∃ pair ∈ log, ∃ action, editOf pair.1 pair.2 = some action ∧ through = call.edited action := by
  generalize same : Ruling.approve through = ruling at dispatched
  induction dispatched with
  | decided handled =>
    subst same
    cases handled with
    | granted safe => exact .inl ⟨rfl, safe⟩
    | accepted card response shows accepted unedited safe => exact .inl ⟨rfl, safe⟩
    | edited card response action shows accepted edit =>
      exact .inr ⟨_, List.mem_singleton_self _, action, edit, rfl⟩
  | onward passed later ih =>
    rcases ih same with whole | ⟨pair, member, action, edit, same⟩
    · exact .inl whole
    · exact .inr ⟨pair, List.mem_append_right _ member, action, edit, same⟩

/-- An edit that a card takes is let through. -/
theorem Dispatched.edits (dispatched : Dispatched ctx index call log ruling) (member : pair ∈ log)
    {action : EditedAction} (edit : editOf pair.1 pair.2 = some action) :
    ruling = .approve (call.edited action) := by
  induction dispatched with
  | decided handled =>
    cases handled with
    | granted safe => cases member
    | refused message answers => cases member
    | accepted card response shows accepted unedited safe =>
      obtain rfl := List.mem_singleton.mp member
      cases unedited.symm.trans edit
    | edited card response other shows accepted found =>
      obtain rfl := List.mem_singleton.mp member
      cases found.symm.trans edit
      rfl
    | rejected card response message shows unaccepted unedited answers =>
      obtain rfl := List.mem_singleton.mp member
      cases unedited.symm.trans edit
  | onward passed later ih =>
    rcases List.mem_append.mp member with first | rest
    · cases (passed.passed first).2.2.1.symm.trans edit
    · exact ih rest

/-- The call a ruling is about. -/
def Ruling.concerns : Ruling → Option String
  | .approve call => call.id
  | .deny message => some message.toolCallId

theorem Dispatched.concerns (dispatched : Dispatched ctx index call log ruling) :
    Ruling.concerns ruling = call.id := by
  induction dispatched with
  | decided handled =>
    cases handled with
    | granted safe => rfl
    | refused message answers => exact answers.symm
    | accepted card response shows accepted unedited safe => rfl
    | edited card response action shows accepted edit => rfl
    | rejected card response message shows unaccepted unedited answers => exact answers.symm
  | onward passed later ih => exact ih

end Facts

/-! ## The review -/

section Reviewed

variable (ctx : ApprovalContext)

/-- One way through the registry for each call, in order. -/
inductive Reviewed : Nat → List ToolCall → List (Card × HITLResponse) → List Ruling → Prop where
  | nil {index : Nat} : Reviewed index [] [] []
  | cons {index : Nat} {call : ToolCall} {rest : List ToolCall}
    {log later : List (Card × HITLResponse)} {ruling : Ruling} {rulings : List Ruling}
    (first : Dispatched ctx index call log ruling) (others : Reviewed (index + 1) rest later rulings) :
    Reviewed index (call :: rest) (log ++ later) (ruling :: rulings)

variable {ctx} {index : Nat} {calls : List ToolCall} {state after : HookState}
  {log : List (Card × HITLResponse)} {rulings : List Ruling}

theorem review_reviewed (ends : ((review ctx index calls) state).Ends log after rulings) :
    Reviewed ctx index calls log rulings := by
  induction calls generalizing index state after log rulings with
  | nil =>
    obtain ⟨rfl, -, rfl⟩ := ends
    exact .nil
  | cons call rest ih =>
    rw [review, Program.ends_bind] at ends
    obtain ⟨first, later, between, ruling, rfl, dispatched, ends⟩ := ends
    rw [Program.ends_bind] at ends
    obtain ⟨later, last, beyond, others, rfl, reviewed, rfl, -, rfl⟩ := ends
    obtain ⟨ruling, rfl, whole⟩ := dispatch_dispatched dispatched
    rw [List.append_nil]
    exact .cons whole (ih reviewed)

theorem Reviewed.index_le (reviewed : Reviewed ctx index calls log rulings)
    {pair : Card × HITLResponse} (member : pair ∈ log) : index ≤ pair.1.index := by
  induction reviewed with
  | nil => cases member
  | cons first others ih =>
    rcases List.mem_append.mp member with here | later
    · exact Nat.le_of_eq (first.shows here).index.symm
    · exact Nat.le_of_succ_le (ih later)

/-- Each call has its own part of the cards. -/
theorem Reviewed.part (reviewed : Reviewed ctx index calls log rulings) {k : Nat} {call : ToolCall}
    (here : calls[k]? = some call) :
    ∃ part ruling, rulings[k]? = some ruling ∧ Dispatched ctx (index + k) call part ruling ∧
      ∀ pair, pair ∈ part ↔ pair ∈ log ∧ pair.1.index = index + k := by
  induction reviewed generalizing k with
  | nil => cases here
  | @cons index other rest log later ruling rulings first others ih =>
    cases k with
    | zero =>
      cases here
      refine ⟨log, ruling, rfl, first, fun pair => ?_⟩
      constructor
      · intro member
        exact ⟨List.mem_append_left _ member, (first.shows member).index⟩
      · rintro ⟨member, same⟩
        rcases List.mem_append.mp member with own | behind
        · exact own
        · have late := others.index_le behind
          omega
    | succ k =>
      obtain ⟨part, decided, found, dispatched, whole⟩ := ih here
      have shift : index + 1 + k = index + (k + 1) := by omega
      rw [shift] at dispatched
      refine ⟨part, decided, found, dispatched, fun pair => ?_⟩
      rw [whole pair, shift]
      constructor
      · rintro ⟨member, same⟩
        exact ⟨List.mem_append_right _ member, same⟩
      · rintro ⟨member, same⟩
        rcases List.mem_append.mp member with own | behind
        · have early := (first.shows own).index
          omega
        · exact ⟨behind, same⟩

/-- A card answers for one of the calls. -/
theorem Reviewed.owner (reviewed : Reviewed ctx index calls log rulings)
    {pair : Card × HITLResponse} (member : pair ∈ log) :
    ∃ k call, calls[k]? = some call ∧ pair.1.index = index + k := by
  induction reviewed with
  | nil => cases member
  | @cons index call rest own later ruling rulings first others ih =>
    rcases List.mem_append.mp member with here | behind
    · exact ⟨0, call, rfl, (first.shows here).index⟩
    · obtain ⟨k, owner, found, same⟩ := ih behind
      exact ⟨k + 1, owner, found, by omega⟩

theorem Reviewed.length (reviewed : Reviewed ctx index calls log rulings) :
    rulings.length = calls.length := by
  induction reviewed with
  | nil => rfl
  | cons first others ih => exact congrArg Nat.succ ih

/-- The rulings are about the calls, in order. -/
theorem Reviewed.concerns (reviewed : Reviewed ctx index calls log rulings) :
    rulings.map Ruling.concerns = calls.map (·.id) := by
  induction reviewed with
  | nil => rfl
  | cons first others ih => rw [List.map_cons, List.map_cons, first.concerns, ih]

end Reviewed

theorem mem_revisedToolCalls {outcome : ApprovalOutcome} {call : ToolCall} :
    call ∈ outcome.revisedToolCalls ↔ Ruling.approve call ∈ outcome.rulings := by
  rw [ApprovalOutcome.revisedToolCalls, List.mem_filterMap]
  constructor
  · rintro ⟨ruling, member, same⟩
    cases ruling with
    | approve other =>
      cases same
      exact member
    | deny message => cases same
  · intro member
    exact ⟨_, member, rfl⟩

theorem mem_artificialToolMessages {outcome : ApprovalOutcome} {message : ToolMessage} :
    message ∈ outcome.artificialToolMessages ↔ Ruling.deny message ∈ outcome.rulings := by
  rw [ApprovalOutcome.artificialToolMessages, List.mem_filterMap]
  constructor
  · rintro ⟨ruling, member, same⟩
    cases ruling with
    | approve call => cases same
    | deny other =>
      cases same
      exact member
  · intro member
    exact ⟨_, member, rfl⟩

/-- A hook that returns with an outcome has reviewed the calls of the last assistant message. -/
theorem afterModel_ends {ctx : ApprovalContext} {messages : List Message} {state after : HookState}
    {log : List (Card × HITLResponse)} {outcome : ApprovalOutcome}
    (ends : ((afterModel ctx messages) state).Ends log after (some outcome)) :
    splitLastAi messages = some (outcome.before, outcome.message, outcome.after) ∧
      ∃ calls, outcome.message.toolCalls.mapM ToolCall.ofJson? = some calls ∧
        Reviewed ctx 0 calls log outcome.rulings := by
  unfold afterModel at ends
  cases last : splitLastAi messages with
  | none =>
    rw [last] at ends
    exact absurd ends.2.2 (Option.some_ne_none _)
  | some found =>
    obtain ⟨before, message, behind⟩ := found
    rw [last] at ends
    dsimp only at ends
    split at ends
    · exact absurd ends.2.2 (Option.some_ne_none _)
    · cases read : message.toolCalls.mapM ToolCall.ofJson? with
      | none =>
        rw [read] at ends
        exact ends.elim
      | some calls =>
        rw [read] at ends
        dsimp only at ends
        rw [Program.ends_bind] at ends
        obtain ⟨first, rest, between, rulings, rfl, reviewed, rfl, -, same⟩ := ends
        cases same
        rw [List.append_nil]
        exact ⟨rfl, calls, read, review_reviewed reviewed⟩

end SherryAgent.Contracts.HumanInTheLoop
