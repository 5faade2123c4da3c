import SherryAgent.Contracts.HumanInTheLoop

/-!
# Which call an answer decides

After every answer the review runs again from its start and its k-th card takes the k-th
answer. A card whose answer is recorded may be missing from the next run, and the answers
behind it then reach other calls. Where no answer but the last one is recorded, the cards
come back in the same order.

* `answers_reach_their_call` — then a rejection stops the call it was given for, and an
  approval the card offers lets it through.
* `session_answer_denied` — the answer `session` approves nothing.
* `recorded_answer_shifts_the_next` — a rejected call that is let through.
-/

namespace SherryAgent.Guarantees.HumanAnswers

open SherryAgent.Source SherryAgent.Source.HumanInTheLoop SherryAgent.Contracts.HumanInTheLoop
open SherryAgent.Source.Transcript (AiMessage Message)
open SherryAgent.Library.Reruns Program

/-! ## Recorded answers -/

/-- The answer leaves a record in the session or the store. -/
def records (card : Card) : HITLResponse → Bool
  | .malformed => false
  | .decisions [] => false
  | .decisions (decision :: _) =>
    match decision.type with
    | .yolo => true
    | .session => card.gate == .command && card.allowedDecisions.contains .session
    | .approve =>
      card.gate == .firstCall false ||
        (card.gate == .interruptOn && card.allowedDecisions.contains .approve)
    | .reject => card.gate == .interruptOn && card.allowedDecisions.contains .reject
    | .edit => false
    | .other _ => false

/-- The answers that leave no record. -/
def Quiet (card : Card) (response : HITLResponse) : Prop := records card response = false

section Steady

variable {ctx : ApprovalContext} {index : Nat} {call : ToolCall}

theorem steady_deny (content : String) : Steady Quiet (deny call content) := by
  unfold deny
  cases call.id with
  | none => exact steady_raise
  | some id => exact steady_pure _

theorem steady_approve : Steady Quiet (approve call) := steady_pure _

theorem not_quiet_yolo {card : Card} {decision : Decision} {items : List Decision}
    (yolo : decision.type = .yolo) : ¬Quiet card (.decisions (decision :: items)) := by
  simp [Quiet, records, yolo]

theorem steady_sandboxBypassInterrupt (actionDesc : String) :
    Steady Quiet (sandboxBypassInterrupt ctx index call actionDesc) := by
  unfold sandboxBypassInterrupt
  split
  · exact steady_pure _
  · apply steady_ask_bind
    intro response quiet
    cases response with
    | malformed => exact steady_pure _
    | decisions items =>
      cases items with
      | nil => exact steady_pure _
      | cons decision items =>
        dsimp only
        by_cases yolo : decision.type = .yolo ∧ ctx.sessionId ≠ ""
        · exact absurd quiet (not_quiet_yolo yolo.1)
        · rw [if_neg yolo]
          split <;> exact steady_pure _

theorem steady_askCommand (session : SessionState) (command : String) :
    Steady Quiet (askCommand ctx index call session command) := by
  unfold askCommand
  apply steady_ask_bind
  intro response quiet
  cases response with
  | malformed => exact steady_deny _
  | decisions items =>
    cases items with
    | nil => exact steady_deny _
    | cons decision items =>
      dsimp only
      by_cases yolo : decision.type = .yolo
      · exact absurd quiet (not_quiet_yolo yolo)
      · rw [if_neg yolo]
        by_cases cached : decision.type = .session ∧ canCache ctx session command = true
        · simp [Quiet, records, cached.1, commandCard, cached.2] at quiet
        · rw [if_neg cached]
          split
          · exact steady_approve
          · exact steady_deny _

theorem steady_terminal : Steady Quiet (handleTerminal ctx index call) := by
  unfold handleTerminal
  cases commandText call.args with
  | none => exact steady_raise
  | some command =>
    refine steady_getState.bind fun st => ?_
    dsimp only
    split
    · exact steady_deny _
    · split
      · split
        · exact steady_deny _
        · refine (steady_sandboxBypassInterrupt _).bind fun denial => ?_
          cases denial with
          | some content => exact steady_deny _
          | none => exact steady_approve
      · unfold reviewCommand
        cases smartVerdict ctx index st.session command (checkCommand ctx st.session command) with
        | approve => exact steady_approve
        | deny => exact steady_deny _
        | escalate =>
          dsimp only
          split
          · split
            · exact steady_deny _
            · exact steady_askCommand _ _
          · exact steady_approve

theorem steady_sandboxBypass : Steady Quiet (handleSandboxBypass ctx index call) := by
  unfold handleSandboxBypass
  split
  · exact steady_deny _
  · refine (steady_sandboxBypassInterrupt _).bind fun denial => ?_
    cases denial with
    | some content => exact steady_deny _
    | none => exact steady_pure _

theorem steady_memoryWrite : Steady Quiet (handleMemoryWrite ctx index call) := by
  unfold handleMemoryWrite
  dsimp only
  split
  · exact steady_deny _
  · exact steady_pure _

theorem steady_firstCall : Steady Quiet (handleFirstCall ctx index call) := by
  unfold handleFirstCall
  refine steady_getState.bind fun st => ?_
  generalize isConfirmAllMode ctx st.session = strict
  apply steady_ask_bind
  intro response quiet
  cases response with
  | malformed => exact steady_deny _
  | decisions items =>
    cases items with
    | nil => exact steady_deny _
    | cons decision items =>
      dsimp only
      by_cases yolo : decision.type = .yolo
      · exact absurd quiet (not_quiet_yolo yolo)
      · rw [if_neg yolo]
        by_cases approved : decision.type = .approve
        · rw [if_pos approved]
          cases strict with
          | false => simp [Quiet, records, approved, firstCallCard] at quiet
          | true => exact fun state => rfl
        · rw [if_neg approved]
          exact steady_deny _

theorem steady_decideInterrupt {description : String} {allowed : List DecisionType}
    {decision : Decision} {items : List Decision}
    (quiet : Quiet (interruptCard index call description allowed) (.decisions (decision :: items))) :
    Steady Quiet (decideInterrupt ctx index call allowed decision) := by
  unfold decideInterrupt
  by_cases yolo : decision.type = .yolo
  · exact absurd quiet (not_quiet_yolo yolo)
  rw [if_neg yolo]
  by_cases approved : decision.type = .approve ∧ .approve ∈ allowed
  · simp [Quiet, records, approved.1, interruptCard, approved.2] at quiet
  rw [if_neg approved]
  split
  · cases decision.editedAction with
    | some action => exact steady_approve
    | none => exact steady_deny _
  · by_cases rejected : decision.type = .reject ∧ .reject ∈ allowed
    · simp [Quiet, records, rejected.1, interruptCard, rejected.2] at quiet
    · rw [if_neg rejected]
      exact steady_deny _

theorem steady_interruptOn : Steady Quiet (handleInterruptOn ctx index call) := by
  unfold handleInterruptOn
  cases ctx.config.interruptOn call.name with
  | none => exact steady_pure _
  | some config =>
    refine steady_getState.bind fun st => ?_
    dsimp only
    cases (evaluate ctx st.store call.name call.args ctx.operator).verdict with
    | deny => exact steady_deny _
    | allow => exact steady_approve
    | unknown =>
      unfold askInterruptOn
      cases describe ctx call config with
      | none => exact steady_raise
      | some description =>
        dsimp only
        split
        · exact steady_deny _
        · apply steady_ask_bind
          intro response quiet
          cases response with
          | malformed => exact steady_deny _
          | decisions items =>
            cases items with
            | nil => exact steady_deny _
            | cons decision items => exact steady_decideInterrupt quiet

theorem steady_plugin : Steady Quiet (handlePlugin ctx call) := by
  unfold handlePlugin
  refine steady_getState.bind fun st => ?_
  dsimp only
  split
  · exact steady_deny _
  · exact steady_approve

theorem steady_dispatch {handlers : List Handler}
    (steady : ∀ handler ∈ handlers, Steady Quiet (handler.handle ctx index call)) :
    Steady Quiet (dispatch ctx index call handlers) := by
  induction handlers with
  | nil => exact steady_pure _
  | cons handler rest ih =>
    have later := ih fun other member => steady other (List.mem_cons_of_mem _ member)
    unfold dispatch
    refine steady_getState.bind fun st => ?_
    split
    · refine (steady handler List.mem_cons_self).bind fun ruling => ?_
      cases ruling with
      | some ruling => exact steady_pure _
      | none => exact later
    · exact later

theorem steady_handlers : ∀ handler ∈ handlers, Steady Quiet (handler.handle ctx index call) := by
  intro handler member
  simp only [handlers, List.mem_cons, List.not_mem_nil, or_false] at member
  rcases member with rfl | rfl | rfl | rfl | rfl | rfl
  · exact steady_terminal
  · exact steady_sandboxBypass
  · exact steady_memoryWrite
  · exact steady_firstCall
  · exact steady_interruptOn
  · exact steady_plugin

theorem steady_review (calls : List ToolCall) : Steady Quiet (review ctx index calls) := by
  induction calls generalizing index with
  | nil => exact steady_pure _
  | cons call rest ih =>
    unfold review
    refine (steady_dispatch steady_handlers).bind fun ruling => ?_
    exact ih.bind fun later => steady_pure _

/-- A review whose answers leave no record leaves everything as it was. -/
theorem steady_afterModel (messages : List Message) : Steady Quiet (afterModel ctx messages) := by
  unfold afterModel
  cases splitLastAi messages with
  | none => exact steady_pure _
  | some found =>
    obtain ⟨before, message, after⟩ := found
    dsimp only
    split
    · exact steady_pure _
    · cases message.toolCalls.mapM ToolCall.ofJson? with
      | none => exact steady_raise
      | some calls => exact (steady_review calls).bind fun rulings => steady_pure _

end Steady

/-! ## Answers and rulings -/

/-- The type of the first decision. -/
def HITLResponse.kind : HITLResponse → Option DecisionType
  | .malformed => none
  | .decisions items => items.head?.map (·.type)

theorem accepts_of_approve {ctx : ApprovalContext} {card : Card} {response : HITLResponse}
    (approves : HITLResponse.kind response = some .approve) (offered : .approve ∈ card.allowedDecisions) :
    accepts ctx card response = true := by
  cases response with
  | malformed => cases approves
  | decisions items =>
    cases items with
    | nil => cases approves
    | cons decision items =>
      have kind : decision.type = .approve := Option.some.inj approves
      simp [accepts, kind, offered]

theorem not_accepts_of_reject {ctx : ApprovalContext} {card : Card} {response : HITLResponse}
    (rejects : HITLResponse.kind response = some .reject) : accepts ctx card response = false := by
  cases response with
  | malformed => rfl
  | decisions items =>
    cases items with
    | nil => rfl
    | cons decision items =>
      have kind : decision.type = .reject := Option.some.inj rejects
      simp [accepts, kind]

/-- The ruling on a call follows the answers given on its cards: none was a rejection if it is
let through, and it is let through if one was an approval that the card offers and that does
not hand the call on to the gates behind a `python_repl` bypass. -/
structure Follows (shown : List (Card × HITLResponse)) (k : Nat) (call : ToolCall) (ruling : Ruling) :
    Prop where
  shows : ∀ pair ∈ shown, pair.1.index = k → Shows k call pair.1
  unrejected : isDenial ruling = false → ∀ pair ∈ shown, pair.1.index = k →
    HITLResponse.kind pair.2 ≠ some .reject
  approved : ∀ pair ∈ shown, pair.1.index = k → HITLResponse.kind pair.2 = some .approve →
    .approve ∈ pair.1.allowedDecisions →
      ¬(pair.1.gate = .bypass ∧ call.name = "python_repl") → isDenial ruling = false

theorem follows_of_dispatched {ctx : ApprovalContext} {k : Nat} {call : ToolCall} {ruling : Ruling}
    {part shown : List (Card × HITLResponse)} (dispatched : Dispatched ctx k call part ruling)
    (whole : ∀ pair, pair ∈ part ↔ pair ∈ shown ∧ pair.1.index = k) : Follows shown k call ruling where
  shows pair member here := dispatched.shows ((whole pair).mpr ⟨member, here⟩)
  unrejected through pair member here rejects := by
    cases ruling with
    | approve other =>
      have accepted := dispatched.accepted ((whole pair).mpr ⟨member, here⟩)
      rw [not_accepts_of_reject rejects] at accepted
      cases accepted
    | deny message => cases through
  approved pair member here approves offered decides :=
    dispatched.approved ((whole pair).mpr ⟨member, here⟩) (accepts_of_approve approves offered) decides

/-- Human answers reach the call they were given for, as long as only the last one is recorded. -/
theorem answers_reach_their_call {ctx : ApprovalContext} {messages : List Message}
    {state after : HookState} {answers : List HITLResponse} {shown : List (Card × HITLResponse)}
    {outcome : ApprovalOutcome}
    (served : serve (afterModel ctx messages) [] state answers = (shown, .done after (some outcome)))
    (quiet : ∀ pair ∈ shown.dropLast, records pair.1 pair.2 = false) :
    ∃ calls, outcome.message.toolCalls.mapM ToolCall.ofJson? = some calls ∧
      outcome.rulings.length = calls.length ∧
        ∀ k call ruling, calls[k]? = some call → outcome.rulings[k]? = some ruling →
          Follows shown k call ruling := by
  have run := ends_of_serve (steady_afterModel messages) served quiet
  obtain ⟨-, calls, read, reviewed⟩ := afterModel_ends run
  refine ⟨calls, read, reviewed.length, fun k call ruling here found => ?_⟩
  obtain ⟨part, other, decided, dispatched, whole⟩ := reviewed.part here
  obtain rfl : other = ruling := Option.some.inj (decided.symm.trans found)
  rw [Nat.zero_add] at dispatched
  exact follows_of_dispatched dispatched fun pair => by rw [whole pair, Nat.zero_add]

/-! ## Reviews on fixed messages -/

/-- `deploy` and `release` ask before every use, and so does a `killall`. -/
def askingCtx : ApprovalContext where
  config := { mode := .manual, interruptedTools := [("deploy", .flag true), ("release", .flag true)] }
  hardlinePatterns := []
  dangerousPatterns :=
    [(⟨"\\bkillall\\s+", fun command => PyText.contains "killall " (PyText.lower command)⟩, "killall")]
  clawhubPatterns := []
  sessionId := "main"
  operator := some "main"
  argsHash := fun _ => "99914b932bd37a50b983c5e7c90ae93b"
  writeId := fun _ => "w"

def killCall (id program : String) : ToolCall :=
  { id := some id, name := "terminal", args := [("commands", .str ("killall " ++ program))] }

def toolCall (id name : String) : ToolCall := { id := some id, name, args := [] }

/-- An answer with one decision. -/
def answer (type : DecisionType) : HITLResponse := .decisions [{ type }]

/-- The calls a review lets through, by position. -/
def letThrough (result : Option ApprovalOutcome) : List Bool :=
  (result.elim [] (·.rulings)).map fun ruling => !isDenial ruling

/-- Two commands, one approved and one rejected. -/
theorem answers_reach_their_call_twice :
    ∃ shown after outcome,
      serve (afterModel askingCtx
          [.ai { toolCalls := [(killCall "call_1" "a").toJson, (killCall "call_2" "b").toJson] }]) []
          {} [answer .approve, answer .reject] = (shown, .done after (some outcome)) ∧
        shown.length = 2 ∧
          ∃ calls, outcome.message.toolCalls.mapM ToolCall.ofJson? = some calls ∧
            outcome.rulings.length = calls.length ∧
              ∀ k call ruling, calls[k]? = some call → outcome.rulings[k]? = some ruling →
                Follows shown k call ruling := by
  obtain ⟨shown, after, result, served, passed⟩ :=
    exists_of_serves (afterModel askingCtx
        [.ai { toolCalls := [(killCall "call_1" "a").toJson, (killCall "call_2" "b").toJson] }])
      {} [answer .approve, answer .reject]
      (fun shown result => shown.all (fun pair => !records pair.1 pair.2) &&
        shown.length == 2 && result.isSome) (by decide +kernel)
  cases result with
  | none => simp at passed
  | some outcome =>
    simp only [Bool.and_eq_true, List.all_eq_true, Bool.not_eq_true', beq_iff_eq] at passed
    refine ⟨shown, after, outcome, served, passed.1.2, answers_reach_their_call served ?_⟩
    intro pair member
    exact passed.1.1 pair (List.dropLast_subset _ member)

/-- `session` is offered on no card that is shown, and denies the call. -/
theorem session_answer_denied :
    ∃ shown after outcome,
      serve (afterModel askingCtx [.ai { toolCalls := [(killCall "call_1" "a").toJson] }]) []
          {} [answer .session] = (shown, .done after (some outcome)) ∧
        (∃ pair ∈ shown, pair.1.index = 0 ∧ HITLResponse.kind pair.2 = some .session) ∧
          letThrough (some outcome) = [false] := by
  obtain ⟨shown, after, result, served, passed⟩ :=
    exists_of_serves (afterModel askingCtx
        [.ai { toolCalls := [(killCall "call_1" "a").toJson] }])
      {} [answer .session]
      (fun shown result => shown.any (fun pair =>
          pair.1.index == 0 && HITLResponse.kind pair.2 == some .session) &&
        letThrough result == [false]) (by decide +kernel)
  cases result with
  | none => simp [letThrough] at passed
  | some outcome =>
    simp only [Bool.and_eq_true, List.any_eq_true, beq_iff_eq] at passed
    exact ⟨shown, after, outcome, served, passed.1, passed.2⟩

/-- `deploy` is approved and `release` rejected; the approval is on record when the review runs
for the last time, so `release` takes it and is let through. -/
theorem recorded_answer_shifts_the_next :
    ∃ shown after outcome,
      serve (afterModel askingCtx
          [.ai { toolCalls := [(toolCall "call_1" "deploy").toJson,
            (toolCall "call_2" "release").toJson] }]) []
          {} [answer .approve, answer .reject] = (shown, .done after (some outcome)) ∧
        (∃ pair ∈ shown, pair.1.name = "release" ∧ HITLResponse.kind pair.2 = some .reject) ∧
          letThrough (some outcome) = [true, true] := by
  obtain ⟨shown, after, result, served, passed⟩ :=
    exists_of_serves (afterModel askingCtx
        [.ai { toolCalls := [(toolCall "call_1" "deploy").toJson,
          (toolCall "call_2" "release").toJson] }])
      {} [answer .approve, answer .reject]
      (fun shown result => shown.any (fun pair =>
          pair.1.name == "release" && HITLResponse.kind pair.2 == some .reject) &&
        letThrough result == [true, true]) (by decide +kernel)
  cases result with
  | none => simp [letThrough] at passed
  | some outcome =>
    simp only [Bool.and_eq_true, List.any_eq_true, beq_iff_eq] at passed
    exact ⟨shown, after, outcome, served, passed.1, passed.2⟩

end SherryAgent.Guarantees.HumanAnswers
