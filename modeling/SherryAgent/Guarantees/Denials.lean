import SherryAgent.Contracts.HumanInTheLoop
import SherryAgent.Contracts.Transcript.Repair

/-!
# Denials in the transcript

A denied call is taken out of the assistant message while its denial is appended as a tool
result. The repair of the transcript drops every result whose call the message does not
make, so no denial outlives it.

* `denials_delivered_iff` — every call keeps one place, and every denial outlives the
  repair, exactly when no gate denies a call and no call has two results already.
* `denial_dropped` — one rejected command.
-/

namespace SherryAgent.Guarantees.Denials

open SherryAgent.Source SherryAgent.Source.HumanInTheLoop SherryAgent.Contracts.HumanInTheLoop
open SherryAgent.Source.Transcript SherryAgent.Contracts.Transcript
open SherryAgent.Library.Reruns

/-! ## The last turn of a repaired transcript -/

/-- The messages behind the last assistant. -/
def lastSpan (messages : List Message) : List Message :=
  match (turns messages).2.getLast? with
  | some turn => turn.span
  | none => []

theorem lastSpan_flatten {first : List Message} {ts : List Turn} {turn : Turn}
    (noAi : ∀ message ∈ first, message.isAi = false)
    (noAi_span : ∀ other ∈ ts ++ [turn], ∀ message ∈ other.span, message.isAi = false) :
    lastSpan (first ++ flatten (ts ++ [turn])) = turn.span := by
  unfold lastSpan
  rw [turns_flatten noAi noAi_span, List.getLast?_concat]

theorem lastSpan_append {behind : List Message} (before : List Message) (message : AiMessage)
    (noAi : ∀ other ∈ behind, other.isAi = false) :
    ∃ ts, (turns (before ++ .ai message :: behind)).2 = ts ++ [⟨message, behind⟩] := by
  refine ⟨(turns before).2, ?_⟩
  have whole := append_flatten_turns before
  obtain ⟨noAi_first, noAi_spans⟩ := turns_noAi before
  have shape : before ++ .ai message :: behind =
      (turns before).1 ++ flatten ((turns before).2 ++ [⟨message, behind⟩]) := by
    conv_lhs => rw [← whole]
    simp [flatten]
  rw [shape, turns_flatten noAi_first]
  intro turn member
  rcases List.mem_append.mp member with old | last
  · exact noAi_spans turn old
  · obtain rfl := List.mem_singleton.mp last
    exact noAi

theorem repaired_last {st fin : Repair} {befores afters : List Turn} {before : Turn}
    (repaired : Repaired st (befores ++ [before]) afters fin) :
    ∃ rest after mid mid', afters = rest ++ [after] ∧ TurnEffect mid mid' before after := by
  induction befores generalizing st afters with
  | nil =>
    cases repaired with
    | cons effect rest =>
      cases rest
      exact ⟨[], _, _, _, rfl, effect⟩
  | cons first befores ih =>
    cases repaired with
    | cons effect rest =>
      obtain ⟨others, after, mid, mid', rfl, last⟩ := ih rest
      exact ⟨_ :: others, after, mid, mid', rfl, last⟩

/-- A result of no call of its turn stays where it is until the cleanup. -/
theorem foreign_stays {st st' : Repair} {before after : Turn} (effect : TurnEffect st st' before after)
    {message : ToolMessage} (member : .tool message ∈ before.span)
    (unasked : message.toolCallId ∉ before.ids) : .tool message ∈ after.span := by
  by_cases calling : before.Calling
  · obtain ⟨results, span, -, -⟩ := effect.answered calling
    rw [span]
    apply List.mem_append_right
    exact List.mem_map_of_mem (mem_foreign.mpr ⟨member, unasked⟩)
  · rw [effect.kept calling]
    exact member

/-- Behind the last assistant the repair leaves only results of its calls. -/
theorem sanitized_lastSpan (clock : Nat → Int) {messages : List Message} {ts : List Turn} {turn : Turn}
    (last : (turns messages).2 = ts ++ [turn]) {message : ToolMessage} (named : message.toolCallId ≠ "")
    (kept : .tool message ∈ lastSpan (sanitizeToolUseResultPairing clock messages)) :
    message.toolCallId ∈ turn.ids := by
  obtain ⟨afters, fin, repaired, outcome⟩ := sanitize_spec clock messages
  have filled : (filledTurns messages).2 = ts.map Turn.fill ++ [turn.fill] := by
    simp [filledTurns, last]
  have noAi := turns_noAi (messages.map fillMessage)
  rw [turns_map_fill] at noAi
  have noAi_afters := repaired.noAi noAi.2
  rw [filled] at repaired
  obtain ⟨rest, after, mid, mid', rfl, effect⟩ := repaired_last repaired
  have ids : after.ids = turn.ids := effect.ids
  rcases outcome with ⟨-, cleaned⟩ | ⟨unaltered, same⟩
  · rw [cleaned, List.map_append, List.map_singleton, lastSpan_flatten] at kept
    · have answers := (List.mem_filter.mp kept).2
      rw [ids] at answers
      simpa [answersTo, named] using answers
    · intro other member
      exact noAi.1 other (List.mem_filter.mp member).1
    · intro other member inner inside
      rw [← List.map_singleton, ← List.map_append] at member
      obtain ⟨source, from_after, rfl⟩ := List.mem_map.mp member
      exact noAi_afters source from_after inner (List.mem_filter.mp inside).1
  · rw [same, lastSpan, last, List.getLast?_concat] at kept
    by_contra unasked
    apply unaltered
    refine .inr (.inr ⟨after, List.mem_append_right _ List.mem_cons_self,
      .tool (fillEmpty message), ?_, ?_⟩)
    · apply foreign_stays effect
      · exact List.mem_map_of_mem kept
      · rw [fillEmpty_toolCallId]
        exact unasked
    · rw [ids]
      simp [answersTo, named, unasked]

/-! ## The update -/

/-- The results of a call among the messages. -/
def resultsFor (id : Option String) (messages : List Message) : Nat :=
  messages.countP fun
    | .tool message => some message.toolCallId == id
    | _ => false

/-- Each call still stands unanswered in the message or has exactly one result, and the
denials are behind the message after the repair. -/
structure Delivered (clock : Nat → Int) (outcome : ApprovalOutcome) (calls : List ToolCall) : Prop where
  settled : ∀ call ∈ calls,
    (∃ other ∈ outcome.revisedToolCalls, other.id = call.id) ∧ resultsFor call.id outcome.behind = 0 ∨
      resultsFor call.id outcome.behind = 1
  kept : ∀ denial ∈ outcome.artificialToolMessages,
    .tool denial ∈ lastSpan (sanitizeToolUseResultPairing clock outcome.messages)

theorem splitLastAi_noAi {messages before after : List Message} {message : AiMessage}
    (split : splitLastAi messages = some (before, message, after)) :
    ∀ other ∈ after, other.isAi = false := by
  have none_left : ∀ rest : List Message, splitLastAi rest = none →
      ∀ other ∈ rest, other.isAi = false := by
    intro rest
    induction rest with
    | nil => exact fun _ _ member => absurd member List.not_mem_nil
    | cons first rest ih =>
      intro nothing other member
      unfold splitLastAi at nothing
      cases later : splitLastAi rest with
      | some found =>
        rw [later] at nothing
        cases nothing
      | none =>
        rw [later] at nothing
        rcases List.mem_cons.mp member with rfl | behind
        · cases other with
          | ai found => cases nothing
          | plain message => rfl
          | tool message => rfl
        · exact ih later other behind
  induction messages generalizing before with
  | nil => cases split
  | cons first rest ih =>
    unfold splitLastAi at split
    cases later : splitLastAi rest with
    | some found =>
      obtain ⟨before', message', after'⟩ := found
      rw [later] at split
      cases split
      exact ih later
    | none =>
      rw [later] at split
      cases first with
      | ai found =>
        cases split
        exact none_left _ later
      | plain message => cases split
      | tool message => cases split

/-- The ids the repair reads off a call. -/
theorem extractToolCall_toJson {call : ToolCall} {like : ToolCallLike}
    (read : extractToolCall call.toJson = some like) : call.id = some like.id := by
  obtain ⟨id, name, args⟩ := call
  cases id with
  | none => simp [extractToolCall, extractToolCallId, nonEmptyStr, ToolCall.toJson, Json.get,
      Json.truthy, Json.isObject] at read
  | some id =>
    have reads : extractToolCall (ToolCall.toJson { id := some id, name, args }) =
        if id = "" then none else some { id, name := some name } := by
      by_cases empty : id = "" <;>
        simp [extractToolCall, extractToolCallId, nonEmptyStr, ToolCall.toJson, Json.get,
          Json.truthy, Json.isObject, empty]
    rw [reads] at read
    split at read
    · cases read
    · cases read
      rfl

section

variable {ctx : ApprovalContext} {messages : List Message} {state after : HookState}
  {log : List (Card × HITLResponse)} {outcome : ApprovalOutcome} {calls : List ToolCall}

/-- The reviewed message makes only calls that were let through. -/
theorem mem_revised_ids {id : String}
    (member : id ∈ (extractToolCalls outcome.revised).map (·.id)) :
    ∃ call ∈ outcome.revisedToolCalls, call.id = some id := by
  obtain ⟨like, extracted, rfl⟩ := List.mem_map.mp member
  obtain ⟨block, inside, read⟩ := List.mem_filterMap.mp extracted
  obtain ⟨call, through, rfl⟩ := List.mem_map.mp inside
  exact ⟨call, through, extractToolCall_toJson read⟩

theorem behind_of_undenied (undenied : ∀ ruling ∈ outcome.rulings, isDenial ruling = false) :
    outcome.artificialToolMessages = [] ∧ outcome.behind = outcome.after := by
  have empty : outcome.artificialToolMessages = [] := by
    apply List.eq_nil_iff_forall_not_mem.mpr
    intro message member
    cases undenied _ (mem_artificialToolMessages.mp member)
  refine ⟨empty, ?_⟩
  rw [ApprovalOutcome.behind, empty, List.map_nil, List.append_nil]

/-- Of two rulings on calls with different ids only one concerns an id. -/
theorem ruling_unique (reviewed : Reviewed ctx 0 calls log outcome.rulings)
    (distinct : (calls.map (·.id)).Nodup) {first second : Ruling} (left : first ∈ outcome.rulings)
    (right : second ∈ outcome.rulings) (same : Ruling.concerns first = Ruling.concerns second) :
    first = second := by
  rw [← reviewed.concerns] at distinct
  exact List.inj_on_of_nodup_map distinct left right same

/-- The repair drops the denial of a call with an id. -/
theorem denial_lost (clock : Nat → Int)
    (split : splitLastAi messages = some (outcome.before, outcome.message, outcome.after))
    (reviewed : Reviewed ctx 0 calls log outcome.rulings) (distinct : (calls.map (·.id)).Nodup)
    {message : ToolMessage} (denied : Ruling.deny message ∈ outcome.rulings)
    (named : message.toolCallId ≠ "") :
    .tool message ∉ lastSpan (sanitizeToolUseResultPairing clock outcome.messages) := by
  intro kept
  have noAi : ∀ other ∈ outcome.behind, other.isAi = false := by
    intro other behind
    rcases List.mem_append.mp behind with old | denial
    · exact splitLastAi_noAi split other old
    · obtain ⟨_, -, rfl⟩ := List.mem_map.mp denial
      rfl
  obtain ⟨ts, last⟩ := lastSpan_append outcome.before outcome.revised noAi
  have asked := sanitized_lastSpan clock last named kept
  obtain ⟨through, approved, same⟩ := mem_revised_ids asked
  have clash := ruling_unique reviewed distinct (mem_revisedToolCalls.mp approved) denied same
  cases clash

/-- The calls keep one place each and the denials outlive the repair, for every transcript and
whatever the human answers. -/
theorem denials_delivered_iff (clock : Nat → Int)
    (run : ((afterModel ctx messages) state).Ends log after (some outcome))
    (read : outcome.message.toolCalls.mapM ToolCall.ofJson? = some calls)
    (distinct : (calls.map (·.id)).Nodup) (named : ∀ call ∈ calls, call.id ≠ some "") :
    Delivered clock outcome calls ↔
      (∀ ruling ∈ outcome.rulings, isDenial ruling = false) ∧
        ∀ call ∈ calls, resultsFor call.id outcome.after ≤ 1 := by
  obtain ⟨split, others, read', reviewed⟩ := afterModel_ends run
  obtain rfl : calls = others := Option.some.inj (read.symm.trans read')
  constructor
  · intro delivered
    have undenied : ∀ ruling ∈ outcome.rulings, isDenial ruling = false := by
      intro ruling member
      cases ruling with
      | approve call => rfl
      | deny message =>
        exfalso
        have concerned : some message.toolCallId ∈ calls.map (·.id) := by
          rw [← reviewed.concerns]
          exact List.mem_map_of_mem member
        obtain ⟨call, inside, id⟩ := List.mem_map.mp concerned
        have nonempty : message.toolCallId ≠ "" := by
          intro empty
          rw [empty] at id
          exact named call inside id
        exact denial_lost clock split reviewed distinct member nonempty
          (delivered.kept message (mem_artificialToolMessages.mpr member))
    refine ⟨undenied, fun call inside => ?_⟩
    rw [← (behind_of_undenied undenied).2]
    rcases delivered.settled call inside with ⟨-, none_yet⟩ | one
    · omega
    · omega
  · rintro ⟨undenied, single⟩
    obtain ⟨empty, behind⟩ := behind_of_undenied undenied
    refine ⟨fun call inside => ?_, fun denial member => ?_⟩
    · rw [behind]
      have few := single call inside
      have concerned : call.id ∈ outcome.rulings.map Ruling.concerns := by
        rw [reviewed.concerns]
        exact List.mem_map_of_mem inside
      obtain ⟨ruling, member, same⟩ := List.mem_map.mp concerned
      cases ruling with
      | approve other =>
        rcases Nat.eq_zero_or_pos (resultsFor call.id outcome.after) with zero | positive
        · exact .inl ⟨⟨other, mem_revisedToolCalls.mpr member, same⟩, zero⟩
        · exact .inr (by omega)
      | deny message => cases undenied _ member
    · rw [empty] at member
      cases member

end

/-! ## One call of a configured tool -/

/-- `deploy` asks before every use. -/
def deployCtx : ApprovalContext where
  config := { interruptedTools := [("deploy", .flag true)] }
  hardlinePatterns := []
  dangerousPatterns := []
  clawhubPatterns := []
  sessionId := "main"
  operator := some "main"
  argsHash := fun _ => "99914b932bd37a50b983c5e7c90ae93b"
  writeId := fun _ => "w"

def deployCall : ToolCall := { id := some "call_1", name := "deploy", args := [] }

def deployMessage : AiMessage := { toolCalls := [deployCall.toJson] }

theorem deploy_read {outcome : ApprovalOutcome}
    (split : splitLastAi [.ai deployMessage] =
      some (outcome.before, outcome.message, outcome.after)) :
    outcome.message.toolCalls.mapM ToolCall.ofJson? = some [deployCall] := by
  have same : deployMessage = outcome.message :=
    (Prod.mk.inj (Prod.mk.inj (Option.some.inj split)).2).1
  rw [← same]
  rfl

theorem denials_delivered_approved :
    ∃ log after outcome,
      ((afterModel deployCtx [.ai deployMessage]) {}).Ends log after (some outcome) ∧
        Delivered (fun _ => 0) outcome [deployCall] := by
  obtain ⟨log, after, result, run, passed⟩ :=
    Run.exists_of_returns ((afterModel deployCtx [.ai deployMessage]) {})
      [.decisions [{ type := .approve }]]
      (fun _ outcome => outcome.any fun outcome =>
        outcome.rulings.all (fun ruling => !isDenial ruling) && outcome.after.isEmpty)
      (by decide +kernel)
  cases result with
  | none => cases passed
  | some outcome =>
    simp only [Option.any_some, Bool.and_eq_true, List.all_eq_true, Bool.not_eq_true',
      List.isEmpty_iff] at passed
    refine ⟨log, after, outcome, run,
      (denials_delivered_iff _ run ?_ (by decide) (by decide)).mpr ⟨passed.1, fun call _ => ?_⟩⟩
    · exact deploy_read (afterModel_ends run).1
    · rw [passed.2]
      exact Nat.zero_le 1

/-- The human rejects the call; the repair drops the denial. -/
theorem denial_dropped :
    ∃ log after outcome,
      ((afterModel deployCtx [.ai deployMessage]) {}).Ends log after (some outcome) ∧
        outcome.message.toolCalls.mapM ToolCall.ofJson? = some [deployCall] ∧
          ¬Delivered (fun _ => 0) outcome [deployCall] := by
  obtain ⟨log, after, result, run, passed⟩ :=
    Run.exists_of_returns ((afterModel deployCtx [.ai deployMessage]) {})
      [.decisions [{ type := .reject }]]
      (fun _ outcome => outcome.any fun outcome =>
        outcome.artificialToolMessages.any fun message => message.toolCallId == "call_1")
      (by decide +kernel)
  cases result with
  | none => cases passed
  | some outcome =>
    simp only [Option.any_some, List.any_eq_true, beq_iff_eq] at passed
    obtain ⟨denial, member, id⟩ := passed
    obtain ⟨split, calls, read, reviewed⟩ := afterModel_ends run
    obtain rfl : calls = [deployCall] := Option.some.inj (read.symm.trans (deploy_read split))
    refine ⟨log, after, outcome, run, read, fun delivered => ?_⟩
    apply denial_lost (fun _ => 0) split reviewed (by decide) (mem_artificialToolMessages.mp member)
    · rw [id]
      decide
    · exact delivered.kept denial member

end SherryAgent.Guarantees.Denials
