import SherryAgent.Contracts.Transcript.Repair

/-!
# The messages the transcript repair leaves alone

Assistant messages are put out one for one, without their invalid calls. The other
messages that are no tool results are put out as well, unless they stand behind an
assistant whose calls are repaired: the scan of its span drops them.

* `others_kept_iff` — the repair keeps the messages that are no tool results exactly
  when none stands in such a span.
* `user_message_dropped` — the user's next message after an interrupted tool call.
-/

namespace SherryAgent.Guarantees.TranscriptFrame

open SherryAgent.Source.Transcript SherryAgent.Contracts.Transcript

/-- The messages that are no tool results. -/
def others (messages : List Message) : List Message := messages.filter fun message => !message.isTool

/-- The message with its invalid calls cleared. -/
def cleared : Message → Message
  | .ai message => .ai (clearInvalid message)
  | message => message

@[simp] theorem others_append (first rest : List Message) :
    others (first ++ rest) = others first ++ others rest :=
  List.filter_append ..

@[simp] theorem others_ai (message : AiMessage) (rest : List Message) :
    others (.ai message :: rest) = .ai message :: others rest := rfl

theorem others_tools (results : List ToolMessage) : others (results.map .tool) = [] := by
  simp [others, Message.isTool]

@[simp] theorem others_fill (messages : List Message) :
    others (messages.map fillMessage) = others messages := by
  induction messages with
  | nil => rfl
  | cons message rest ih =>
    cases message <;> simp_all [others, fillMessage, Message.isTool]

/-- The cleanup drops tool messages only. -/
@[simp] theorem others_clean (ids : List String) (messages : List Message) :
    others (messages.filter (answersTo ids)) = others messages := by
  rw [others, others, List.filter_filter]
  refine List.filter_congr fun message _ => ?_
  cases message <;> simp [Message.isTool, answersTo]

theorem others_eq_nil {messages : List Message} :
    others messages = [] ↔ ∀ message ∈ messages, message.isTool = true := by
  simp [others, List.filter_eq_nil_iff]

/-- Of a turn the repair keeps the assistant, and the rest unless it scans the span. -/
theorem others_effect {st st' : Repair} {before after : Turn} (effect : TurnEffect st st' before after) :
    others after.clean.span = if before.Calling then [] else others before.span := by
  rw [Turn.clean, others_clean]
  split
  · rename_i calling
    obtain ⟨results, span, -, -⟩ := effect.answered calling
    rw [span, others_append, others_tools, others_tools, List.append_nil]
  · rename_i idle
    rw [effect.kept idle]

theorem others_flatten_le {st fin : Repair} {befores afters : List Turn}
    (repaired : Repaired st befores afters fin) :
    (others (flatten (afters.map Turn.clean))).length ≤ (others (flatten befores)).length := by
  induction repaired with
  | nil st => exact Nat.le_refl _
  | @cons st st' fin before after befores afters effect rest ih =>
    have span := others_effect effect
    simp only [List.map_cons, flatten_cons, others_ai, others_append, List.length_cons,
      List.length_append, span]
    split
    · rw [List.length_nil]
      omega
    · omega

/-- Turn by turn: everything is kept exactly when no scanned span has anything to lose. -/
theorem others_repaired {st fin : Repair} {befores afters : List Turn}
    (repaired : Repaired st befores afters fin) :
    (others (flatten (afters.map Turn.clean))).map cleared = (others (flatten befores)).map cleared ↔
      ∀ turn ∈ befores, turn.Calling → ∀ message ∈ turn.span, message.isTool = true := by
  induction repaired with
  | nil st => simp
  | @cons st st' fin before after befores afters effect rest ih =>
    have span := others_effect effect
    have shorter := others_flatten_le rest
    have head : cleared (.ai after.clean.assistant) = cleared (.ai before.assistant) := by
      rw [Turn.clean, effect.assistant]
      rfl
    rw [List.map_cons, flatten_cons, flatten_cons, others_ai, others_ai, others_append, others_append,
      List.map_cons, List.map_cons, head, List.cons_inj_right, List.map_append, List.map_append, span,
      List.forall_mem_cons]
    by_cases calling : before.Calling
    · rw [if_pos calling, List.map_nil, List.nil_append, forall_prop_of_true calling, ← others_eq_nil]
      constructor
      · intro same
        have lengths := congrArg List.length same
        simp only [List.length_map, List.length_append] at lengths
        have empty : others before.span = [] := List.eq_nil_of_length_eq_zero (by omega)
        rw [empty, List.map_nil, List.nil_append] at same
        exact ⟨empty, ih.mp same⟩
      · rintro ⟨empty, later⟩
        rw [empty, List.map_nil, List.nil_append]
        exact ih.mpr later
    · rw [if_neg calling, List.append_cancel_left_eq, ih]
      exact ⟨fun later => ⟨fun asked => absurd asked calling, later⟩, fun both => both.2⟩

/-- For every transcript: the messages that are no tool results come out unchanged and in
order exactly when every message behind an assistant whose calls are repaired, up to the
next assistant, is a tool result. -/
theorem others_kept_iff (clock : Nat → Int) (messages : List Message) :
    (others (sanitizeToolUseResultPairing clock messages)).map cleared =
        (others messages).map cleared ↔
      ∀ turn ∈ (turns messages).2, turn.Calling → ∀ message ∈ turn.span, message.isTool = true := by
  have whole := append_flatten_turns messages
  have filled_kept : others (flatten (filledTurns messages).2) = others (flatten (turns messages).2) := by
    rw [filledTurns]
    induction (turns messages).2 with
    | nil => rfl
    | cons turn ts ih => simp [Turn.fill, ih]
  have filled_tools : (∀ turn ∈ (filledTurns messages).2, turn.Calling →
        ∀ message ∈ turn.span, message.isTool = true) ↔
      ∀ turn ∈ (turns messages).2, turn.Calling → ∀ message ∈ turn.span, message.isTool = true := by
    rw [filledTurns, List.forall_mem_map]
    refine forall₂_congr fun turn _ => imp_congr Iff.rfl ?_
    rw [← others_eq_nil, ← others_eq_nil, Turn.fill, others_fill]
  obtain ⟨afters, fin, repaired, ⟨-, sanitized⟩ | ⟨unaltered, sanitized⟩⟩ :=
    sanitize_spec clock messages
  · have turned := others_repaired repaired
    rw [filled_kept, filled_tools] at turned
    rw [sanitized, ← turned]
    conv_lhs => rhs; rw [← whole]
    rw [others_append, others_append, others_clean, filledTurns, others_fill, List.map_append,
      List.map_append, List.append_cancel_left_eq]
  · rw [sanitized]
    refine iff_of_true rfl (filled_tools.mp fun turn member calling message inside => ?_)
    by_contra other
    refine unaltered (.inl (repaired.touched member fun seen => .inr ⟨calling, .inl ?_⟩))
    cases message with
    | plain message => exact ⟨message, inside⟩
    | ai message =>
      have noAi := (turns_noAi (messages.map fillMessage)).2
      rw [turns_map_fill] at noAi
      exact Bool.noConfusion (noAi turn member _ inside)
    | tool message => exact absurd rfl other

/-- A call that was interrupted, and the user's next message. -/
def interrupted : List Message :=
  [.ai { toolCalls := [.obj [("name", .str "read_file"), ("id", .str "call-1"),
      ("type", .str "tool_call")]] },
   .plain { role := .human, content := .text "stop and do this instead" }]

/-- The user's message is gone from what the repair puts out. -/
theorem user_message_dropped :
    (others (sanitizeToolUseResultPairing (fun _ => 0) interrupted)).map cleared ≠
      (others interrupted).map cleared := by
  intro same
  have lengths := congrArg List.length same
  revert lengths
  decide +kernel

end SherryAgent.Guarantees.TranscriptFrame
