import Mathlib.Data.List.Pairwise
import SherryAgent.Contracts.Agent.Healing
import SherryAgent.Contracts.Agent.Truncation
import SherryAgent.Contracts.ContextEngine.UserTurns

/-!
# The messages that count as user turns

The operations on a checkpoint keep the messages that count as user turns, in their
order, and put new ones behind them; only the transcript repair takes some out. Such a
message has an id of its own.
-/

namespace SherryAgent.Contracts.Agent

open SherryAgent.Source.Agent SherryAgent.Source.Transcript SherryAgent.Contracts.Transcript
  SherryAgent.Source.ContextEngine SherryAgent.Contracts.ContextEngine

variable {thread : String} {messages out kept : List Message} {message : Message} {next : Nat}

/-- The checkpoint and the message table agree on whether the message is a user's turn. -/
def Balanced (message : Message) : Prop := countsAsTurn message = isUserMessage message

instance (message : Message) : Decidable (Balanced message) :=
  inferInstanceAs (Decidable (_ = _))

def counted (messages : List Message) : List Message := messages.filter countsAsTurn

theorem mem_counted : message ∈ counted messages ↔ message ∈ messages ∧ countsAsTurn message = true :=
  List.mem_filter

@[simp] theorem counted_append (first rest : List Message) :
    counted (first ++ rest) = counted first ++ counted rest := List.filter_append first rest

theorem counted_eq_nil (uncounted : ∀ message ∈ messages, countsAsTurn message = false) :
    counted messages = [] :=
  List.filter_eq_nil_iff.mpr fun message member => Bool.eq_false_iff.mp (uncounted message member)

theorem countsAsTurn_of_other (other : isHuman message = false) : countsAsTurn message = false := by
  rw [countsAsTurn, other, Bool.false_and]

theorem balanced_of_other (other : isHuman message = false) : Balanced message := by
  rw [Balanced, countsAsTurn_of_other other]
  cases message with
  | plain message => simp [isUserMessage, buildRow, other]
  | ai message => simp [isUserMessage, buildRow]
  | tool message => simp [isUserMessage, buildRow]

/-! ## Ids of the reducer -/

theorem uuid_inj {m n : Nat} : uuid m = uuid n ↔ m = n := by
  refine ⟨fun same => digits_injective ?_, fun same => same ▸ rfl⟩
  have chars := congrArg String.toList same
  simpa [uuid, Nat.toString_eq_repr] using chars

theorem countsAsTurn_setId (id : String) (message : Message) :
    countsAsTurn (setId id message) = countsAsTurn message := by
  cases message <;> rfl

theorem isUserMessage_setId (id : String) (message : Message) :
    isUserMessage (setId id message) = isUserMessage message := by
  cases message <;> rfl

/-- What the reducer puts in the list: a message that bears an id, or one with a new id. -/
theorem mem_assignIds (member : message ∈ assignIds next messages) :
    message ∈ messages ∧ bearsId message = true ∨
      ∃ old ∈ messages, bearsId old = false ∧
        ∃ k, next ≤ k ∧ k < next + messages.length ∧ message = setId (uuid k) old := by
  induction messages generalizing next with
  | nil => cases member
  | cons head rest ih =>
    rw [assignIds] at member
    rw [List.length_cons]
    have later : ∀ first, next ≤ first → first ≤ next + 1 → message ∈ assignIds first rest →
        message ∈ head :: rest ∧ bearsId message = true ∨
          ∃ old ∈ head :: rest, bearsId old = false ∧
            ∃ k, next ≤ k ∧ k < next + (rest.length + 1) ∧ message = setId (uuid k) old := by
      intro first above below inside
      rcases ih inside with ⟨old, named⟩ | ⟨old, inside, unnamed, k, lower, upper, made⟩
      · exact .inl ⟨List.mem_cons_of_mem _ old, named⟩
      · exact .inr ⟨old, List.mem_cons_of_mem _ inside, unnamed, k, by omega, by omega, made⟩
    split at member
    · rename_i named
      rcases List.mem_cons.mp member with rfl | inside
      · exact .inl ⟨List.mem_cons_self, named⟩
      · exact later next le_rfl (by omega) inside
    · rename_i unnamed
      rcases List.mem_cons.mp member with rfl | inside
      · exact .inr ⟨head, List.mem_cons_self, eq_false_of_ne_true unnamed, next, le_rfl, by omega,
          rfl⟩
      · exact later (next + 1) (by omega) le_rfl inside

/-- No two messages get the same new id. -/
theorem assignIds_distinct {messages : List Message} (next : Nat)
    (fresh : ∀ message ∈ messages, ∀ k, messageId message = some (uuid k) → k < next) :
    (assignIds next messages).Pairwise fun one other =>
      ∀ k, next ≤ k → messageId one = some (uuid k) → messageId other ≠ some (uuid k) := by
  induction messages generalizing next with
  | nil => exact .nil
  | cons message rest ih =>
    have fresh_rest := fun other member => fresh other (List.mem_cons_of_mem message member)
    rw [assignIds]
    split
    · refine List.pairwise_cons.mpr ⟨fun _ _ k later named _ => ?_, ih next fresh_rest⟩
      exact absurd (fresh message List.mem_cons_self k named) (by omega)
    · have distinct := ih (next + 1) fun other member k named =>
        Nat.lt_succ_of_lt (fresh_rest other member k named)
      have above : ∀ other ∈ assignIds (next + 1) rest, messageId other ≠ some (uuid next) := by
        intro other member named
        rcases mem_assignIds member with ⟨old, -⟩ | ⟨old, -, -, k, later, -, rfl⟩
        · exact absurd (fresh_rest other old next named) (lt_irrefl next)
        · rw [messageId_setId] at named
          have same := uuid_inj.mp (Option.some.inj named)
          omega
      refine List.pairwise_cons.mpr ⟨fun other member k later named same => ?_, ?_⟩
      · rw [messageId_setId] at named
        exact above other member (same.trans named.symm)
      · refine distinct.imp_of_mem fun {one other} inside _ apart k later named => ?_
        rcases later.eq_or_lt with rfl | strict
        · exact absurd named (above one inside)
        · exact apart k strict named

/-- New counted messages come behind those that were in the list. -/
theorem counted_assignIds {added : List Message} (split_here : counted messages = kept ++ added)
    (named : ∀ message ∈ kept, bearsId message = true)
    (unnamed : ∀ message ∈ added, bearsId message = false) (next : Nat) :
    ∃ assigned, counted (assignIds next messages) = kept ++ assigned ∧
      ∀ message ∈ assigned, ∃ k, next ≤ k ∧ messageId message = some (uuid k) := by
  induction messages generalizing kept added next with
  | nil =>
    rw [counted, List.filter_nil, eq_comm, List.append_eq_nil_iff] at split_here
    exact ⟨[], by rw [split_here.1]; rfl, nofun⟩
  | cons message rest ih =>
    rw [assignIds]
    by_cases counts : countsAsTurn message = true
    · rw [counted, List.filter_cons_of_pos counts] at split_here
      cases kept with
      | nil =>
        rw [List.nil_append] at split_here
        obtain rfl : message :: counted rest = added := split_here
        have without := unnamed message List.mem_cons_self
        obtain ⟨assigned, same, new⟩ := ih (List.nil_append _).symm nofun
          (fun other member => unnamed other (List.mem_cons_of_mem _ member)) (next + 1)
        rw [if_neg (Bool.eq_false_iff.mp without), counted,
          List.filter_cons_of_pos (by rwa [countsAsTurn_setId])]
        refine ⟨_, rfl, fun other member => ?_⟩
        rcases List.mem_cons.mp member with rfl | inside
        · exact ⟨next, le_rfl, messageId_setId _ _⟩
        · rw [List.nil_append] at same
          obtain ⟨k, later, here⟩ := new other (same ▸ inside)
          exact ⟨k, by omega, here⟩
      | cons head kept =>
        obtain ⟨rfl, later⟩ := List.cons.inj split_here
        obtain ⟨assigned, same, new⟩ := ih later
          (fun other member => named other (List.mem_cons_of_mem _ member)) unnamed next
        rw [if_pos (named message List.mem_cons_self), counted, List.filter_cons_of_pos counts]
        exact ⟨assigned, congrArg _ same, new⟩
    · rw [counted, List.filter_cons_of_neg counts] at split_here
      split
      · obtain ⟨assigned, same, new⟩ := ih split_here named unnamed next
        rw [counted, List.filter_cons_of_neg counts]
        exact ⟨assigned, same, new⟩
      · obtain ⟨assigned, same, new⟩ := ih split_here named unnamed (next + 1)
        rw [counted, List.filter_cons_of_neg (by rwa [countsAsTurn_setId])]
        exact ⟨assigned, same, fun other member => (new other member).imp fun k found =>
          ⟨by omega, found.2⟩⟩

/-! ## Checkpoints whose turns can be counted -/

/-- Every message has an id, the counted ones the reducer's, and each its own. -/
structure Countable (next : Nat) (messages : List Message) : Prop where
  named : ∀ message ∈ messages, bearsId message = true
  fresh : ∀ message ∈ messages, ∀ k, messageId message = some (uuid k) → k < next
  generated : ∀ message ∈ counted messages, ∃ k, messageId message = some (uuid k)
  balanced : ∀ message ∈ messages, Balanced message
  distinct : ((counted messages).map messageId).Nodup
  apart : ∀ message ∈ messages, countsAsTurn message = false → ∀ other ∈ counted messages,
    messageId message ≠ messageId other

/-- `out` holds messages of the list and new ones without ids, and of the counted ones of the
list those in `kept`. -/
structure Rewrites (messages kept out : List Message) : Prop where
  spared : kept.Sublist (counted messages)
  adds : ∃ added, counted out = kept ++ added ∧ ∀ message ∈ added, bearsId message = false
  others : ∀ message ∈ out, countsAsTurn message = false → bearsId message = true →
    ∃ old ∈ messages, countsAsTurn old = false ∧ messageId old = messageId message
  balanced : ∀ message ∈ out, Balanced message

theorem Countable.rewrite (countable : Countable next messages)
    (rewrites : Rewrites messages kept out) :
    Countable (next + out.length) (assignIds next out) ∧
      ∃ assigned, counted (assignIds next out) = kept ++ assigned ∧
        ∀ message ∈ assigned, ∃ k, next ≤ k ∧ messageId message = some (uuid k) := by
  obtain ⟨added, split_here, unnamed⟩ := rewrites.adds
  have kept_old : ∀ message ∈ kept, message ∈ messages ∧ countsAsTurn message = true :=
    fun message member => mem_counted.mp (rewrites.spared.subset member)
  obtain ⟨assigned, same, new⟩ := counted_assignIds split_here
    (fun message member => countable.named message (kept_old message member).1) unnamed next
  have old_id : ∀ message ∈ out, ∀ k, bearsId message = true →
      messageId message = some (uuid k) → k < next := by
    intro message member k named here
    cases counts : countsAsTurn message with
    | false =>
      obtain ⟨old, inside, -, id⟩ := rewrites.others message member counts named
      exact countable.fresh old inside k (id.trans here)
    | true =>
      have known : message ∈ kept ++ added := split_here ▸ mem_counted.mpr ⟨member, counts⟩
      rcases List.mem_append.mp known with old | fresh
      · exact countable.fresh message (kept_old message old).1 k here
      · rw [unnamed message fresh] at named
        cases named
  have distinct_new := assignIds_distinct next fun message member k here =>
    old_id message member k (bearsId_of_id here (uuid_ne_empty k)) here
  have clash : ∀ message ∈ kept, ∀ k, next ≤ k → messageId message ≠ some (uuid k) :=
    fun message member k later here =>
      absurd (countable.fresh message (kept_old message member).1 k here) (by omega)
  refine ⟨⟨named_assignIds next out, fun message member k here => ?_, fun message member => ?_,
    fun message member => ?_, ?_, fun message member other_kind other inside => ?_⟩,
    assigned, same, new⟩
  · rcases mem_assignIds member with ⟨old, named⟩ | ⟨old, -, -, j, -, upper, rfl⟩
    · exact (old_id message old k named here).trans_le (Nat.le_add_right _ _)
    · rw [messageId_setId] at here
      exact uuid_inj.mp (Option.some.inj here) ▸ upper
  · rcases List.mem_append.mp (same ▸ member) with old | fresh
    · exact countable.generated message (rewrites.spared.subset old)
    · exact (new message fresh).imp fun k found => found.2
  · rcases mem_assignIds member with ⟨old, -⟩ | ⟨old, inside, -, k, -, -, rfl⟩
    · exact rewrites.balanced message old
    · rw [Balanced, countsAsTurn_setId, isUserMessage_setId]
      exact rewrites.balanced old inside
  · have pairs := distinct_new.sublist (List.filter_sublist (p := countsAsTurn))
    rw [show (assignIds next out).filter countsAsTurn = kept ++ assigned from same] at pairs
    rw [same, List.map_append, List.nodup_append]
    refine ⟨countable.distinct.sublist (rewrites.spared.map messageId), ?_, ?_⟩
    · refine List.pairwise_map.mpr ((List.pairwise_append.mp pairs).2.1.imp_of_mem
        fun {one other} member _ apart alike => ?_)
      obtain ⟨k, later, here⟩ := new one member
      exact apart k later here (alike.symm.trans here)
    · rintro id old _ fresh rfl
      obtain ⟨one, member, rfl⟩ := List.mem_map.mp old
      obtain ⟨other, inside, alike⟩ := List.mem_map.mp fresh
      obtain ⟨k, later, here⟩ := new other inside
      exact clash one member k later (alike.symm.trans here)
  · intro alike
    obtain ⟨here, counts⟩ := mem_counted.mp inside
    have different : message ≠ other := fun equal => by
      rw [equal, counts] at other_kind
      cases other_kind
    have symmetric : Std.Symm fun one other : Message =>
        ∀ k, next ≤ k → messageId one = some (uuid k) → messageId other ≠ some (uuid k) :=
      ⟨fun _ _ apart k later here there => apart k later there here⟩
    have apart := distinct_new.forall member here different
    rcases List.mem_append.mp (same ▸ inside) with old | fresh
    · rcases mem_assignIds member with ⟨present, named⟩ | ⟨_, -, -, k, later, -, rfl⟩
      · obtain ⟨before, known, uncounted, id⟩ := rewrites.others message present other_kind named
        exact countable.apart before known uncounted other (rewrites.spared.subset old)
          (id.trans alike)
      · exact clash other old k later (alike.symm.trans (messageId_setId _ _))
    · obtain ⟨k, later, named⟩ := new other fresh
      exact apart k later (alike.trans named) named

/-! ## What the operations put out -/

theorem notice_uncounted (origin : NoticeOrigin) (text : String) :
    countsAsTurn (notice origin text) = false ∧ Balanced (notice origin text) ∧
      bearsId (notice origin text) = false := by
  cases origin <;> exact ⟨rfl, rfl, rfl⟩

/-- A message that counts as a turn is no reminder. -/
theorem isSystemReminder_of_counts (counts : countsAsTurn message = true) :
    isSystemReminder message = false := by
  rw [countsAsTurn, Bool.and_eq_true] at counts
  have plain := counts.2
  unfold isSystemReminder
  generalize (messageMetadata message).get "internal" = internal at plain ⊢
  cases internal with
  | bool flag =>
    cases flag with
    | true => cases plain
    | false => rfl
  | _ => rfl

section Operations

variable (countable : Countable next messages)
include countable

theorem rewrites_append {new : List Message} (balanced : ∀ message ∈ new, Balanced message) :
    Rewrites messages (counted messages) (messages ++ withoutIds new) := by
  have unnamed : ∀ message ∈ withoutIds new, bearsId message = false := by
    intro message member
    obtain ⟨old, -, rfl⟩ := List.mem_map.mp member
    cases old <;> rfl
  refine ⟨.refl _, ⟨counted (withoutIds new), counted_append _ _, fun message member =>
    unnamed message (mem_counted.mp member).1⟩, fun message member uncounted named => ?_,
    fun message member => ?_⟩
  · rcases List.mem_append.mp member with old | fresh
    · exact ⟨message, old, uncounted, rfl⟩
    · rw [unnamed message fresh] at named
      cases named
  · rcases List.mem_append.mp member with old | fresh
    · exact countable.balanced message old
    · obtain ⟨source, inside, rfl⟩ := List.mem_map.mp fresh
      have same := balanced source inside
      cases source <;> exact same

/-- Messages that do not count are put in, and some that do not count are taken out. -/
theorem rewrites_insert {first rest added : List Message} {p : Message → Bool}
    (whole : messages = first ++ rest) (passed : ∀ message ∈ first, countsAsTurn message = true →
      p message = true)
    (new : ∀ message ∈ added, countsAsTurn message = false ∧ Balanced message ∧
      bearsId message = false) :
    Rewrites messages (counted messages) (first.filter p ++ (added ++ rest)) := by
  have old : ∀ message ∈ first.filter p ++ (added ++ rest), message ∈ messages ∨
      message ∈ added := by
    intro message member
    rw [whole]
    simp only [List.mem_append, List.mem_filter] at member ⊢
    tauto
  have kept : counted (first.filter p) = counted first := by
    rw [counted, counted, List.filter_filter]
    refine List.filter_congr fun message member => ?_
    cases counts : countsAsTurn message with
    | false => rfl
    | true => rw [passed message member counts, Bool.and_true]
  refine ⟨.refl _, ⟨[], ?_, nofun⟩, fun message member uncounted named => ?_,
    fun message member => ?_⟩
  · rw [counted_append, counted_append, kept, counted_eq_nil fun message member =>
      (new message member).1, whole, counted_append, List.nil_append, List.append_nil]
  · rcases old message member with present | fresh
    · exact ⟨message, present, uncounted, rfl⟩
    · rw [(new message fresh).2.2] at named
      cases named
  · rcases old message member with present | fresh
    · exact countable.balanced message present
    · exact (new message fresh).2.1

theorem rewrites_announce (notices : List (NoticeOrigin × String)) :
    Rewrites messages (counted messages) (insertBeforeLastHuman messages
      (notices.map fun (origin, text) => notice origin text)) := by
  have new : ∀ message ∈ notices.map (fun (origin, text) => notice origin text),
      countsAsTurn message = false ∧ Balanced message ∧ bearsId message = false := by
    intro message member
    obtain ⟨entry, -, rfl⟩ := List.mem_map.mp member
    exact notice_uncounted entry.1 entry.2
  have placed := insertBeforeLast_spec (notices.map fun (origin, text) => notice origin text) messages
  rw [insertBeforeLastHuman]
  split at placed
  · rename_i out inserted
    obtain ⟨first, human, rest, whole, -, -, rfl⟩ := placed
    have rewrites := rewrites_insert (p := fun _ => true) countable whole (fun _ _ _ => rfl) new
    rw [List.filter_true] at rewrites
    rwa [inserted, Option.getD_some]
  · rename_i missing
    have rewrites := rewrites_insert (p := fun _ => true) countable (List.append_nil messages).symm
      (fun _ _ _ => rfl) new
    rw [List.filter_true, List.append_nil] at rewrites
    rwa [missing, Option.getD_none]

theorem rewrites_remind {transient : List String} {injections : List Injection}
    (injected : injectReminders transient injections messages = some out)
    (balanced : ∀ injection ∈ injections, Balanced injection.reminder) :
    Rewrites messages (counted messages) out := by
  obtain ⟨first, final, whole, -, -, rfl⟩ := injectReminders_spec injected
  rw [List.append_assoc]
  refine rewrites_insert countable whole (fun message _ counts => ?_) fun message member => ?_
  · simp [isTransientReminder, isSystemReminder_of_counts counts]
  · obtain ⟨injection, inside, rfl⟩ := List.mem_map.mp member
    exact ⟨rfl, balanced injection inside, rfl⟩

end Operations

/-! ## The transcript repair -/

section Repair

open SherryAgent.Source.Transcript

variable {st st' fin : Repair} {turn after : Turn} {befores afters : List Turn}

theorem human_tools (results : List ToolMessage) :
    (results.map Message.tool).filter isHuman = [] :=
  List.filter_eq_nil_iff.mpr fun message member => by
    obtain ⟨result, -, rfl⟩ := List.mem_map.mp member
    exact Bool.false_ne_true

/-- The repair takes the human messages out of a span, or leaves them alone. -/
theorem human_effect (effect : TurnEffect st st' turn after) :
    (after.clean.span.filter isHuman).Sublist (turn.span.filter isHuman) := by
  have cleaned : (after.clean.span.filter isHuman).Sublist (after.span.filter isHuman) :=
    List.filter_sublist.filter isHuman
  refine cleaned.trans ?_
  by_cases calling : turn.Calling
  · obtain ⟨results, same, -, -⟩ := effect.answered calling
    rw [same, ← List.map_append, human_tools]
    exact List.nil_sublist _
  · rw [effect.kept calling]

/-- Any other message it puts out has the id of one it was given, or none. -/
theorem other_effect (effect : TurnEffect st st' turn after) (member : message ∈ after.clean.span)
    (other : isHuman message = false) (named : bearsId message = true) :
    ∃ old ∈ turn.span, isHuman old = false ∧ messageId old = messageId message := by
  have inside : message ∈ after.span := List.mem_of_mem_filter member
  by_cases calling : turn.Calling
  · obtain ⟨results, same, -, answers⟩ := effect.answered calling
    rw [same] at inside
    rcases List.mem_append.mp inside with answer | other_result
    · obtain ⟨result, given, rfl⟩ := List.mem_map.mp answer
      rcases answers result given with old | ⟨-, name, now, made⟩
      · exact ⟨_, old, rfl, rfl⟩
      · rw [made] at named
        cases named
    · obtain ⟨result, given, rfl⟩ := List.mem_map.mp other_result
      exact ⟨_, (mem_foreign.mp given).1, rfl, rfl⟩
  · rw [effect.kept calling] at inside
    exact ⟨message, inside, other, rfl⟩

theorem human_repaired (repaired : Repaired st befores afters fin) :
    ((flatten (afters.map Turn.clean)).filter isHuman).Sublist
      ((flatten befores).filter isHuman) := by
  induction repaired with
  | nil => exact .refl _
  | cons effect rest ih =>
    rw [List.map_cons, flatten_cons, flatten_cons, List.filter_cons_of_neg Bool.false_ne_true,
      List.filter_cons_of_neg Bool.false_ne_true, List.filter_append, List.filter_append]
    exact (human_effect effect).append ih

theorem other_repaired (repaired : Repaired st befores afters fin)
    (member : message ∈ flatten (afters.map Turn.clean)) (other : isHuman message = false)
    (named : bearsId message = true) :
    ∃ old ∈ flatten befores, isHuman old = false ∧ messageId old = messageId message := by
  induction repaired with
  | nil => cases member
  | @cons st st' fin turn after befores afters effect rest ih =>
    rw [List.map_cons, flatten_cons] at member
    rw [flatten_cons]
    rcases List.mem_cons.mp member with rfl | later
    · refine ⟨.ai turn.assistant, List.mem_cons_self, rfl, ?_⟩
      change turn.assistant.id = after.assistant.id
      rw [effect.assistant, clearInvalid]
    · rcases List.mem_append.mp later with span | later
      · obtain ⟨old, inside, kind, id⟩ := other_effect effect span other named
        exact ⟨old, List.mem_cons_of_mem _ (List.mem_append_left _ inside), kind, id⟩
      · obtain ⟨old, inside, kind, id⟩ := ih later
        exact ⟨old, List.mem_cons_of_mem _ (List.mem_append_right _ inside), kind, id⟩

theorem fillMessage_same (message : Message) : isHuman (fillMessage message) = isHuman message ∧
    messageId (fillMessage message) = messageId message ∧
    (isHuman message = true → fillMessage message = message) := by
  cases message with
  | tool message =>
    refine ⟨rfl, ?_, fun human => (by cases human)⟩
    change (fillEmpty message).id = message.id
    unfold fillEmpty
    split <;> rfl
  | plain message | ai message => exact ⟨rfl, rfl, fun _ => rfl⟩

theorem human_fill (messages : List Message) :
    (messages.map fillMessage).filter isHuman = messages.filter isHuman := by
  rw [List.filter_map]
  have same : (isHuman ∘ fillMessage) = isHuman := funext fun message => (fillMessage_same message).1
  rw [same]
  refine (List.map_congr_left fun message member => ?_).trans (List.map_id _)
  exact (fillMessage_same message).2.2 (List.mem_filter.mp member).2

/-- The human messages of the repaired transcript are some of those it had; any other
message has the id of one it had, or none. -/
theorem sanitize_humans (clock : Nat → Int) (messages : List Message) :
    ((sanitizeToolUseResultPairing clock messages).filter isHuman).Sublist
        (messages.filter isHuman) ∧
      ∀ message ∈ sanitizeToolUseResultPairing clock messages, isHuman message = false →
        bearsId message = true →
          ∃ old ∈ messages, isHuman old = false ∧ messageId old = messageId message := by
  obtain ⟨afters, fin, repaired, ⟨-, sanitized⟩ | ⟨-, sanitized⟩⟩ := sanitize_spec clock messages
  · have whole : messages.map fillMessage =
        (filledTurns messages).1 ++ flatten (filledTurns messages).2 := by
      rw [← append_flatten_turns (messages.map fillMessage), turns_map_fill]
      rfl
    rw [sanitized]
    constructor
    · rw [← human_fill messages, whole, List.filter_append, List.filter_append]
      exact (List.filter_sublist.filter isHuman).append (human_repaired repaired)
    · intro message member other named
      have known : ∃ filled ∈ messages.map fillMessage, isHuman filled = false ∧
          messageId filled = messageId message := by
        rw [whole]
        rcases List.mem_append.mp member with first | later
        · exact ⟨message, List.mem_append_left _ (List.mem_of_mem_filter first), other, rfl⟩
        · obtain ⟨old, inside, kind, id⟩ := other_repaired repaired later other named
          exact ⟨old, List.mem_append_right _ inside, kind, id⟩
      obtain ⟨filled, inside, kind, id⟩ := known
      obtain ⟨old, present, rfl⟩ := List.mem_map.mp inside
      exact ⟨old, present, (fillMessage_same old).1.symm.trans kind,
        (fillMessage_same old).2.1.symm.trans id⟩
  · rw [sanitized]
    exact ⟨.refl _, fun message member other _ => ⟨message, member, other, rfl⟩⟩

end Repair

theorem counted_eq_filter_human (messages : List Message) :
    counted messages = (messages.filter isHuman).filter countsAsTurn := by
  rw [List.filter_filter, counted]
  refine List.filter_congr fun message _ => ?_
  cases counts : countsAsTurn message with
  | false => rfl
  | true => rw [isHuman_of_counts counts, Bool.and_true]

theorem rewrites_normalize (countable : Countable next messages) (clock : Nat → Int) :
    Rewrites messages (counted (sanitizeToolUseResultPairing clock messages))
      (sanitizeToolUseResultPairing clock messages) := by
  obtain ⟨humans, others⟩ := sanitize_humans clock messages
  have old : ∀ message ∈ sanitizeToolUseResultPairing clock messages, isHuman message = true →
      message ∈ messages := fun message member human =>
    (List.mem_filter.mp (humans.subset (List.mem_filter.mpr ⟨member, human⟩))).1
  refine ⟨?_, ⟨[], (List.append_nil _).symm, nofun⟩, fun message member uncounted named => ?_,
    fun message member => ?_⟩
  · rw [counted_eq_filter_human, counted_eq_filter_human messages]
    exact humans.filter countsAsTurn
  · cases human : isHuman message with
    | true => exact ⟨message, old message member human, uncounted, rfl⟩
    | false =>
      obtain ⟨before, inside, kind, id⟩ := others message member human named
      exact ⟨before, inside, countsAsTurn_of_other kind, id⟩
  · cases human : isHuman message with
    | true => exact countable.balanced message (old message member human)
    | false => exact balanced_of_other human

/-! ## The reducer -/

/-- A message that does not count, with an id that the reducer does not make. -/
structure Extra (message : Message) : Prop where
  other : isHuman message = false
  named : bearsId message = true
  foreign : ∀ k, messageId message ≠ some (uuid k)

theorem countable_upsert (countable : Countable next messages) (extra : Extra message) :
    Countable next (upsert messages message) ∧ counted (upsert messages message) = counted messages := by
  have uncounted := countsAsTurn_of_other extra.other
  have spared : ∀ other ∈ messages, countsAsTurn other = true →
      (messageId other == messageId message) = false := by
    intro other member counts
    obtain ⟨k, named⟩ := countable.generated other (mem_counted.mpr ⟨member, counts⟩)
    rw [beq_eq_false_iff_ne, named]
    exact (extra.foreign k).symm
  have same : counted (upsert messages message) = counted messages := by
    rw [upsert]
    split
    · rw [counted, List.filter_map, counted]
      have kinds : ∀ other ∈ messages, (countsAsTurn ∘ fun other =>
          if messageId other == messageId message then message else other) other =
            countsAsTurn other := by
        intro other member
        dsimp only [Function.comp_apply]
        cases counts : countsAsTurn other with
        | true => rw [spared other member counts, if_neg Bool.false_ne_true, counts]
        | false =>
          split
          · exact uncounted
          · exact counts
      rw [List.filter_congr kinds]
      refine (List.map_congr_left fun other member => ?_).trans (List.map_id _)
      obtain ⟨inside, counts⟩ := List.mem_filter.mp member
      rw [spared other inside counts]
      rfl
    · rw [counted_append, counted_eq_nil fun other member => List.mem_singleton.mp member ▸ uncounted,
        List.append_nil]
  have old : ∀ other ∈ upsert messages message, other = message ∨ other ∈ messages := by
    intro other member
    rw [upsert] at member
    split at member
    · obtain ⟨before, inside, rfl⟩ := List.mem_map.mp member
      split
      · exact .inl rfl
      · exact .inr inside
    · rcases List.mem_append.mp member with inside | new
      · exact .inr inside
      · exact .inl (List.mem_singleton.mp new)
  refine ⟨⟨fun other member => ?_, fun other member k here => ?_, fun other member => ?_,
    fun other member => ?_, by rw [same]; exact countable.distinct,
    fun other member kind counts inside => ?_⟩, same⟩
  · rcases old other member with rfl | inside
    · exact extra.named
    · exact countable.named other inside
  · rcases old other member with rfl | inside
    · exact absurd here (extra.foreign k)
    · exact countable.fresh other inside k here
  · exact countable.generated other (same ▸ member)
  · rcases old other member with rfl | inside
    · exact balanced_of_other extra.other
    · exact countable.balanced other inside
  · rw [same] at inside
    rcases old other member with rfl | present
    · obtain ⟨k, named⟩ := countable.generated counts inside
      exact fun alike => extra.foreign k (alike.trans named)
    · exact countable.apart other present kind counts inside

theorem countable_addMessages (countable : Countable next messages) {added : List Message}
    (extra : ∀ message ∈ added, Extra message) :
    Countable next (addMessages messages added) ∧
      counted (addMessages messages added) = counted messages := by
  induction added generalizing messages with
  | nil => exact ⟨countable, rfl⟩
  | cons message added ih =>
    obtain ⟨first, kept⟩ := countable_upsert countable (extra message List.mem_cons_self)
    obtain ⟨whole, same⟩ := ih first fun other member => extra other (List.mem_cons_of_mem _ member)
    exact ⟨whole, same.trans kept⟩

/-- A cut keeps what is needed to count. -/
theorem Countable.sublist (countable : Countable next messages) (sublist : out.Sublist messages) :
    Countable next out where
  named message member := countable.named message (sublist.subset member)
  fresh message member := countable.fresh message (sublist.subset member)
  generated message member := countable.generated message ((sublist.filter _).subset member)
  balanced message member := countable.balanced message (sublist.subset member)
  distinct := countable.distinct.sublist ((sublist.filter _).map _)
  apart message member kind other inside :=
    countable.apart message (sublist.subset member) kind other ((sublist.filter _).subset inside)

end SherryAgent.Contracts.Agent
