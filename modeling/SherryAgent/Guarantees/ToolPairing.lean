import SherryAgent.Contracts.Transcript.Repair

/-!
# Pairing of tool calls and results

Behind an assistant whose calls are repaired stands one result for each call id, in call
order, unless the id was answered in an earlier turn. An assistant with an error status or
invalid calls keeps what follows it; and a transcript in which the repair finds nothing to
add or to drop is returned as it came, with its results in the order they came in.

* `sanitized_paired_iff` — the transcripts the repair pairs.
* `reordered_results_stay` — two results in the wrong order, and nothing else to repair.
-/

namespace SherryAgent.Guarantees.ToolPairing

open SherryAgent.Source.Transcript SherryAgent.Contracts.Transcript

/-! ## Pairing -/

/-- The assistant is followed at once by one result for each of its call ids, in call order:
one of its span in the input, or a placeholder. No other result follows. -/
def Answered (before after : Turn) : Prop :=
  ∃ (results : List ToolMessage) (rest : List Message), after.span = results.map .tool ++ rest ∧
    results.map (·.toolCallId) = after.ids.eraseDups ∧
    (∀ result ∈ results, Answers before.span result) ∧ ∀ message ∈ rest, message.isTool = false

/-- Every assistant of the output is answered, and no result stands before the first one. -/
def Paired (before after : List Message) : Prop :=
  (∀ message ∈ (turns after).1, message.isTool = false) ∧
    List.Forall₂ Answered (filledTurns before).2 (turns after).2

/-! ## The transcripts that come out paired -/

def resultId : Message → Option String
  | .tool message => some message.toolCallId
  | _ => none

/-- The ids of the span's results in order, `none` for a message that is no result. -/
def results (turn : Turn) : List (Option String) := turn.span.map resultId

/-- Behind the assistant stand one result for each of its call ids, in call order, and then no
other result of its calls. -/
def Settled (turn : Turn) : Prop :=
  ∃ count, (results turn).filter (fun result => result.all (turn.ids.contains ·)) =
    turn.ids.eraseDups.map some ++ List.replicate count none

/-- The repair has something to clear, to drop or to add in the turn. -/
def Unmatched (turn : Turn) : Prop :=
  hasInvalid turn.assistant = true ∨ (∃ id, some id ∈ results turn ∧ id ∉ turn.ids) ∨
    turn.Calling ∧ (none ∈ results turn ∨ (∃ id ∈ turn.ids, some id ∉ results turn) ∨
      ¬turn.ids.Nodup)

/-- No call id of a repaired assistant is among `seen` or those of an earlier one. -/
def Fresh (seen : List String) (ts : List Turn) : Prop :=
  (∀ turn ∈ ts, turn.Calling → ∀ id ∈ turn.ids, id ∉ seen) ∧
    ts.Pairwise fun earlier later =>
      earlier.Calling → later.Calling → ∀ id ∈ later.ids, id ∉ earlier.ids

/-- There is an empty result, a result before the first assistant, or an unmatched turn. -/
def NeedsRepair (messages : List Message) : Prop :=
  messages.any isEmptyResult = true ∨ (∃ message ∈ (turns messages).1, message.isTool = true) ∨
    ∃ turn ∈ (turns messages).2, Unmatched turn

structure Repairable (messages : List Message) : Prop where
  identified : ∀ message ∈ messages, resultId message ≠ some ""
  distinct : Fresh [] (turns messages).2
  passed : ∀ turn ∈ (turns messages).2, passesThrough turn.assistant = true → Settled turn
  ordered : NeedsRepair messages ∨ ∀ turn ∈ (turns messages).2, turn.Calling → Settled turn

/-! ## Results and messages -/

@[simp] theorem resultId_fill (message : Message) : resultId (fillMessage message) = resultId message := by
  cases message <;> simp [resultId, fillMessage]

@[simp] theorem results_fill (turn : Turn) : results turn.fill = results turn := by
  simp [results, Turn.fill, Function.comp_def]

theorem settled_fill (turn : Turn) : Settled turn.fill ↔ Settled turn := by
  rw [Settled, Settled, results_fill]
  rfl

theorem unmatched_fill (turn : Turn) : Unmatched turn.fill ↔ Unmatched turn := by
  rw [Unmatched, Unmatched, results_fill]
  rfl

theorem isTool_eq_false {message : Message} : message.isTool = false ↔ resultId message = none := by
  cases message <;> simp [Message.isTool, resultId]

theorem mem_results {turn : Turn} {id : String} :
    some id ∈ results turn ↔ ∃ message, .tool message ∈ turn.span ∧ message.toolCallId = id := by
  rw [results, List.mem_map]
  constructor
  · rintro ⟨message, member, same⟩
    cases message with
    | tool message => exact ⟨message, member, Option.some.inj same⟩
    | _ => cases same
  · rintro ⟨message, member, rfl⟩
    exact ⟨_, member, rfl⟩

theorem none_mem_results {turn : Turn} (noAi : ∀ message ∈ turn.span, message.isAi = false) :
    none ∈ results turn ↔ ∃ message, .plain message ∈ turn.span := by
  rw [results, List.mem_map]
  constructor
  · rintro ⟨message, member, same⟩
    cases message with
    | plain message => exact ⟨message, member⟩
    | ai message => exact Bool.noConfusion (noAi _ member)
    | tool message => cases same
  · rintro ⟨message, member⟩
    exact ⟨_, member, rfl⟩

theorem hasForeign_iff {turn : Turn} :
    HasForeign turn ↔ ∃ id, some id ∈ results turn ∧ id ∉ turn.ids := by
  constructor
  · rintro ⟨message, member, unasked⟩
    exact ⟨_, mem_results.mpr ⟨message, member, rfl⟩, unasked⟩
  · rintro ⟨id, member, unasked⟩
    obtain ⟨message, inside, rfl⟩ := mem_results.mp member
    exact ⟨message, inside, unasked⟩

theorem touched_iff {turn : Turn} (noAi : ∀ message ∈ turn.span, message.isAi = false)
    (seen : List String) :
    Touched seen turn ∨ HasForeign turn ↔
      Unmatched turn ∨ turn.Calling ∧ ∃ id ∈ turn.ids, id ∈ seen := by
  have missing : ∀ id, (∀ message, .tool message ∈ turn.span → message.toolCallId ≠ id) ↔
      some id ∉ results turn := by
    intro id
    rw [mem_results]
    simp
  rw [Touched, Unmatched, hasForeign_iff, none_mem_results noAi]
  simp only [missing, and_or_left]
  constructor
  · rintro ((invalid | plain | absent | old | repeated) | alien)
    · exact .inl (.inl invalid)
    · exact .inl (.inr (.inr (.inl plain)))
    · exact .inl (.inr (.inr (.inr (.inl absent))))
    · exact .inr old
    · exact .inl (.inr (.inr (.inr (.inr repeated))))
    · exact .inl (.inr (.inl alien))
  · rintro ((invalid | alien | plain | absent | repeated) | old)
    · exact .inl (.inl invalid)
    · exact .inr alien
    · exact .inl (.inr (.inl plain))
    · exact .inl (.inr (.inr (.inl absent)))
    · exact .inl (.inr (.inr (.inr (.inr repeated))))
    · exact .inl (.inr (.inr (.inr (.inl old))))

theorem results_of_ids {span : List Message} {ids : List String}
    (same : span.map resultId = ids.map some) :
    ∃ results : List ToolMessage, span = results.map .tool ∧ results.map (·.toolCallId) = ids := by
  induction span generalizing ids with
  | nil =>
    obtain rfl : ids = [] := by simpa using same.symm
    exact ⟨[], rfl, rfl⟩
  | cons message span ih =>
    obtain ⟨id, rest, rfl, head, tail⟩ := List.map_eq_cons_iff.mp same.symm
    obtain ⟨results, rfl, rfl⟩ := ih tail.symm
    cases message with
    | tool message => exact ⟨message :: results, rfl, by rw [List.map_cons, Option.some.inj head]⟩
    | _ => cases head

/-- A span that shows its ids first is made of results for them and other messages. -/
theorem shape_iff {span : List Message} {ids : List String} :
    (∃ count, span.map resultId = ids.map some ++ List.replicate count none) ↔
      ∃ (results : List ToolMessage) (rest : List Message), span = results.map .tool ++ rest ∧
        results.map (·.toolCallId) = ids ∧ ∀ message ∈ rest, message.isTool = false := by
  constructor
  · rintro ⟨count, shape⟩
    obtain ⟨first, rest, rfl, front, back⟩ := List.map_eq_append_iff.mp shape
    obtain ⟨results, rfl, named⟩ := results_of_ids front
    refine ⟨results, rest, rfl, named, fun message member => isTool_eq_false.mpr ?_⟩
    exact (List.eq_replicate_iff.mp back).2 _ (List.mem_map_of_mem member)
  · rintro ⟨results, rest, rfl, rfl, others⟩
    refine ⟨rest.length, ?_⟩
    rw [List.map_append, List.map_map, List.map_map]
    congr 1
    refine List.eq_replicate_iff.mpr ⟨List.length_map .., fun shown member => ?_⟩
    obtain ⟨message, inside, rfl⟩ := List.mem_map.mp member
    exact isTool_eq_false.mp (others message inside)

/-! ## One turn -/

theorem answersTo_iff {ids : List String} {message : Message} (named : resultId message ≠ some "") :
    answersTo ids message = (resultId message).all (ids.contains ·) := by
  cases message with
  | tool message =>
    have nonempty : message.toolCallId ≠ "" := fun same => named (congrArg some same)
    simp [answersTo, resultId, nonempty]
  | _ => rfl

/-- What the cleanup leaves of a turn in which every result has an id. -/
theorem map_filter_answersTo {turn : Turn} (named : some "" ∉ results turn) :
    (turn.span.filter (answersTo turn.ids)).map resultId =
      (results turn).filter (fun result => result.all (turn.ids.contains ·)) := by
  rw [results, List.filter_map]
  congr 1
  refine List.filter_congr fun message member => answersTo_iff fun unnamed => ?_
  exact named (unnamed ▸ List.mem_map_of_mem member)

theorem settled_iff {turn : Turn} (named : some "" ∉ results turn) :
    Settled turn ↔ ∃ (results : List ToolMessage) (rest : List Message),
      turn.span.filter (answersTo turn.ids) = results.map .tool ++ rest ∧
        results.map (·.toolCallId) = turn.ids.eraseDups ∧
        ∀ message ∈ rest, message.isTool = false := by
  rw [← shape_iff, map_filter_answersTo named]
  rfl

section Effect

variable {st st' fin : Repair} {before after : Turn} {befores afters : List Turn}

theorem answered_idle (effect : TurnEffect st st' before after) (idle : ¬before.Calling)
    (named : some "" ∉ results before) : Answered before after.clean ↔ Settled before := by
  have span : after.clean.span = before.span.filter (answersTo before.ids) := by
    rw [Turn.clean, effect.kept idle, effect.ids]
  have ids : after.clean.ids = before.ids := effect.ids
  rw [settled_iff named, Answered, span, ids]
  refine exists₂_congr fun results rest => and_congr_right fun shape => and_congr_right fun _ => ?_
  refine and_iff_right fun result member => .inl ?_
  have inside : Message.tool result ∈ before.span.filter (answersTo before.ids) :=
    shape ▸ List.mem_append_left _ (List.mem_map_of_mem member)
  exact (List.mem_filter.mp inside).1

theorem answered_calling (effect : TurnEffect st st' before after) (calling : before.Calling)
    (named : some "" ∉ results before) :
    Answered before after.clean ↔ ∀ id ∈ before.ids, id ∉ st.seen := by
  obtain ⟨found, span, fresh, answers⟩ := effect.answered calling
  have ids : after.clean.ids = before.ids := effect.ids
  have own : ∀ result ∈ found, result.toolCallId ∈ before.ids := by
    intro result member
    have listed : result.toolCallId ∈ freshIds st.seen before.ids :=
      fresh ▸ List.mem_map_of_mem member
    exact (List.mem_filter.mp (List.mem_eraseDups.mp listed)).1
  have cleaned : after.clean.span = found.map .tool := by
    have kept : (found.map Message.tool).filter (answersTo before.ids) = found.map .tool := by
      refine List.filter_eq_self.mpr fun message member => ?_
      obtain ⟨result, inside, rfl⟩ := List.mem_map.mp member
      simp [answersTo, own result inside]
    have gone : ((foreign before.ids before.span).map Message.tool).filter
        (answersTo before.ids) = [] := by
      refine List.filter_eq_nil_iff.mpr fun message member => ?_
      obtain ⟨result, inside, rfl⟩ := List.mem_map.mp member
      obtain ⟨old, unasked⟩ := mem_foreign.mp inside
      have nonempty : result.toolCallId ≠ "" :=
        fun same => named (mem_results.mpr ⟨result, old, same⟩)
      simp [answersTo, unasked, nonempty]
    rw [Turn.clean, span, effect.ids, List.filter_append, kept, gone, List.append_nil]
  rw [← freshIds_eq_iff, ← fresh, Answered, cleaned, ids]
  constructor
  · rintro ⟨results, rest, shape, named, -, others⟩
    have none_left : rest = [] := by
      refine List.eq_nil_iff_forall_not_mem.mpr fun message member => ?_
      have inside : message ∈ found.map Message.tool := shape ▸ List.mem_append_right _ member
      obtain ⟨result, -, rfl⟩ := List.mem_map.mp inside
      exact Bool.noConfusion (others _ member)
    rw [none_left, List.append_nil] at shape
    rw [List.map_injective_iff.mpr (fun _ _ same => by cases same; rfl) shape]
    exact named
  · intro named
    exact ⟨found, [], (List.append_nil _).symm, named, answers, by simp⟩

/-- A result without an id is put out again. -/
theorem unnamed_kept (effect : TurnEffect st st' before after) {message : ToolMessage}
    (member : .tool message ∈ before.span) (unnamed : message.toolCallId = "") :
    .tool message ∈ after.clean.span := by
  refine List.mem_filter.mpr ⟨?_, by simp [answersTo, unnamed]⟩
  by_cases calling : before.Calling
  · obtain ⟨found, span, -, -⟩ := effect.answered calling
    rw [span]
    refine List.mem_append_right _ (List.mem_map_of_mem (mem_foreign.mpr ⟨member, fun asked => ?_⟩))
    exact Turn.ids_nonempty asked unnamed
  · rw [effect.kept calling]
    exact member

/-- The results of a turn that answer none of its calls reach the cleanup. -/
theorem foreign_kept (effect : TurnEffect st st' before after) {message : ToolMessage}
    (member : .tool message ∈ before.span) (unasked : message.toolCallId ∉ before.ids) :
    .tool message ∈ after.span := by
  by_cases calling : before.Calling
  · obtain ⟨found, span, -, -⟩ := effect.answered calling
    rw [span]
    exact List.mem_append_right _ (List.mem_map_of_mem (mem_foreign.mpr ⟨member, unasked⟩))
  · rw [effect.kept calling]
    exact member

theorem named_of_answered (answered : Answered before after) {message : ToolMessage}
    (member : .tool message ∈ after.span) : message.toolCallId ∈ after.ids := by
  obtain ⟨results, rest, shape, named, -, others⟩ := answered
  rw [shape] at member
  rcases List.mem_append.mp member with result | other
  · obtain ⟨own, inside, same⟩ := List.mem_map.mp result
    cases same
    exact List.mem_eraseDups.mp (named ▸ List.mem_map_of_mem inside)
  · exact Bool.noConfusion (others _ other)

/-! ## All turns -/

theorem fresh_cons (effect : TurnEffect st st' before after) :
    Fresh st.seen (before :: befores) ↔
      (before.Calling → ∀ id ∈ before.ids, id ∉ st.seen) ∧ Fresh st'.seen befores := by
  rw [Fresh, Fresh, List.forall_mem_cons, List.pairwise_cons]
  constructor
  · rintro ⟨⟨head, unseen⟩, apart, distinct⟩
    refine ⟨head, fun turn member calling id asked seen => ?_, distinct⟩
    rcases (effect.seen id).mp seen with old | ⟨called, own⟩
    · exact unseen turn member calling id asked old
    · exact apart turn member called calling id asked own
  · rintro ⟨head, unseen, distinct⟩
    refine ⟨⟨head, fun turn member calling id asked old => ?_⟩,
      fun turn member called calling id asked own => ?_, distinct⟩
    · exact unseen turn member calling id asked ((effect.seen id).mpr (.inl old))
    · exact unseen turn member calling id asked ((effect.seen id).mpr (.inr ⟨called, own⟩))

theorem answered_turns (repaired : Repaired st befores afters fin)
    (named : ∀ turn ∈ befores, some "" ∉ results turn) :
    List.Forall₂ Answered befores (afters.map Turn.clean) ↔
      Fresh st.seen befores ∧ ∀ turn ∈ befores, ¬turn.Calling → Settled turn := by
  induction repaired with
  | nil st => simp [Fresh]
  | @cons st st' fin before after befores afters effect rest ih =>
    obtain ⟨named_head, named_rest⟩ := List.forall_mem_cons.mp named
    rw [List.map_cons, List.forall₂_cons, ih named_rest, fresh_cons effect, List.forall_mem_cons]
    by_cases calling : before.Calling
    · rw [answered_calling effect calling named_head, forall_prop_of_true calling]
      exact ⟨fun ⟨unseen, fresh, settled⟩ => ⟨⟨unseen, fresh⟩, fun idle => absurd calling idle, settled⟩,
        fun ⟨⟨unseen, fresh⟩, _, settled⟩ => ⟨unseen, fresh, settled⟩⟩
    · rw [answered_idle effect calling named_head]
      exact ⟨fun ⟨head, fresh, settled⟩ =>
          ⟨⟨fun called => absurd called calling, fresh⟩, fun _ => head, settled⟩,
        fun ⟨⟨_, fresh⟩, head, settled⟩ => ⟨head calling, fresh, settled⟩⟩

theorem named_of_turns (repaired : Repaired st befores afters fin)
    (answered : List.Forall₂ Answered befores (afters.map Turn.clean)) :
    ∀ turn ∈ befores, some "" ∉ results turn := by
  induction repaired with
  | nil st => exact fun _ member => absurd member List.not_mem_nil
  | @cons st st' fin before after befores afters effect rest ih =>
    rw [List.map_cons, List.forall₂_cons] at answered
    refine List.forall_mem_cons.mpr ⟨fun unnamed => ?_, ih answered.2⟩
    obtain ⟨message, member, same⟩ := mem_results.mp unnamed
    exact Turn.ids_nonempty (named_of_answered answered.1 (unnamed_kept effect member same)) same

theorem fresh_of_unchanged (repaired : Repaired st befores afters fin)
    (unchanged : ¬fin.changed = true) : Fresh st.seen befores := by
  induction repaired with
  | nil st => simp [Fresh]
  | cons effect rest ih =>
    refine (fresh_cons effect).mpr ⟨fun calling id asked seen => unchanged ?_, ih unchanged⟩
    refine rest.changed (effect.changed.mpr (.inr (.inl (.inr ⟨calling, ?_⟩))))
    exact .inr (.inr (.inl ⟨id, asked, seen⟩))

theorem unmatched_of_changed (repaired : Repaired st befores afters fin)
    (noAi : ∀ turn ∈ befores, ∀ message ∈ turn.span, message.isAi = false)
    (fresh : Fresh st.seen befores) (changed : fin.changed = true) :
    st.changed = true ∨ ∃ turn ∈ befores, Unmatched turn := by
  induction repaired with
  | nil st => exact .inl changed
  | @cons st st' fin before after befores afters effect rest ih =>
    obtain ⟨noAi_head, noAi_rest⟩ := List.forall_mem_cons.mp noAi
    obtain ⟨unseen, fresh⟩ := (fresh_cons effect).mp fresh
    rcases ih noAi_rest fresh changed with here | ⟨turn, member, unmatched⟩
    · rcases effect.changed.mp here with old | cause
      · exact .inl old
      · have touched := cause.imp_right And.right
        rcases (touched_iff noAi_head st.seen).mp touched with unmatched | ⟨calling, id, asked, seen⟩
        · exact .inr ⟨before, List.mem_cons_self, unmatched⟩
        · exact absurd seen (unseen calling id asked)
    · exact .inr ⟨turn, List.mem_cons_of_mem _ member, unmatched⟩

/-- A foreign result of any turn is dropped. -/
theorem foreign_dropped (repaired : Repaired st befores afters fin) {turn : Turn}
    (member : turn ∈ befores) (named : some "" ∉ results turn) (alien : HasForeign turn) :
    ∃ after ∈ afters, ∃ message ∈ after.span, answersTo after.ids message = false := by
  induction repaired with
  | nil st => cases member
  | @cons st st' fin before after befores afters effect rest ih =>
    rcases List.mem_cons.mp member with rfl | later
    · obtain ⟨message, inside, unasked⟩ := alien
      have nonempty : message.toolCallId ≠ "" :=
        fun same => named (mem_results.mpr ⟨message, inside, same⟩)
      refine ⟨after, List.mem_cons_self, _, foreign_kept effect inside unasked, ?_⟩
      simp [answersTo, nonempty, effect.ids, unasked]
    · obtain ⟨other, kept, dropped⟩ := ih later
      exact ⟨other, List.mem_cons_of_mem _ kept, dropped⟩

/-- What the cleanup drops was foreign to its turn. -/
theorem foreign_of_dropped (repaired : Repaired st befores afters fin) {turn : Turn}
    (member : turn ∈ afters) {message : Message} (inside : message ∈ turn.span)
    (dropped : answersTo turn.ids message = false) : ∃ before ∈ befores, HasForeign before := by
  induction repaired with
  | nil st => cases member
  | @cons st st' fin before after befores afters effect rest ih =>
    rcases List.mem_cons.mp member with rfl | later
    · refine ⟨before, List.mem_cons_self, ?_⟩
      cases message with
      | tool message =>
        have unasked : message.toolCallId ∉ before.ids := by
          rw [effect.ids] at dropped
          simp only [answersTo, Bool.or_eq_false_iff] at dropped
          simpa using dropped.2
        refine ⟨message, ?_, unasked⟩
        by_cases calling : before.Calling
        · obtain ⟨found, span, fresh, -⟩ := effect.answered calling
          rw [span] at inside
          rcases List.mem_append.mp inside with result | left_over
          · obtain ⟨own, listed, same⟩ := List.mem_map.mp result
            cases same
            have named : message.toolCallId ∈ freshIds st.seen before.ids :=
              fresh ▸ List.mem_map_of_mem listed
            exact absurd (List.mem_filter.mp (List.mem_eraseDups.mp named)).1 unasked
          · obtain ⟨own, listed, same⟩ := List.mem_map.mp left_over
            cases same
            exact (mem_foreign.mp listed).1
        · rw [effect.kept calling] at inside
          exact inside
      | _ => cases dropped
    · obtain ⟨other, kept, alien⟩ := ih later
      exact ⟨other, List.mem_cons_of_mem _ kept, alien⟩

end Effect

/-- A turn without calls has no result to settle. -/
theorem settled_of_no_calls {turn : Turn} (none_called : turn.calls = []) : Settled turn := by
  have ids : turn.ids = [] := by rw [Turn.ids, none_called, List.map_nil]
  refine ⟨((results turn).filter fun result => result.all (turn.ids.contains ·)).length, ?_⟩
  rw [ids, List.eraseDups_nil, List.map_nil, List.nil_append, List.eq_replicate_length]
  intro result member
  cases result with
  | none => rfl
  | some id => simpa using (List.mem_filter.mp member).2

/-- A turn without foreign results answers itself exactly when it is settled. -/
theorem answered_self {turn : Turn} (named : some "" ∉ results turn) (own : ¬HasForeign turn) :
    Answered turn turn ↔ Settled turn := by
  have kept : turn.span.filter (answersTo turn.ids) = turn.span := by
    refine List.filter_eq_self.mpr fun message member => ?_
    cases message with
    | tool message =>
      have asked : message.toolCallId ∈ turn.ids := by
        by_contra unasked
        exact own ⟨message, member, unasked⟩
      simp [answersTo, asked]
    | _ => rfl
  rw [settled_iff named, kept, Answered]
  refine exists₂_congr fun results rest => and_congr_right fun shape => and_congr_right fun _ => ?_
  exact and_iff_right fun result member =>
    .inl (shape ▸ List.mem_append_left _ (List.mem_map_of_mem member))

/-! ## The whole transcript -/

section Transcript

variable {messages : List Message}

theorem filledTurns_noAi (messages : List Message) :
    (∀ message ∈ (filledTurns messages).1, message.isAi = false) ∧
      ∀ turn ∈ (filledTurns messages).2, ∀ message ∈ turn.span, message.isAi = false := by
  have noAi := turns_noAi (messages.map fillMessage)
  rw [turns_map_fill] at noAi
  exact noAi

theorem identified_iff :
    (∀ message ∈ messages, resultId message ≠ some "") ↔
      (∀ message ∈ (filledTurns messages).1, resultId message ≠ some "") ∧
        ∀ turn ∈ (filledTurns messages).2, some "" ∉ results turn := by
  have whole := append_flatten_turns messages
  have spans : (∀ turn ∈ (turns messages).2, some "" ∉ results turn) ↔
      ∀ message ∈ flatten (turns messages).2, resultId message ≠ some "" := by
    simp only [results, List.mem_map, not_exists, not_and, flatten, List.mem_flatMap, List.mem_cons]
    constructor
    · rintro each message ⟨turn, member, rfl | inside⟩
      · simp [resultId]
      · exact each turn member message inside
    · intro each turn member message inside
      exact each message ⟨turn, member, .inr inside⟩
  rw [filledTurns, List.forall_mem_map, List.forall_mem_map]
  simp only [resultId_fill, results_fill]
  rw [spans, ← List.forall_mem_append, whole]

theorem repairable_iff : Repairable messages ↔
    ((∀ message ∈ (filledTurns messages).1, resultId message ≠ some "") ∧
      ∀ turn ∈ (filledTurns messages).2, some "" ∉ results turn) ∧
    Fresh [] (filledTurns messages).2 ∧
    (∀ turn ∈ (filledTurns messages).2, passesThrough turn.assistant = true → Settled turn) ∧
    ((messages.any isEmptyResult = true ∨
        (∃ message ∈ (filledTurns messages).1, message.isTool = true) ∨
          ∃ turn ∈ (filledTurns messages).2, Unmatched turn) ∨
      ∀ turn ∈ (filledTurns messages).2, turn.Calling → Settled turn) := by
  have tool : ∀ message, (fillMessage message).isTool = message.isTool := by
    intro message
    cases message <;> rfl
  have fresh : Fresh [] (filledTurns messages).2 ↔ Fresh [] (turns messages).2 := by
    rw [Fresh, Fresh, filledTurns, List.forall_mem_map, List.pairwise_map]
    rfl
  rw [fresh, ← identified_iff, filledTurns, List.forall_mem_map, List.forall_mem_map]
  simp only [List.mem_map, exists_exists_and_eq_and, settled_fill, unmatched_fill, tool]
  exact ⟨fun repairable => ⟨repairable.identified, repairable.distinct, repairable.passed,
      repairable.ordered⟩,
    fun ⟨identified, distinct, passed, ordered⟩ => ⟨identified, distinct, passed, ordered⟩⟩

variable {afters : List Turn} {fin : Repair}

/-- With every result named and every call id fresh, the repair alters what needs repair. -/
theorem altered_iff
    (repaired : Repaired { out := (filledTurns messages).1, changed := messages.any isEmptyResult }
      (filledTurns messages).2 afters fin)
    (named : (∀ message ∈ (filledTurns messages).1, resultId message ≠ some "") ∧
      ∀ turn ∈ (filledTurns messages).2, some "" ∉ results turn)
    (fresh : Fresh [] (filledTurns messages).2) :
    Altered (filledTurns messages).1 afters fin ↔
      messages.any isEmptyResult = true ∨
        (∃ message ∈ (filledTurns messages).1, message.isTool = true) ∨
          ∃ turn ∈ (filledTurns messages).2, Unmatched turn := by
  have noAi := (filledTurns_noAi messages).2
  constructor
  · rintro (changed | ⟨message, member, dropped⟩ | ⟨turn, member, message, inside, dropped⟩)
    · exact (unmatched_of_changed repaired noAi fresh changed).imp_right .inr
    · refine .inr (.inl ⟨message, member, ?_⟩)
      cases message with
      | tool message => rfl
      | _ => cases dropped
    · obtain ⟨before, kept, alien⟩ := foreign_of_dropped repaired member inside dropped
      exact .inr (.inr ⟨before, kept, .inr (.inl (hasForeign_iff.mp alien))⟩)
  · rintro (empty | ⟨message, member, tool⟩ | ⟨turn, member, unmatched⟩)
    · exact .inl (repaired.changed empty)
    · refine .inr (.inl ⟨message, member, ?_⟩)
      have unnamed := named.1 message member
      cases message with
      | tool message => simpa [answersTo, resultId] using unnamed
      | _ => cases tool
    · rcases (touched_iff (noAi turn member) []).mpr (.inl unmatched) with touched | alien
      · refine .inl (repaired.touched member fun seen => touched.imp_right ?_)
        rintro ⟨calling, plain | missing | ⟨id, -, none_seen⟩ | repeated⟩
        · exact ⟨calling, .inl plain⟩
        · exact ⟨calling, .inr (.inl missing)⟩
        · cases none_seen
        · exact ⟨calling, .inr (.inr (.inr repeated))⟩
      · exact .inr (.inr (foreign_dropped repaired member (named.2 turn member) alien))

/-- For every transcript: the repair pairs calls and results exactly when the transcript is
`Repairable`. -/
theorem sanitized_paired_iff (clock : Nat → Int) (messages : List Message) :
    Paired messages (sanitizeToolUseResultPairing clock messages) ↔ Repairable messages := by
  obtain ⟨afters, fin, repaired, ⟨altered, sanitized⟩ | ⟨unaltered, sanitized⟩⟩ :=
    sanitize_spec clock messages
  · have noAi := filledTurns_noAi messages
    have turned : turns (sanitizeToolUseResultPairing clock messages) =
        ((filledTurns messages).1.filter (answersTo []), afters.map Turn.clean) := by
      rw [sanitized]
      refine turns_flatten (fun message member => noAi.1 message (List.mem_filter.mp member).1) ?_
      refine List.forall_mem_map.mpr fun turn member message inside => ?_
      exact repaired.noAi noAi.2 turn member message (List.mem_filter.mp inside).1
    rw [Paired, turned, repairable_iff]
    constructor
    · rintro ⟨no_tool, answered⟩
      have named_first : ∀ message ∈ (filledTurns messages).1, resultId message ≠ some "" := by
        intro message member unnamed
        have tool := no_tool message (List.mem_filter.mpr ⟨member, ?_⟩)
        · rw [isTool_eq_false.mp tool] at unnamed
          cases unnamed
        · cases message with
          | tool message => simp [answersTo, Option.some.inj unnamed]
          | _ => cases unnamed
      have named := named_of_turns repaired answered
      obtain ⟨fresh, settled⟩ := (answered_turns repaired named).mp answered
      refine ⟨⟨named_first, named⟩, fresh, fun turn member passes => settled turn member ?_,
        .inl ((altered_iff repaired ⟨named_first, named⟩ fresh).mp altered)⟩
      exact fun calling => Bool.noConfusion (passes.symm.trans calling.1)
    · rintro ⟨named, fresh, passed, -⟩
      refine ⟨fun message member => ?_, (answered_turns repaired named.2).mpr ⟨fresh, ?_⟩⟩
      · obtain ⟨old, kept⟩ := List.mem_filter.mp member
        cases message with
        | tool message => exact absurd (by simpa [answersTo] using kept) (by
            simpa [resultId] using named.1 _ old)
        | _ => rfl
      · intro turn member idle
        by_cases passes : passesThrough turn.assistant = true
        · exact passed turn member passes
        · refine settled_of_no_calls (Classical.not_not.mp fun called => idle ⟨?_, called⟩)
          exact eq_false_of_ne_true passes
  · have none_empty : messages.any isEmptyResult = false :=
      eq_false_of_ne_true fun empty => unaltered (.inl (repaired.changed empty))
    have same : filledTurns messages = turns messages := by
      have filled := turns_map_fill messages
      rw [map_fill_of_none none_empty] at filled
      exact filled.symm
    rw [sanitized, Paired, ← same, repairable_iff, List.forall₂_same]
    have own : (∀ turn ∈ (filledTurns messages).2, some "" ∉ results turn) →
        ∀ turn ∈ (filledTurns messages).2, ¬HasForeign turn := by
      intro named turn member alien
      exact unaltered (.inr (.inr (foreign_dropped repaired member (named turn member) alien)))
    have fresh := fresh_of_unchanged repaired fun changed => unaltered (.inl changed)
    constructor
    · rintro ⟨no_tool, answered⟩
      have named : ∀ turn ∈ (filledTurns messages).2, some "" ∉ results turn := by
        intro turn member unnamed
        obtain ⟨message, inside, empty⟩ := mem_results.mp unnamed
        exact Turn.ids_nonempty (named_of_answered (answered turn member) inside) empty
      have settled : ∀ turn ∈ (filledTurns messages).2, Settled turn := fun turn member =>
        (answered_self (named turn member) (own named turn member)).mp (answered turn member)
      refine ⟨⟨fun message member unnamed => ?_, named⟩, fresh,
        fun turn member _ => settled turn member, .inr fun turn member _ => settled turn member⟩
      rw [isTool_eq_false.mp (no_tool message member)] at unnamed
      cases unnamed
    · rintro ⟨named, -, passed, ordered⟩
      have quiet := (altered_iff repaired named fresh).not.mp unaltered
      have ordered := ordered.resolve_left quiet
      rw [not_or, not_or] at quiet
      refine ⟨fun message member => ?_, fun turn member => ?_⟩
      · exact eq_false_of_ne_true fun tool => quiet.2.1 ⟨message, member, tool⟩
      · refine (answered_self (named.2 turn member) (own named.2 turn member)).mpr ?_
        by_cases passes : passesThrough turn.assistant = true
        · exact passed turn member passes
        · by_cases none_called : turn.calls = []
          · exact settled_of_no_calls none_called
          · exact ordered turn member ⟨eq_false_of_ne_true passes, none_called⟩

end Transcript

/-- The ids that follow each assistant, up to the number of its calls. -/
def answeredInOrder (ts : List Turn) : Bool :=
  ts.all fun turn =>
    (results turn).take turn.ids.eraseDups.length == turn.ids.eraseDups.map some

theorem answeredInOrder_of_answered {befores afters : List Turn}
    (answered : List.Forall₂ Answered befores afters) : answeredInOrder afters = true := by
  induction answered with
  | nil => rfl
  | cons head _ ih =>
    rw [answeredInOrder, List.all_cons, Bool.and_eq_true, beq_iff_eq]
    refine ⟨?_, ih⟩
    obtain ⟨found, rest, shape, named, -, others⟩ := head
    obtain ⟨count, shown⟩ := shape_iff.mpr ⟨found, rest, shape, named, others⟩
    rw [results, shown]
    exact List.take_left' (List.length_map ..)

/-- Two calls, answered in the other order. -/
def reordered : List Message :=
  let call (id : String) : Source.Json :=
    .obj [("name", .str "read_file"), ("id", .str id), ("type", .str "tool_call")]
  [.ai { toolCalls := [call "call-1", call "call-2"] },
   .tool { content := .text "second", toolCallId := "call-2" },
   .tool { content := .text "first", toolCallId := "call-1" }]

/-- The repair returns them in that order. -/
theorem reordered_results_stay :
    ¬Paired reordered (sanitizeToolUseResultPairing (fun _ => 0) reordered) := by
  intro paired
  have in_order := answeredInOrder_of_answered paired.2
  revert in_order
  decide +kernel

end SherryAgent.Guarantees.ToolPairing
