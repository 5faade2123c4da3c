import SherryAgent.Guarantees.ToolPairing

/-!
# Repairing a repaired transcript

An assistant message with invalid calls is put out without them and without a look at its
other calls. The next repair meets it as a message whose calls are repaired: it adds the
placeholders that are missing, orders the results and drops the user messages of the span.

* `second_repair_same_iff` — the transcripts a second repair leaves as they are.
* `cleared_call_answered_later` — a call beside an invalid one gets its placeholder a repair
  later.
-/

namespace SherryAgent.Guarantees.SecondRepair

open SherryAgent.Source.Transcript SherryAgent.Contracts.Transcript
open SherryAgent.Guarantees.ToolPairing

/-! ## Two repairs -/

/-- What a message is compared by. -/
inductive Shown where
  | plain (role : PlainRole) (content : Content)
  | assistant (content : Content) (toolCalls : List Source.Json)
  | result (content : Content) (toolCallId : String)

def shown : Message → Shown
  | .plain message => .plain message.role message.content
  | .ai message => .assistant message.content message.toolCalls
  | .tool message => .result message.content message.toolCallId

/-- A second repair, made `later`, returns what it is given. -/
def Stable (now later : Nat → Int) (messages : List Message) : Prop :=
  (sanitizeToolUseResultPairing later (sanitizeToolUseResultPairing now messages)).map shown =
    (sanitizeToolUseResultPairing now messages).map shown

/-! ## The transcripts that stay -/

/-- The calls of the turn are repaired once its invalid calls are gone. -/
def Due (turn : Turn) : Prop := turn.assistant.status ≠ some "error" ∧ turn.calls ≠ []

instance : DecidablePred Due := fun _ => inferInstanceAs (Decidable (_ ∧ _))

/-- It is the second repair that looks at the calls. -/
def Postponed (turn : Turn) : Prop := Due turn ∧ hasInvalid turn.assistant = true

/-- The call ids of the turns whose calls are looked at. -/
def asked (looked : Turn → Prop) [DecidablePred looked] (earlier : List Turn) : List String :=
  (earlier.filter (looked ·)).flatMap Turn.ids

/-- The results of the turn without those that answer other calls. -/
def ownResults (turn : Turn) : List (Option String) :=
  (results turn).filter fun result => result.all fun id => id == "" || turn.ids.contains id

/-- Every turn is as it has to be behind the earlier ones. -/
def Each (holds : List Turn → Turn → Prop) : (earlier : List Turn) → List Turn → Prop
  | _, [] => True
  | earlier, turn :: later => holds earlier turn ∧ Each holds (earlier ++ [turn]) later

/-- The results of a postponed turn stand where a repair puts them: one for each call id that
was not asked before, in call order, then those without an id. A repaired turn asks no id that
only a postponed turn asked before. -/
structure InPlace (earlier : List Turn) (turn : Turn) : Prop where
  postponed : Postponed turn → ∃ count, ownResults turn =
    (freshIds (asked Due earlier) turn.ids).map some ++ List.replicate count (some "")
  repaired : turn.Calling →
    ∀ id ∈ turn.ids, id ∈ asked Due earlier → id ∈ asked Turn.Calling earlier

/-- A second repair has nothing to add to the turn and nothing to drop from it. -/
structure Quiet (earlier : List Turn) (turn : Turn) : Prop where
  complete : Postponed turn →
    none ∉ results turn ∧ ∀ id ∈ turn.ids, some id ∈ results turn
  named : some "" ∉ results turn
  distinct : turn.ids.Nodup
  fresh : ∀ id ∈ turn.ids, id ∉ asked Due earlier

/-- Every turn is in place, or the second repair finds nothing to do. -/
def Settles (messages : List Message) : Prop :=
  Each InPlace [] (turns messages).2 ∨
    Each (fun earlier turn => Due turn → Quiet earlier turn) [] (turns messages).2

/-! ## Turns and ids -/

theorem due_iff {turn : Turn} : Due turn ↔ turn.Calling ∨ Postponed turn := by
  unfold Due Postponed Turn.Calling passesThrough Due
  cases hasInvalid turn.assistant <;> simp

theorem not_postponed {turn : Turn} (calling : turn.Calling) : ¬Postponed turn := by
  intro postponed
  have looked := calling.1
  rw [passesThrough, postponed.2, Bool.or_true] at looked
  cases looked

section Asked

variable {looked : Turn → Prop} [DecidablePred looked] {earlier : List Turn} {id : String}

theorem mem_asked : id ∈ asked looked earlier ↔ ∃ turn ∈ earlier, looked turn ∧ id ∈ turn.ids := by
  simp [asked, and_assoc]

theorem mem_asked_snoc {turn : Turn} : id ∈ asked looked (earlier ++ [turn]) ↔
    id ∈ asked looked earlier ∨ looked turn ∧ id ∈ turn.ids := by
  simp [mem_asked, or_and_right, exists_or]

end Asked

theorem asked_calling_due {earlier : List Turn} {id : String}
    (member : id ∈ asked Turn.Calling earlier) : id ∈ asked Due earlier := by
  obtain ⟨turn, inside, calling, own⟩ := mem_asked.mp member
  exact mem_asked.mpr ⟨turn, inside, due_iff.mpr (.inl calling), own⟩

theorem freshIds_congr {seen seen' : List String} {ids : List String}
    (same : ∀ id ∈ ids, id ∈ seen ↔ id ∈ seen') : freshIds seen ids = freshIds seen' ids := by
  unfold freshIds
  congr 1
  exact List.filter_congr fun id member => by simp [same id member]

theorem mem_freshIds {seen ids : List String} {id : String} :
    id ∈ freshIds seen ids ↔ id ∈ ids ∧ id ∉ seen := by
  simp [freshIds]

theorem freshIds_nodup (seen ids : List String) : (freshIds seen ids).Nodup := by
  induction ids generalizing seen with
  | nil => simp [freshIds]
  | cons id ids ih =>
    by_cases old : id ∈ seen
    · rw [freshIds_cons_seen old]
      exact ih seen
    · rw [freshIds_cons_fresh old, List.nodup_cons]
      refine ⟨fun again => ?_, ih _⟩
      exact (mem_freshIds.mp again).2 (List.mem_append_right _ List.mem_cons_self)

theorem ne_empty_of_fresh {seen : List String} {turn : Turn} {id : String}
    (member : id ∈ freshIds seen turn.ids) : id ≠ "" :=
  Turn.ids_nonempty (mem_freshIds.mp member).1

theorem tool_mem_map {message : ToolMessage} {found : List ToolMessage} :
    .tool message ∈ found.map Message.tool ↔ message ∈ found := by simp

/-- Lists of results for the same ids are equal when each holds the other's results. -/
theorem eq_of_same_ids {found others : List ToolMessage}
    (ids : found.map (·.toolCallId) = others.map (·.toolCallId))
    (distinct : (others.map (·.toolCallId)).Nodup) (inside : ∀ result ∈ found, result ∈ others) :
    found = others := by
  refine List.ext_getElem (by simpa using congrArg List.length ids) fun place left right => ?_
  have member := inside _ (List.getElem_mem left)
  refine List.inj_on_of_nodup_map distinct member (List.getElem_mem right) ?_
  have at_place := congrArg (·[place]?) ids
  simpa [left, right] using at_place

/-! ## One turn, repaired -/

/-- The results stand where a repair puts them. -/
def Stands (seen : List String) (turn : Turn) : Prop :=
  ∃ count, results turn = (freshIds seen turn.ids).map some ++ List.replicate count (some "")

section Effect

variable {st st' : Repair} {before after : Turn}

theorem results_clean (turn : Turn) : results turn.clean =
    (turn.span.filter (answersTo turn.ids)).map resultId := rfl

/-- What the cleanup leaves has an own id or none. -/
theorem ownResults_eq (turn : Turn) : ownResults turn = results turn.clean := by
  rw [results_clean, ownResults, results, List.filter_map]
  congr 1
  refine List.filter_congr fun message _ => ?_
  cases message <;> rfl

theorem clean_clean (turn : Turn) : turn.clean.clean = turn.clean := by
  have again : (turn.span.filter (answersTo turn.ids)).filter (answersTo turn.ids) =
      turn.span.filter (answersTo turn.ids) := by simp
  rw [Turn.clean, Turn.clean]
  exact congrArg (Turn.mk turn.assistant) again

theorem own_of_clean {turn : Turn} (clean : turn.clean = turn) :
    ∀ message ∈ turn.span, answersTo turn.ids message = true := by
  intro message member
  rw [← clean] at member
  exact (List.mem_filter.mp member).2

/-- A cleaned repaired turn: a result for each fresh id, and the results without an id. -/
theorem span_clean (effect : TurnEffect st st' before after) (calling : before.Calling) :
    ∃ found : List ToolMessage, after.clean.span = found.map .tool ++
        ((foreign before.ids before.span).filter (·.toolCallId = "")).map .tool ∧
      found.map (·.toolCallId) = freshIds st.seen before.ids ∧
      ∀ result ∈ found, Answers before.span result := by
  obtain ⟨found, span, fresh, answers⟩ := effect.answered calling
  refine ⟨found, ?_, fresh, answers⟩
  have kept : (found.map Message.tool).filter (answersTo before.ids) = found.map .tool := by
    refine List.filter_eq_self.mpr (List.forall_mem_map.mpr fun result member => ?_)
    have listed : result.toolCallId ∈ freshIds st.seen before.ids :=
      fresh ▸ List.mem_map_of_mem member
    simp [answersTo, (mem_freshIds.mp listed).1]
  have unnamed : ((foreign before.ids before.span).map Message.tool).filter
      (answersTo before.ids) =
        ((foreign before.ids before.span).filter (·.toolCallId = "")).map .tool := by
    rw [List.filter_map]
    congr 1
    refine List.filter_congr fun result member => ?_
    by_cases unnamed : result.toolCallId = "" <;>
      simp [answersTo, (mem_foreign.mp member).2, unnamed]
  rw [Turn.clean, span, effect.ids, List.filter_append, kept, unnamed]

theorem stands_clean (effect : TurnEffect st st' before after) (calling : before.Calling) :
    Stands st.seen after.clean := by
  obtain ⟨found, span, fresh, -⟩ := span_clean effect calling
  refine ⟨((foreign before.ids before.span).filter (·.toolCallId = "")).length, ?_⟩
  have ids : after.clean.ids = before.ids := effect.ids
  rw [ids, ← fresh, results, span, List.map_append, List.map_map, List.map_map, List.map_map]
  congr 1
  refine List.eq_replicate_iff.mpr ⟨List.length_map .., List.forall_mem_map.mpr ?_⟩
  intro result member
  exact congrArg some (of_decide_eq_true (List.mem_filter.mp member).2)

theorem results_idle (effect : TurnEffect st st' before after) (idle : ¬before.Calling) :
    results after.clean = ownResults before := by
  have ids : after.clean.ids = before.ids := effect.ids
  rw [ownResults_eq, results_clean, results_clean, effect.ids, effect.kept idle]

/-- The results without an id are never dropped. -/
theorem unnamed_iff (effect : TurnEffect st st' before after) :
    some "" ∈ results after.clean ↔ some "" ∈ results before := by
  constructor
  · intro member
    by_cases calling : before.Calling
    · obtain ⟨found, span, fresh, -⟩ := span_clean effect calling
      obtain ⟨message, inside, same⟩ := mem_results.mp member
      rw [span, List.mem_append, tool_mem_map, tool_mem_map] at inside
      rcases inside with result | left_over
      · have named : message.toolCallId ∈ freshIds st.seen before.ids :=
          fresh ▸ List.mem_map_of_mem result
        exact absurd same (ne_empty_of_fresh named)
      · exact mem_results.mpr ⟨message, (mem_foreign.mp (List.mem_filter.mp left_over).1).1, same⟩
    · rw [results_idle effect calling] at member
      exact (List.mem_filter.mp member).1
  · intro member
    obtain ⟨message, inside, same⟩ := mem_results.mp member
    exact mem_results.mpr ⟨message, unnamed_kept effect inside same, same⟩

/-- The cleanup drops something from the repaired turn when the turn holds it. -/
theorem drops_iff (effect : TurnEffect st st' before after) :
    (∃ message ∈ after.span, answersTo after.ids message = false) ↔
      ∃ message ∈ before.span, answersTo before.ids message = false := by
  rw [effect.ids]
  by_cases calling : before.Calling
  · obtain ⟨found, span, fresh, -⟩ := effect.answered calling
    rw [span]
    constructor
    · rintro ⟨message, member, dropped⟩
      rcases List.mem_append.mp member with result | left_over
      · obtain ⟨own, listed, same⟩ := List.mem_map.mp result
        have named : own.toolCallId ∈ freshIds st.seen before.ids :=
          fresh ▸ List.mem_map_of_mem listed
        rw [← same] at dropped
        simp [answersTo, (mem_freshIds.mp named).1] at dropped
      · obtain ⟨own, listed, same⟩ := List.mem_map.mp left_over
        exact ⟨message, same ▸ (mem_foreign.mp listed).1, dropped⟩
    · rintro ⟨message, member, dropped⟩
      cases message with
      | tool message =>
        have unasked : message.toolCallId ∉ before.ids := by
          simp only [answersTo, Bool.or_eq_false_iff] at dropped
          simpa using dropped.2
        refine ⟨_, List.mem_append_right _ ?_, dropped⟩
        exact List.mem_map_of_mem (mem_foreign.mpr ⟨member, unasked⟩)
      | _ => cases dropped
  · rw [effect.kept calling]

end Effect

/-! ## One turn, repaired again -/

theorem foreign_append (ids : List String) (first rest : List Message) :
    foreign ids (first ++ rest) = foreign ids first ++ foreign ids rest :=
  List.filterMap_append

theorem foreign_tools (ids : List String) (found : List ToolMessage) :
    foreign ids (found.map .tool) = found.filter fun result => result.toolCallId ∉ ids := by
  induction found with
  | nil => rfl
  | cons result found ih =>
    rw [List.map_cons, List.filter_cons, ← ih]
    by_cases member : result.toolCallId ∈ ids <;> simp [foreign, member]

/-- A turn that stands and has nothing to clear or to clean. -/
structure Ready (seen : List String) (turn : Turn) : Prop where
  valid : hasInvalid turn.assistant = false
  clean : turn.clean = turn
  stands : turn.Calling → Stands seen turn

section Again

variable {rt rt' : Repair} {turn again : Turn}

/-- The results of a turn that stands are put where they are. -/
theorem span_again (effect : TurnEffect rt rt' turn again) (calling : turn.Calling)
    (stands : Stands rt.seen turn) : again.clean.span = turn.span := by
  obtain ⟨count, shape⟩ := stands
  obtain ⟨first, rest, span, front, back⟩ := List.map_eq_append_iff.mp shape
  rw [← List.map_replicate] at back
  obtain ⟨own, rfl, own_ids⟩ := results_of_ids front
  obtain ⟨unnamed, rfl, unnamed_ids⟩ := results_of_ids back
  have empty : ∀ result ∈ unnamed, result.toolCallId = "" := by
    intro result member
    have listed : result.toolCallId ∈ List.replicate count "" :=
      unnamed_ids ▸ List.mem_map_of_mem member
    exact List.eq_of_mem_replicate listed
  have left_over : (foreign turn.ids turn.span).filter (·.toolCallId = "") = unnamed := by
    have none_own : own.filter (fun result => result.toolCallId ∉ turn.ids) = [] := by
      refine List.filter_eq_nil_iff.mpr fun result member => ?_
      have listed : result.toolCallId ∈ freshIds rt.seen turn.ids :=
        own_ids ▸ List.mem_map_of_mem member
      simp [(mem_freshIds.mp listed).1]
    have all_unnamed : unnamed.filter (fun result => result.toolCallId ∉ turn.ids) = unnamed := by
      refine List.filter_eq_self.mpr fun result member => decide_eq_true fun asked => ?_
      exact Turn.ids_nonempty asked (empty result member)
    rw [span, foreign_append, foreign_tools, foreign_tools, none_own, all_unnamed, List.nil_append]
    exact List.filter_eq_self.mpr fun result member => decide_eq_true (empty result member)
  obtain ⟨found, again_span, fresh, answers⟩ := span_clean effect calling
  have same : found = own := by
    refine eq_of_same_ids (fresh.trans own_ids.symm) ?_ fun result member => ?_
    · rw [own_ids]
      exact freshIds_nodup ..
    · have listed : result.toolCallId ∈ freshIds rt.seen turn.ids :=
        fresh ▸ List.mem_map_of_mem member
      rcases answers result member with inside | ⟨missing, -⟩
      · rw [span, List.mem_append, tool_mem_map, tool_mem_map] at inside
        refine inside.resolve_right fun nameless => ?_
        exact ne_empty_of_fresh listed (empty result nameless)
      · rw [← own_ids] at listed
        obtain ⟨other, present, named⟩ := List.mem_map.mp listed
        refine absurd named (missing other ?_)
        exact span ▸ List.mem_append_left _ (List.mem_map_of_mem present)
  rw [again_span, left_over, same, span]

theorem again_eq (effect : TurnEffect rt rt' turn again) (ready : Ready rt.seen turn) :
    again.clean = turn := by
  have assistant : again.assistant = turn.assistant := by
    rw [effect.assistant, clearInvalid_of_valid ready.valid]
  have span : again.clean.span = turn.span := by
    by_cases calling : turn.Calling
    · exact span_again effect calling (ready.stands calling)
    · have kept : turn.span.filter (answersTo turn.ids) = turn.span :=
        List.filter_eq_self.mpr (own_of_clean ready.clean)
      rw [Turn.clean, effect.kept calling, effect.ids, kept]
  change Turn.mk again.assistant again.clean.span = Turn.mk turn.assistant turn.span
  rw [assistant, span]

/-- A turn that the second repair leaves as it is stood before. -/
theorem stands_of_same (effect : TurnEffect rt rt' turn again)
    (same : results again.clean = results turn) (calling : turn.Calling) :
    Stands rt.seen turn := by
  obtain ⟨count, shape⟩ := stands_clean effect calling
  have ids : again.clean.ids = turn.ids := effect.ids
  exact ⟨count, by rw [← same, shape, ids]⟩

end Again

/-! ## One turn in both repairs -/

/-- The ids seen are those that the earlier turns asked. -/
def Knows (seen : List String) (looked : Turn → Prop) [DecidablePred looked]
    (earlier : List Turn) : Prop :=
  ∀ id, id ∈ seen ↔ id ∈ asked looked earlier

/-- A turn stands behind other ids seen as long as the same of its ids are fresh. -/
theorem stands_congr {seen seen' : List String} {turn : Turn} (stands : Stands seen turn) :
    Stands seen' turn ↔ freshIds seen' turn.ids = freshIds seen turn.ids := by
  obtain ⟨count, shape⟩ := stands
  constructor
  · rintro ⟨count', shape'⟩
    have named : ∀ (ids : List String) (count : Nat), (∀ id ∈ ids, id ≠ "") →
        (ids.map some ++ List.replicate count (some "")).filter (· ≠ some "") = ids.map some := by
      intro ids count nonempty
      rw [List.filter_append, List.filter_replicate_of_neg (by simp), List.append_nil]
      refine List.filter_eq_self.mpr (List.forall_mem_map.mpr fun id member => ?_)
      simpa using nonempty id member
    have same := congrArg (List.filter (· ≠ some "")) (shape'.symm.trans shape)
    rw [named _ _ fun _ => ne_empty_of_fresh, named _ _ fun _ => ne_empty_of_fresh] at same
    exact List.map_injective_iff.mpr (fun _ _ => Option.some.inj) same
  · intro same
    exact ⟨count, by rw [shape, same]⟩

section Both

variable {st st' rt rt' : Repair} {before after again : Turn} {earlier : List Turn}

theorem calling_clean_iff (effect : TurnEffect st st' before after) :
    after.clean.Calling ↔ Due before := by
  have assistant : after.clean.assistant = clearInvalid before.assistant := effect.assistant
  rw [Turn.Calling, Turn.calls, assistant, Due, Turn.calls]
  simp [passesThrough, hasInvalid, clearInvalid, extractToolCalls]

theorem valid_clean (effect : TurnEffect st st' before after) :
    hasInvalid after.clean.assistant = false := by
  have assistant : after.clean.assistant = clearInvalid before.assistant := effect.assistant
  rw [assistant]
  rfl

theorem Knows.first (effect : TurnEffect st st' before after)
    (knows : Knows st.seen Turn.Calling earlier) :
    Knows st'.seen Turn.Calling (earlier ++ [before]) := by
  intro id
  rw [effect.seen, mem_asked_snoc, knows]

theorem Knows.second (effect : TurnEffect st st' before after)
    (repeated : TurnEffect rt rt' after.clean again) (knows : Knows rt.seen Due earlier) :
    Knows rt'.seen Due (earlier ++ [before]) := by
  intro id
  have ids : after.clean.ids = before.ids := effect.ids
  rw [repeated.seen, mem_asked_snoc, knows, calling_clean_iff effect, ids]

theorem inPlace_iff (effect : TurnEffect st st' before after)
    (first : Knows st.seen Turn.Calling earlier) (second : Knows rt.seen Due earlier) :
    InPlace earlier before ↔ (Due before → Stands rt.seen after.clean) := by
  have ids : after.clean.ids = before.ids := effect.ids
  by_cases calling : before.Calling
  · have grown : ∀ id, id ∈ st.seen → id ∈ rt.seen := fun id seen =>
      (second id).mpr (asked_calling_due ((first id).mp seen))
    rw [forall_prop_of_true (due_iff.mpr (.inl calling)),
      stands_congr (stands_clean effect calling), ids]
    constructor
    · intro placed
      refine freshIds_congr fun id member => ⟨fun seen => ?_, grown id⟩
      exact (first id).mpr (placed.repaired calling id member ((second id).mp seen))
    · intro same
      refine ⟨fun postponed => absurd postponed (not_postponed calling), fun _ id member due => ?_⟩
      by_contra unseen
      have fresh : id ∈ freshIds st.seen before.ids :=
        mem_freshIds.mpr ⟨member, fun seen => unseen ((first id).mp seen)⟩
      rw [← same] at fresh
      exact (mem_freshIds.mp fresh).2 ((second id).mpr due)
  · have fresh : freshIds rt.seen before.ids = freshIds (asked Due earlier) before.ids :=
      freshIds_congr fun id _ => second id
    rw [Stands, results_idle effect calling, ids, fresh]
    constructor
    · intro placed due
      exact placed.postponed ((due_iff.mp due).resolve_left calling)
    · intro stands
      exact ⟨fun postponed => stands postponed.1, fun called => absurd called calling⟩

theorem own_results {id : String} (effect : TurnEffect st st' before after)
    (member : some id ∈ results after.clean) (foreign_id : id ∉ before.ids) : id = "" := by
  have ids : after.clean.ids = before.ids := effect.ids
  rw [← clean_clean, ← ownResults_eq, ownResults, List.mem_filter, ids] at member
  simpa [foreign_id] using member.2

/-- What the second repair finds in a turn. -/
theorem quiet_iff (effect : TurnEffect st st' before after)
    (noAi : ∀ message ∈ after.clean.span, message.isAi = false)
    (first : Knows st.seen Turn.Calling earlier) (second : Knows rt.seen Due earlier) :
    ¬(Touched rt.seen after.clean ∨ after.clean.Calling ∧ HasForeign after.clean) ↔
      (Due before → Quiet earlier before) := by
  have ids : after.clean.ids = before.ids := effect.ids
  have valid := valid_clean effect
  by_cases due : Due before
  · have calling := (calling_clean_iff effect).mpr due
    rw [forall_prop_of_true due, and_iff_right calling, touched_iff noAi, Unmatched, valid, ids,
      and_iff_right calling, and_iff_right calling, not_or, not_or, not_or, not_or, not_or]
    constructor
    · rintro ⟨⟨-, own, no_plain, complete, distinct⟩, fresh⟩
      refine ⟨fun postponed => ?_, fun unnamed => ?_, Classical.not_not.mp distinct,
        fun id member due_before => ?_⟩
      · rw [results_idle effect fun called => not_postponed called postponed] at no_plain complete
        refine ⟨fun plain => no_plain (List.mem_filter.mpr ⟨plain, rfl⟩), fun id member => ?_⟩
        by_contra absent
        exact complete ⟨id, member, fun kept => absent (List.mem_filter.mp kept).1⟩
      · refine own ⟨"", (unnamed_iff effect).mpr unnamed, fun asked => ?_⟩
        exact Turn.ids_nonempty asked rfl
      · exact fresh ⟨id, member, (second id).mpr due_before⟩
    · intro quiet
      refine ⟨⟨Bool.false_ne_true, ?_, ?_, ?_, fun repeated => repeated quiet.distinct⟩, ?_⟩
      · rintro ⟨id, member, foreign_id⟩
        obtain rfl := own_results effect member foreign_id
        exact quiet.named ((unnamed_iff effect).mp member)
      · intro plain
        by_cases called : before.Calling
        · obtain ⟨count, shape⟩ := stands_clean effect called
          rw [shape] at plain
          simp at plain
        · have postponed := (due_iff.mp due).resolve_left called
          rw [results_idle effect called] at plain
          exact (quiet.complete postponed).1 (List.mem_filter.mp plain).1
      · rintro ⟨id, member, absent⟩
        by_cases called : before.Calling
        · obtain ⟨count, shape⟩ := stands_clean effect called
          refine absent (shape ▸ List.mem_append_left _ (List.mem_map_of_mem ?_))
          rw [ids]
          refine mem_freshIds.mpr ⟨member, fun seen => quiet.fresh id member ?_⟩
          exact asked_calling_due ((first id).mp seen)
        · have postponed := (due_iff.mp due).resolve_left called
          rw [results_idle effect called] at absent
          refine absent (List.mem_filter.mpr ⟨(quiet.complete postponed).2 id member, ?_⟩)
          simp [member]
      · rintro ⟨id, member, seen⟩
        exact quiet.fresh id member ((second id).mp seen)
  · have idle := (calling_clean_iff effect).not.mpr due
    refine iff_of_true ?_ fun called => absurd called due
    rintro ((invalid | ⟨calling, -⟩) | ⟨calling, -⟩)
    · rw [valid] at invalid
      cases invalid
    · exact idle calling
    · exact idle calling

end Both

/-! ## All turns -/

section Chains

variable {st rt fin fin' : Repair} {befores afters agains earlier : List Turn}

/-- The turns that a second repair leaves as they are were in place. -/
theorem inPlace_of_same (repaired : Repaired st befores afters fin)
    (repeated : Repaired rt (afters.map Turn.clean) agains fin')
    (first : Knows st.seen Turn.Calling earlier) (second : Knows rt.seen Due earlier)
    (same : List.Forall₂ (fun again after => results again = results after)
      (agains.map Turn.clean) (afters.map Turn.clean)) : Each InPlace earlier befores := by
  induction repaired generalizing rt agains earlier with
  | nil st => trivial
  | @cons st st' fin before after befores afters effect rest ih =>
    cases repeated with
    | @cons _ rt' _ _ again _ agains effect' rest' =>
      rw [List.map_cons, List.map_cons, List.forall₂_cons] at same
      refine ⟨(inPlace_iff effect first second).mpr fun due => ?_, ?_⟩
      · exact stands_of_same effect' same.1 ((calling_clean_iff effect).mpr due)
      · exact ih rest' (first.first effect) (second.second effect effect') same.2

/-- Turns in place come out of the second repair as they were. -/
theorem same_of_inPlace (repaired : Repaired st befores afters fin)
    (repeated : Repaired rt (afters.map Turn.clean) agains fin')
    (first : Knows st.seen Turn.Calling earlier) (second : Knows rt.seen Due earlier)
    (placed : Each InPlace earlier befores) : agains.map Turn.clean = afters.map Turn.clean := by
  induction repaired generalizing rt agains earlier with
  | nil st =>
    cases repeated
    rfl
  | @cons st st' fin before after befores afters effect rest ih =>
    cases repeated with
    | @cons _ rt' _ _ again _ agains effect' rest' =>
      have stands := (inPlace_iff effect first second).mp placed.1
      have head : again.clean = after.clean := again_eq effect'
        ⟨valid_clean effect, clean_clean after, fun calling =>
          stands ((calling_clean_iff effect).mp calling)⟩
      rw [List.map_cons, List.map_cons, head,
        ih rest' (first.first effect) (second.second effect effect') placed.2]

/-- The second repair changes something unless every turn is quiet. -/
theorem changed_iff (repaired : Repaired st befores afters fin)
    (repeated : Repaired rt (afters.map Turn.clean) agains fin')
    (noAi : ∀ turn ∈ afters.map Turn.clean, ∀ message ∈ turn.span, message.isAi = false)
    (first : Knows st.seen Turn.Calling earlier) (second : Knows rt.seen Due earlier) :
    ¬fin'.changed = true ↔ ¬rt.changed = true ∧
      Each (fun earlier turn => Due turn → Quiet earlier turn) earlier befores := by
  induction repaired generalizing rt agains earlier with
  | nil st =>
    cases repeated
    exact (and_iff_left trivial).symm
  | @cons st st' fin before after befores afters effect rest ih =>
    cases repeated with
    | @cons _ rt' _ _ again _ agains effect' rest' =>
      obtain ⟨noAi_head, noAi_rest⟩ := List.forall_mem_cons.mp noAi
      rw [ih rest' noAi_rest (first.first effect) (second.second effect effect'), effect'.changed,
        not_or, quiet_iff effect noAi_head first second, and_assoc]
      rfl

/-- The cleanup drops something when the input holds it. -/
theorem drops_turns_iff (repaired : Repaired st befores afters fin) :
    (∃ turn ∈ afters, ∃ message ∈ turn.span, answersTo turn.ids message = false) ↔
      ∃ turn ∈ befores, ∃ message ∈ turn.span, answersTo turn.ids message = false := by
  induction repaired with
  | nil st => rfl
  | cons effect rest ih =>
    rw [List.exists_mem_cons_iff, List.exists_mem_cons_iff, ih, drops_iff effect]

/-- What a repair changes does not depend on its clock. -/
theorem changed_congr {ts afters' : List Turn} (repaired : Repaired st ts afters fin)
    (other : Repaired rt ts afters' fin') (seen : ∀ id, id ∈ st.seen ↔ id ∈ rt.seen)
    (changed : st.changed = true ↔ rt.changed = true) :
    fin.changed = true ↔ fin'.changed = true := by
  induction repaired generalizing rt afters' with
  | nil st =>
    cases other
    exact changed
  | @cons st st' fin before after befores afters effect rest ih =>
    cases other with
    | @cons _ rt' _ _ after' _ afters' effect' rest' =>
      refine ih rest' (fun id => ?_) ?_
      · rw [effect.seen, effect'.seen, seen]
      · have touched : Touched st.seen before ↔ Touched rt.seen before := by
          simp only [Touched, seen]
        rw [effect.changed, effect'.changed, changed, touched]

/-- Without invalid calls, no turn is postponed. -/
theorem inPlace_of_valid (valid : ∀ turn ∈ earlier ++ befores, hasInvalid turn.assistant = false) :
    Each InPlace earlier befores := by
  induction befores generalizing earlier with
  | nil => trivial
  | cons before befores ih =>
    have none_postponed : ∀ turn ∈ earlier ++ before :: befores, ¬Postponed turn := by
      intro turn member postponed
      have cleared := valid turn member
      rw [postponed.2] at cleared
      cases cleared
    refine ⟨⟨fun postponed => ?_, fun _ id _ due => ?_⟩, ih fun turn member => ?_⟩
    · exact absurd postponed (none_postponed before (by simp))
    · obtain ⟨turn, member, called, own⟩ := mem_asked.mp due
      have calling := (due_iff.mp called).resolve_right
        (none_postponed turn (List.mem_append_left _ member))
      exact mem_asked.mpr ⟨turn, member, calling, own⟩
    · exact valid turn (by simpa using member)

end Chains

/-! ## What is compared -/

def shownId : Shown → Option String
  | .result _ toolCallId => some toolCallId
  | _ => none

theorem shownId_shown (message : Message) : shownId (shown message) = resultId message := by
  cases message <;> rfl

theorem results_eq_of_shown {turn turn' : Turn}
    (same : turn.span.map shown = turn'.span.map shown) : results turn = results turn' := by
  have ids : ∀ span : List Message, span.map resultId = (span.map shown).map shownId := by
    intro span
    rw [List.map_map]
    exact List.map_congr_left fun message _ => (shownId_shown message).symm
  rw [results, results, ids, ids, same]

/-- Transcripts that look the same have turns that look the same. -/
theorem turns_of_shown {messages messages' : List Message}
    (same : messages.map shown = messages'.map shown) :
    (turns messages).1.map shown = (turns messages').1.map shown ∧
      List.Forall₂ (fun turn turn' => turn.span.map shown = turn'.span.map shown)
        (turns messages).2 (turns messages').2 := by
  induction messages generalizing messages' with
  | nil =>
    obtain rfl : messages' = [] := by simpa using same.symm
    exact ⟨rfl, .nil⟩
  | cons message rest ih =>
    obtain ⟨message', rest', rfl, head, tail⟩ := List.map_eq_cons_iff.mp same.symm
    obtain ⟨first, later⟩ := ih tail.symm
    cases message with
    | ai message =>
      cases message' with
      | ai message' => exact ⟨rfl, .cons first later⟩
      | _ => cases head
    | plain message =>
      cases message' with
      | plain message' =>
        refine ⟨?_, later⟩
        rw [turns_plain, turns_plain, List.map_cons, List.map_cons, head, first]
      | _ => cases head
    | tool message =>
      cases message' with
      | tool message' =>
        refine ⟨?_, later⟩
        rw [turns_tool, turns_tool, List.map_cons, List.map_cons, head, first]
      | _ => cases head

/-! ## Filling and clearing -/

theorem asked_fill {looked : Turn → Prop} [DecidablePred looked]
    (fill : ∀ turn : Turn, looked turn.fill ↔ looked turn) (earlier : List Turn) :
    asked looked (earlier.map Turn.fill) = asked looked earlier := by
  induction earlier with
  | nil => rfl
  | cons turn earlier ih =>
    unfold asked at ih ⊢
    have ids : turn.fill.ids = turn.ids := rfl
    by_cases here : looked turn
    · simp [fill, here, ids, ih]
    · simp [fill, here, ih]

theorem each_map (holds : List Turn → Turn → Prop) (change : Turn → Turn)
    (same : ∀ earlier turn, holds (earlier.map change) (change turn) ↔ holds earlier turn)
    (earlier ts : List Turn) :
    Each holds (earlier.map change) (ts.map change) ↔ Each holds earlier ts := by
  induction ts generalizing earlier with
  | nil => rfl
  | cons turn ts ih =>
    have later := ih (earlier ++ [turn])
    rw [List.map_append, List.map_singleton] at later
    rw [List.map_cons, Each, Each, same, later]

theorem ownResults_fill (turn : Turn) : ownResults turn.fill = ownResults turn := by
  rw [ownResults, results_fill]
  rfl

theorem settles_iff (messages : List Message) : Settles messages ↔
    Each InPlace [] (filledTurns messages).2 ∨
      Each (fun earlier turn => Due turn → Quiet earlier turn) [] (filledTurns messages).2 := by
  have due : ∀ earlier, asked Due (earlier.map Turn.fill) = asked Due earlier :=
    asked_fill fun _ => Iff.rfl
  have calling : ∀ earlier, asked Turn.Calling (earlier.map Turn.fill) =
      asked Turn.Calling earlier := asked_fill fun _ => Iff.rfl
  have placed := each_map InPlace Turn.fill (fun earlier turn => by
    constructor
    · rintro ⟨postponed, repaired⟩
      rw [due, ownResults_fill] at postponed
      rw [due, calling] at repaired
      exact ⟨postponed, repaired⟩
    · rintro ⟨postponed, repaired⟩
      rw [← due, ← ownResults_fill] at postponed
      rw [← due, ← calling] at repaired
      exact ⟨postponed, repaired⟩) [] (turns messages).2
  have quiet := each_map (fun earlier turn => Due turn → Quiet earlier turn) Turn.fill
    (fun earlier turn => forall_congr' fun _ => by
      constructor
      · rintro ⟨complete, named, distinct, fresh⟩
        rw [results_fill] at complete named
        rw [due] at fresh
        exact ⟨complete, named, distinct, fresh⟩
      · rintro ⟨complete, named, distinct, fresh⟩
        rw [← results_fill] at complete named
        rw [← due] at fresh
        exact ⟨complete, named, distinct, fresh⟩) [] (turns messages).2
  rw [Settles, filledTurns]
  exact or_congr placed.symm quiet.symm

/-- What the repair puts out has content. -/
theorem filled_repaired {st fin : Repair} {befores afters : List Turn}
    (repaired : Repaired st befores afters fin) (filled : ∀ turn ∈ befores, Filled turn.span) :
    ∀ turn ∈ afters.map Turn.clean, Filled turn.span := by
  induction repaired with
  | nil st => exact fun _ member => absurd member List.not_mem_nil
  | @cons st st' fin before after befores afters effect rest ih =>
    obtain ⟨filled_head, filled_rest⟩ := List.forall_mem_cons.mp filled
    refine List.forall_mem_cons.mpr ⟨fun message member => ?_, ih filled_rest⟩
    have kept : .tool message ∈ after.span := (List.mem_filter.mp member).1
    by_cases calling : before.Calling
    · obtain ⟨found, span, -, answers⟩ := effect.answered calling
      rw [span, List.mem_append, tool_mem_map, tool_mem_map] at kept
      rcases kept with result | left_over
      · rcases answers message result with inside | ⟨-, name, now, placeholder⟩
        · exact filled_head message inside
        · rw [placeholder]
          rfl
      · exact filled_head message (mem_foreign.mp left_over).1
    · rw [effect.kept calling] at kept
      exact filled_head message kept

theorem none_empty_of_filled {messages : List Message} (filled : Filled messages) :
    messages.any isEmptyResult = false := by
  refine List.any_eq_false.mpr fun message member => ?_
  cases message with
  | tool message => simp [isEmptyResult, filled message member]
  | _ => exact Bool.false_ne_true

/-! ## The whole transcript -/

section Transcript

variable {messages : List Message}

theorem filledTurns_filled (messages : List Message) :
    Filled (filledTurns messages).1 ∧ ∀ turn ∈ (filledTurns messages).2, Filled turn.span := by
  have whole := append_flatten_turns (messages.map fillMessage)
  rw [turns_map_fill] at whole
  have filled := filled_map messages
  refine ⟨fun message member => ?_, fun turn member message inside => ?_⟩
  · exact filled message (whole ▸ List.mem_append_left _ member)
  · refine filled message (whole ▸ List.mem_append_right _ ?_)
    exact List.mem_flatMap.mpr ⟨turn, member, List.mem_cons_of_mem _ inside⟩

/-- A repaired transcript, put together from its turns. -/
theorem filledTurns_repaired {fin : Repair} {afters : List Turn}
    (repaired : Repaired { out := (filledTurns messages).1, changed := messages.any isEmptyResult }
      (filledTurns messages).2 afters fin) :
    let sanitized := (filledTurns messages).1.filter (answersTo []) ++ flatten (afters.map Turn.clean)
    sanitized.any isEmptyResult = false ∧ filledTurns sanitized =
      ((filledTurns messages).1.filter (answersTo []), afters.map Turn.clean) := by
  intro sanitized
  have noAi := filledTurns_noAi messages
  have filled := filledTurns_filled messages
  have filled_turns := filled_repaired repaired filled.2
  have filled_whole : Filled sanitized := by
    intro message member
    rcases List.mem_append.mp member with early | late
    · exact filled.1 message (List.mem_filter.mp early).1
    · obtain ⟨turn, listed, inside⟩ := List.mem_flatMap.mp late
      rcases List.mem_cons.mp inside with assistant | own
      · cases assistant
      · exact filled_turns turn listed message own
  have none_empty := none_empty_of_filled filled_whole
  refine ⟨none_empty, ?_⟩
  have refilled := turns_map_fill sanitized
  rw [map_fill_of_none none_empty] at refilled
  rw [filledTurns, ← refilled]
  refine turns_flatten (fun message member => noAi.1 message (List.mem_filter.mp member).1) ?_
  refine List.forall_mem_map.mpr fun turn member message inside => ?_
  exact repaired.noAi noAi.2 turn member message (List.mem_filter.mp inside).1

/-- The cleanup finds nothing to drop in what a repair put out. -/
theorem altered_again_iff {fin' rt : Repair} {afters agains : List Turn}
    (first : List Message) (repeated : Repaired rt (afters.map Turn.clean) agains fin') :
    Altered (first.filter (answersTo [])) agains fin' ↔ fin'.changed = true := by
  refine ⟨fun altered => ?_, .inl⟩
  rcases altered with changed | ⟨message, member, dropped⟩ | late
  · exact changed
  · rw [(List.mem_filter.mp member).2] at dropped
    cases dropped
  · obtain ⟨turn, member, message, inside, dropped⟩ := (drops_turns_iff repeated).mp late
    obtain ⟨after, -, rfl⟩ := List.mem_map.mp member
    rw [own_of_clean (clean_clean after) message inside] at dropped
    cases dropped

/-- A repair that alters nothing has no turn to postpone, at any time. -/
theorem unaltered_stays (later : Nat → Int) {afters : List Turn} {fin : Repair}
    (repaired : Repaired { out := (filledTurns messages).1, changed := messages.any isEmptyResult }
      (filledTurns messages).2 afters fin)
    (unaltered : ¬Altered (filledTurns messages).1 afters fin) :
    sanitizeToolUseResultPairing later messages = messages ∧
      Each InPlace [] (filledTurns messages).2 := by
  constructor
  · obtain ⟨afters', fin', other, ⟨altered, -⟩ | ⟨-, same⟩⟩ := sanitize_spec later messages
    · refine absurd (altered.imp ?_ (.imp_right ?_)) unaltered
      · exact (changed_congr other repaired (fun _ => Iff.rfl) Iff.rfl).mp
      · exact fun dropped => (drops_turns_iff repaired).mpr ((drops_turns_iff other).mp dropped)
    · exact same
  · refine inPlace_of_valid fun turn member => eq_false_of_ne_true fun invalid => ?_
    exact unaltered (.inl (repaired.touched member fun _ => .inl invalid))

theorem forall₂_results {later now : List Turn}
    (same : List.Forall₂ (fun turn turn' => turn.span.map shown = turn'.span.map shown) later now) :
    List.Forall₂ (fun turn turn' => results turn = results turn') later now :=
  same.imp fun _ _ => results_eq_of_shown

/-- For every transcript: a second repair returns it as the first one left it exactly when the
turns with invalid calls are in place behind the others, or nothing is left to repair. -/
theorem second_repair_same_iff (now later : Nat → Int) (messages : List Message) :
    Stable now later messages ↔ Settles messages := by
  rw [settles_iff, Stable]
  obtain ⟨afters, fin, repaired, ⟨altered, sanitized⟩ | ⟨unaltered, sanitized⟩⟩ :=
    sanitize_spec now messages
  · have noAi := filledTurns_noAi messages
    have noAi_first : ∀ message ∈ (filledTurns messages).1.filter (answersTo []),
        message.isAi = false := fun message member => noAi.1 message (List.mem_filter.mp member).1
    have noAi_clean : ∀ turn ∈ afters.map Turn.clean, ∀ message ∈ turn.span,
        message.isAi = false :=
      List.forall_mem_map.mpr fun turn member message inside =>
        repaired.noAi noAi.2 turn member message (List.mem_filter.mp inside).1
    obtain ⟨none_empty, parts⟩ := filledTurns_repaired repaired
    have known : Knows [] Turn.Calling [] ∧ Knows [] Due [] := ⟨fun _ => Iff.rfl, fun _ => Iff.rfl⟩
    rw [sanitized]
    obtain ⟨agains, fin', repeated, second⟩ := sanitize_spec later
      ((filledTurns messages).1.filter (answersTo []) ++ flatten (afters.map Turn.clean))
    rw [parts, none_empty] at repeated
    rw [parts, altered_again_iff _ repeated] at second
    dsimp only at repeated second
    have quiet := changed_iff repaired repeated noAi_clean known.1 known.2
    rw [and_iff_right Bool.false_ne_true] at quiet
    rcases second with ⟨changed, rebuilt⟩ | ⟨unchanged, same⟩
    · have kept : ((filledTurns messages).1.filter (answersTo [])).filter (answersTo []) =
          (filledTurns messages).1.filter (answersTo []) := by simp
      rw [rebuilt, kept, or_iff_left fun each => quiet.mpr each changed]
      constructor
      · intro same
        have turned := (turns_of_shown same).2
        rw [turns_flatten noAi_first noAi_clean, turns_flatten noAi_first] at turned
        · exact inPlace_of_same repaired repeated known.1 known.2 (forall₂_results turned)
        · refine List.forall_mem_map.mpr fun turn member message inside => ?_
          exact repeated.noAi noAi_clean turn member message (List.mem_filter.mp inside).1
      · intro placed
        rw [same_of_inPlace repaired repeated known.1 known.2 placed]
    · exact iff_of_true (by rw [same]) (.inr (quiet.mp unchanged))
  · obtain ⟨stays, placed⟩ := unaltered_stays later repaired unaltered
    rw [sanitized, stays]
    exact iff_of_true rfl (.inl placed)

end Transcript

/-- A call beside one whose arguments could not be parsed, and no result of it. -/
def halfInvalid : List Message :=
  [.ai {
    toolCalls := [.obj [("name", .str "read_file"), ("id", .str "call-1"), ("type", .str "tool_call")]]
    invalidToolCalls := [.obj [("name", .str "terminal"), ("id", .str "call-2")]] }]

/-- The first repair clears the invalid call, the second one adds a placeholder. -/
theorem cleared_call_answered_later : ¬Stable (fun _ => 0) (fun _ => 1) halfInvalid := by
  intro same
  have lengths := congrArg List.length same
  revert lengths
  decide +kernel

end SherryAgent.Guarantees.SecondRepair
