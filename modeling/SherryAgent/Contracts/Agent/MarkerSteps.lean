import SherryAgent.Contracts.Agent.Markers

/-!
# What the operations on a checkpoint do to its markers

Each operation on the message list keeps the markers in their places; those that take
messages out do so when they leave the number of human messages before a marker alone.
-/

namespace SherryAgent.Contracts.Agent

open SherryAgent.Source.Agent SherryAgent.Source.Transcript SherryAgent.Contracts.Transcript

variable {thread : String} {tail tail' : Prop} {before : Nat} {first rest messages : List Message}
  {message : Message} {n : Nat}

/-! ## Messages that are written again -/

/-- The message with other contents. -/
structure Alike (thread : String) (old new : Message) : Prop where
  human : isHuman new = isHuman old
  input : isInput new = isInput old
  tool : new.isTool = old.isTool
  ai : new.isAi = old.isAi
  reminder : isSystemReminder old = false → isSystemReminder new = false
  callless : ∀ assistant, old = .ai assistant → assistant.toolCalls = [] →
    ∃ assistant', new = .ai assistant' ∧ assistant'.toolCalls = []
  marker : ∀ n, IsMarker thread n new ↔ IsMarker thread n old
  placeholder : ∀ n, IsPlaceholder thread n new ↔ IsPlaceholder thread n old

theorem Alike.refl (message : Message) : Alike thread message message :=
  ⟨rfl, rfl, rfl, rfl, id, fun assistant same empty => ⟨assistant, same, empty⟩, fun _ => Iff.rfl,
    fun _ => Iff.rfl⟩

theorem alike_spans {olds news : List Message} (alike : List.Forall₂ (Alike thread) olds news) :
    List.Forall₂ (Alike thread) (opening olds) (opening news) ∧
      Option.Rel (fun old new => Alike thread (.ai old) (.ai new)) (nextAi olds) (nextAi news) := by
  induction alike with
  | nil => exact ⟨.nil, .none⟩
  | @cons old new olds news same later ih =>
    cases old with
    | ai old =>
      cases new with
      | ai new => exact ⟨.nil, .some same⟩
      | plain new | tool new => cases same.ai
    | plain old | tool old =>
      have noAi : new.isAi = false := same.ai
      rw [opening_cons noAi, nextAi_cons noAi]
      exact ⟨.cons same ih.1, ih.2⟩

theorem humanCount_alike {olds news : List Message}
    (alike : List.Forall₂ (Alike thread) olds news) : humanCount news = humanCount olds := by
  induction alike with
  | nil => rfl
  | @cons old new olds news same later ih =>
    rw [humanCount_cons new, humanCount_cons old, ih]
    simp [humanCount, same.human]

theorem Coherent.congr {olds news : List Message} (coherent : Coherent thread tail before olds)
    (alike : List.Forall₂ (Alike thread) olds news) : Coherent thread tail before news := by
  induction alike generalizing before with
  | nil => trivial
  | @cons old new olds news same later ih =>
    have spans := alike_spans later
    have number : humanCount [new] = humanCount [old] := humanCount_alike (.cons same .nil)
    refine ⟨⟨fun n marker => coherent.1.number n ((same.marker n).mp marker), fun n marker => ?_,
      fun n marker => ?_, fun n placeholder => ?_, fun n placeholder => ?_⟩, ?_⟩
    · obtain ⟨ordinary, assistant, is_ai, empty⟩ :=
        coherent.1.callless n ((same.marker n).mp marker)
      exact ⟨same.reminder ordinary, same.callless assistant is_ai empty⟩
    · refine (coherent.1.followed n ((same.marker n).mp marker)).imp ?_ fun next => ?_
      · rintro ⟨input, member, asked⟩
        obtain ⟨i, inside, rfl⟩ := List.mem_iff_getElem.mp member
        have bound : i < (opening news).length := spans.1.length_eq ▸ inside
        exact ⟨_, List.getElem_mem bound, ((spans.1.get inside bound).input).trans asked⟩
      · revert next
        generalize nextAi olds = next, nextAi news = next' at spans
        cases spans.2 with
        | none => exact id
        | some alike => exact fun ⟨n, marker⟩ => ⟨n, (alike.marker n).mpr marker⟩
    · exact same.tool.trans (coherent.1.tool n ((same.placeholder n).mp placeholder))
    · obtain ⟨quiet, next, found, marker⟩ :=
        coherent.1.closing n ((same.placeholder n).mp placeholder)
      refine ⟨(humanCount_alike spans.1).trans quiet, ?_⟩
      have related := spans.2
      rw [found] at related
      generalize nextAi news = next' at related
      cases related with
      | some alike => exact ⟨_, rfl, (alike.marker n).mpr marker⟩
    · rw [number]
      exact ih coherent.2

/-! ## Messages taken out and put in -/

theorem opening_filter {p : Message → Bool} (member : message ∈ opening messages)
    (kept : p message = true) : message ∈ opening (messages.filter p) := by
  induction messages with
  | nil => cases member
  | cons head rest ih =>
    cases head with
    | ai head => cases member
    | plain head | tool head =>
      rw [opening_cons rfl] at member
      rw [List.filter_cons]
      split
      · rw [opening_cons rfl]
        rcases List.mem_cons.mp member with rfl | later
        · exact List.mem_cons_self
        · exact List.mem_cons_of_mem _ (ih later)
      · rename_i gone
        rcases List.mem_cons.mp member with rfl | later
        · exact absurd kept gone
        · exact ih later

/-- The next assistant is not taken out. -/
theorem filter_of_nextAi {p : Message → Bool} {assistant : AiMessage}
    (next : nextAi messages = some assistant) (kept : p (.ai assistant) = true) :
    opening (messages.filter p) = (opening messages).filter p ∧
      nextAi (messages.filter p) = some assistant := by
  induction messages with
  | nil => cases next
  | cons head rest ih =>
    cases head with
    | ai head =>
      cases next
      rw [List.filter_cons_of_pos kept]
      exact ⟨rfl, rfl⟩
    | plain head | tool head =>
      have later := ih next
      rw [opening_cons rfl, List.filter_cons, List.filter_cons]
      split
      · rw [opening_cons rfl, nextAi_cons rfl]
        exact ⟨congrArg _ later.1, later.2⟩
      · exact later

theorem humanCount_filter_le (p : Message → Bool) (messages : List Message) :
    humanCount (messages.filter p) ≤ humanCount messages :=
  List.filter_sublist.countP_le

theorem Placed.filter {p : Message → Bool} (placed : Placed thread tail before message rest)
    (kept : ∀ other ∈ rest, isInput other = true ∨ (∃ n, IsMarker thread n other) → p other = true) :
    Placed thread tail before message (rest.filter p) := by
  refine ⟨placed.number, placed.callless, fun n marker => ?_, placed.tool, fun n placeholder => ?_⟩
  · rcases placed.followed n marker with ⟨input, member, asked⟩ | next
    · exact .inl ⟨input,
        opening_filter member (kept input (opening_subset input member) (.inl asked)), asked⟩
    · refine .inr ?_
      cases found : nextAi rest with
      | some assistant =>
        rw [found] at next
        rw [(filter_of_nextAi found (kept _ (nextAi_mem found) (.inr next))).2]
        exact next
      | none =>
        rw [found] at next
        have none_left : nextAi (rest.filter p) = none := nextAi_eq_none.mpr fun other member =>
          nextAi_eq_none.mp found other (List.mem_of_mem_filter member)
        rw [none_left]
        exact next
  · obtain ⟨quiet, assistant, found, marker⟩ := placed.closing n placeholder
    have same := filter_of_nextAi found (kept _ (nextAi_mem found) (.inr ⟨n, marker⟩))
    have fewer := humanCount_filter_le p (opening rest)
    exact ⟨by rw [same.1]; omega, assistant, same.2, marker⟩

/-- Messages are taken out, no human one of them before a marker. -/
theorem Coherent.filter {p : Message → Bool} (coherent : Coherent thread tail before messages)
    (kept : ∀ message ∈ messages, isInput message = true ∨ (∃ n, IsMarker thread n message) →
      p message = true)
    (spared : messages.Pairwise fun message later => p message = false → isHuman message = true →
      ∀ n, ¬IsMarker thread n later) :
    Coherent thread tail before (messages.filter p) := by
  induction messages generalizing before with
  | nil => trivial
  | cons message rest ih =>
    have kept_rest := fun other member => kept other (List.mem_cons_of_mem message member)
    obtain ⟨here, later⟩ := List.pairwise_cons.mp spared
    have filtered := ih coherent.2 kept_rest later
    cases stays : p message with
    | true =>
      rw [List.filter_cons_of_pos stays]
      exact ⟨coherent.1.filter kept_rest, filtered⟩
    | false =>
      rw [List.filter_cons_of_neg (by simp [stays])]
      refine filtered.renumber fun ⟨marker, member, n, marked⟩ => ?_
      have inside := List.mem_of_mem_filter member
      have quiet : isHuman message = false := by
        by_contra human
        exact here marker inside stays (by simpa using human) n marked
      simp [humanCount, quiet]

theorem Placed.insert {added : List Message}
    (placed : Placed thread tail before message (first ++ rest))
    (unmarked : ∀ message ∈ rest, ∀ n, ¬IsMarker thread n message) (noAi : nextAi added = none) :
    Placed thread tail before message (first ++ (added ++ rest)) := by
  refine ⟨placed.number, placed.callless, fun n marker => ?_, placed.tool, fun n placeholder => ?_⟩
  · have followed := placed.followed n marker
    cases next : nextAi first with
    | some assistant =>
      have old := append_of_nextAi_some rest next
      have new := append_of_nextAi_some (added ++ rest) next
      rw [Followed, old.1, old.2] at followed
      rw [Followed, new.1, new.2]
      exact followed
    | none =>
      have old := append_of_nextAi rest next
      have new := append_of_nextAi (added ++ rest) next
      have inner := append_of_nextAi rest noAi
      rw [Followed, old.1, old.2] at followed
      rw [Followed, new.1, new.2, inner.1, inner.2]
      rcases followed with answered | ended
      · obtain ⟨input, member, asked⟩ := answered
        refine .inl ⟨input, ?_, asked⟩
        simp only [List.mem_append] at member ⊢
        exact member.imp id .inr
      · exact .inr ended
  · obtain ⟨quiet, assistant, found, marker⟩ := placed.closing n placeholder
    cases next : nextAi first with
    | some other =>
      have old := append_of_nextAi_some rest next
      have new := append_of_nextAi_some (added ++ rest) next
      rw [old.1] at quiet
      rw [old.2] at found
      exact ⟨by rw [new.1, quiet], assistant, new.2.trans found, marker⟩
    | none =>
      rw [(append_of_nextAi _ next).2] at found
      exact absurd marker (unmarked _ (nextAi_mem found) n)

/-- Messages that are no assistants are put in where no marker follows. -/
theorem Coherent.insert {added : List Message}
    (coherent : Coherent thread tail before (first ++ rest))
    (unmarked : ∀ message ∈ rest, ∀ n, ¬IsMarker thread n message)
    (ordinary : ∀ message ∈ added, Ordinary thread message) (noAi : nextAi added = none) :
    Coherent thread tail before (first ++ (added ++ rest)) := by
  induction first generalizing before with
  | nil =>
    rw [List.nil_append] at coherent ⊢
    refine coherent_of_ordinary fun message member => ?_
    rcases List.mem_append.mp member with new | old
    · exact ordinary message new
    · exact coherent.ordinary unmarked message old
  | cons message first ih => exact ⟨coherent.1.insert unmarked noAi, ih coherent.2⟩

theorem Placed.cut {later : Message} (placed : Placed thread tail before message (first ++ later :: rest))
    (human : isHuman later = true) : Placed thread True before message first := by
  refine ⟨placed.number, placed.callless, fun n marker => ?_, placed.tool, fun n placeholder => ?_⟩
  · have followed := placed.followed n marker
    cases next : nextAi first with
    | some assistant =>
      have same := append_of_nextAi_some (later :: rest) next
      rw [Followed, same.1, same.2] at followed
      rw [Followed, next]
      exact followed
    | none =>
      rw [Followed, next]
      exact .inr trivial
  · obtain ⟨quiet, assistant, found, marker⟩ := placed.closing n placeholder
    cases next : nextAi first with
    | some other =>
      have same := append_of_nextAi_some (later :: rest) next
      rw [same.1] at quiet
      rw [same.2] at found
      exact ⟨quiet, assistant, found, marker⟩
    | none =>
      have noAi : later.isAi = false := by
        cases later with
        | ai later => cases human
        | _ => rfl
      rw [(append_of_nextAi _ next).1, opening_cons noAi] at quiet
      have present : 0 < humanCount (first ++ later :: opening rest) :=
        humanCount_pos (List.mem_append_right first List.mem_cons_self) human
      omega

/-- The list is cut before a human message. -/
theorem Coherent.cut (coherent : Coherent thread tail before (first ++ message :: rest))
    (human : isHuman message = true) : Coherent thread True before first := by
  induction first generalizing before with
  | nil => trivial
  | cons head first ih => exact ⟨coherent.1.cut human, ih coherent.2⟩

/-! ## The transcript repair -/

/-- Messages that stand before the assistant `next`. -/
structure Spanned (thread : String) (span : List Message) (next : Option AiMessage) : Prop where
  unmarked : ∀ message ∈ span, ∀ n, ¬IsMarker thread n message
  tool : ∀ message ∈ span, ∀ n, IsPlaceholder thread n message → message.isTool = true
  quiet : ∀ first message after n, span = first ++ message :: after →
    IsPlaceholder thread n message → humanCount after = 0
  closes : ∀ message ∈ span, ∀ n, IsPlaceholder thread n message →
    ∃ assistant, next = some assistant ∧ IsMarker thread n (.ai assistant)

theorem coherent_span_iff {span : List Message} (noAi : nextAi span = none)
    (starts : opening rest = []) :
    Coherent thread tail before (span ++ rest) ↔
      Spanned thread span (nextAi rest) ∧
        Coherent thread tail (before + humanCount span) rest := by
  constructor
  · intro coherent
    have placed : ∀ first message after, span = first ++ message :: after →
        Placed thread tail (before + humanCount first) message (after ++ rest) := by
      rintro first message after rfl
      rw [List.append_assoc] at coherent
      exact coherent.at
    refine ⟨⟨fun message member n marker => ?_, fun message member n placeholder => ?_,
      fun first message after n same placeholder => ?_, fun message member n placeholder => ?_⟩,
      coherent.right⟩
    · obtain ⟨first, after, same⟩ := List.append_of_mem member
      obtain ⟨-, assistant, is_ai, -⟩ := (placed first message after same).callless n marker
      have none_here := nextAi_eq_none.mp noAi message member
      rw [is_ai] at none_here
      cases none_here
    · obtain ⟨first, after, same⟩ := List.append_of_mem member
      exact (placed first message after same).tool n placeholder
    · have later : nextAi after = none := nextAi_eq_none.mpr fun other member =>
        nextAi_eq_none.mp noAi other (same ▸ List.mem_append_right _ (List.mem_cons_of_mem _ member))
      have quiet := ((placed first message after same).closing n placeholder).1
      rwa [(append_of_nextAi _ later).1, starts, List.append_nil] at quiet
    · obtain ⟨first, after, same⟩ := List.append_of_mem member
      have later : nextAi after = none := nextAi_eq_none.mpr fun other member =>
        nextAi_eq_none.mp noAi other (same ▸ List.mem_append_right _ (List.mem_cons_of_mem _ member))
      have next := ((placed first message after same).closing n placeholder).2
      rwa [(append_of_nextAi _ later).2] at next
  · rintro ⟨spanned, coherent⟩
    induction span generalizing before with
    | nil => exact coherent
    | cons message span ih =>
      have later : nextAi span = none := nextAi_eq_none.mpr fun other member =>
        nextAi_eq_none.mp noAi other (List.mem_cons_of_mem _ member)
      rw [humanCount_cons, ← Nat.add_assoc] at coherent
      refine ⟨⟨fun n marker => absurd marker (spanned.unmarked _ List.mem_cons_self n),
        fun n marker => absurd marker (spanned.unmarked _ List.mem_cons_self n),
        fun n marker => absurd marker (spanned.unmarked _ List.mem_cons_self n),
        spanned.tool _ List.mem_cons_self, fun n placeholder => ?_⟩, ih later ⟨?_, ?_, ?_, ?_⟩ coherent⟩
      · have same := append_of_nextAi rest later
        have quiet := spanned.quiet [] message span n rfl placeholder
        refine ⟨?_, ?_⟩
        · change humanCount (opening (span ++ rest)) = 0
          rw [same.1, starts, List.append_nil, quiet]
        · change ∃ next, nextAi (span ++ rest) = some next ∧ IsMarker thread n (.ai next)
          rw [same.2]
          exact spanned.closes message List.mem_cons_self n placeholder
      · exact fun other member => spanned.unmarked other (List.mem_cons_of_mem _ member)
      · exact fun other member => spanned.tool other (List.mem_cons_of_mem _ member)
      · exact fun first other after n same =>
          spanned.quiet (message :: first) other after n (congrArg _ same)
      · exact fun other member => spanned.closes other (List.mem_cons_of_mem _ member)

theorem answersTo_of_other {ids : List String} (other : message.isTool = false) :
    answersTo ids message = true := by
  cases message with
  | tool message => cases other
  | _ => rfl

theorem isTool_of_human (human : isHuman message = true) : message.isTool = false := by
  cases message with
  | plain message => rfl
  | _ => cases human

theorem humanCount_clean (ids : List String) (span : List Message) :
    humanCount (span.filter (answersTo ids)) = humanCount span := by
  rw [humanCount, humanCount, List.countP_filter]
  refine List.countP_congr fun message _ => ?_
  cases human : isHuman message with
  | false => simp
  | true => simp [answersTo_of_other (isTool_of_human human)]

theorem humanCount_tools (results : List ToolMessage) : humanCount (results.map .tool) = 0 := by
  simp [humanCount, List.countP_map, Function.comp_def, isHuman]

/-- Of the messages before an assistant some results are dropped. -/
theorem Spanned.clean {span : List Message} {next : Option AiMessage}
    (spanned : Spanned thread span next) (ids : List String) :
    Spanned thread (span.filter (answersTo ids)) next where
  unmarked message member := spanned.unmarked message (List.mem_of_mem_filter member)
  tool message member := spanned.tool message (List.mem_of_mem_filter member)
  quiet first message after n same placeholder := by
    obtain ⟨kept, others, rfl, -, later⟩ := List.filter_eq_append_iff.mp same
    obtain ⟨gone, left, rfl, -, -, rfl⟩ := List.filter_eq_cons_iff.mp later
    rw [humanCount_clean]
    exact spanned.quiet (kept ++ gone) message left n (by simp) placeholder
  closes message member := spanned.closes message (List.mem_of_mem_filter member)

theorem opening_flatten (ts : List Turn) : opening (flatten ts) = [] := by
  cases ts <;> rfl

/-- A human message the repair would drop stands before no marker. -/
def Spares (thread : String) (turn later : Turn) : Prop :=
  turn.Calling → (∃ message ∈ turn.span, isHuman message = true) →
    ∀ n, ¬IsMarker thread n (.ai later.assistant)

section Repaired

variable {st st' fin : Repair} {turn after : Turn} {befores afters : List Turn}

theorem Spanned.cleared {span : List Message} {next : Option AiMessage}
    (spanned : Spanned thread span next) : Spanned thread span (next.map clearInvalid) :=
  { spanned with
    closes := fun message member n placeholder => by
      obtain ⟨assistant, found, marker⟩ := spanned.closes message member n placeholder
      exact ⟨clearInvalid assistant, by rw [found]; rfl, marker⟩ }

/-- What the repair puts out for a turn's span. -/
theorem spanned_effect (effect : TurnEffect st st' turn after) {next : Option AiMessage}
    (spanned : Spanned thread turn.span next) : Spanned thread after.clean.span next := by
  refine Spanned.clean ?_ after.ids
  by_cases calling : turn.Calling
  · obtain ⟨results, same, -, answers⟩ := effect.answered calling
    rw [same, ← List.map_append]
    have known : ∀ result ∈ results ++ foreign turn.ids turn.span,
        .tool result ∈ turn.span ∨ Ordinary thread (.tool result) := by
      intro result member
      rcases List.mem_append.mp member with answer | other
      · rcases answers result answer with old | ⟨-, name, now, made⟩
        · exact .inl old
        · refine .inr fun n => ?_
          rw [made]
          exact ⟨fun marker => (by cases marker), fun ⟨call, named⟩ => (by cases named)⟩
      · exact .inl (mem_foreign.mp other).1
    refine ⟨fun message member n marker => ?_, fun message member n _ => ?_,
      fun first message later n whole _ => ?_, fun message member n placeholder => ?_⟩
    · obtain ⟨result, inside, rfl⟩ := List.mem_map.mp member
      rcases known result inside with old | ordinary
      · exact spanned.unmarked _ old n marker
      · exact (ordinary n).1 marker
    · obtain ⟨result, -, rfl⟩ := List.mem_map.mp member
      rfl
    · have none_human := humanCount_tools (results ++ foreign turn.ids turn.span)
      rw [whole, humanCount_append, humanCount_cons] at none_human
      omega
    · obtain ⟨result, inside, rfl⟩ := List.mem_map.mp member
      rcases known result inside with old | ordinary
      · exact spanned.closes _ old n placeholder
      · exact absurd placeholder (ordinary n).2
  · rw [effect.kept calling]
    exact spanned

theorem humanCount_effect (effect : TurnEffect st st' turn after) :
    humanCount after.clean.span = if turn.Calling then 0 else humanCount turn.span := by
  rw [Turn.clean, humanCount_clean]
  split
  · rename_i calling
    obtain ⟨results, same, -, -⟩ := effect.answered calling
    rw [same, ← List.map_append, humanCount_tools]
  · rename_i idle
    rw [effect.kept idle]

theorem nextAi_repaired (repaired : Repaired st befores afters fin) :
    nextAi (flatten (afters.map Turn.clean)) = (nextAi (flatten befores)).map clearInvalid := by
  cases repaired with
  | nil => rfl
  | cons effect rest => exact congrArg some effect.assistant

theorem mem_flatten_marker (noAi : ∀ turn ∈ befores, ∀ message ∈ turn.span, message.isAi = false)
    (coherent : Coherent thread tail before (flatten befores)) (member : message ∈ flatten befores)
    (marker : IsMarker thread n message) :
    ∃ turn ∈ befores, IsMarker thread n (.ai turn.assistant) := by
  obtain ⟨first, rest, same⟩ := List.append_of_mem member
  obtain ⟨-, assistant, rfl, -⟩ := (same ▸ coherent).at.callless n marker
  obtain ⟨turn, inside, here⟩ := List.mem_flatMap.mp member
  rcases List.mem_cons.mp here with head | span
  · exact ⟨turn, inside, head ▸ marker⟩
  · exact Bool.noConfusion (noAi turn inside _ span)

/-- A marker makes no calls, so its turn keeps what was put in behind it. -/
theorem Followed.repaired (effect : TurnEffect st st' turn after)
    (repaired : Repaired st' befores afters fin) (noAi : nextAi turn.span = none)
    (callless : turn.assistant.toolCalls = [])
    (followed : Followed thread tail (turn.span ++ flatten befores)) :
    Followed thread tail (after.clean.span ++ flatten (afters.map Turn.clean)) := by
  have idle : ¬turn.Calling := fun calling =>
    calling.2 (by rw [Turn.calls, extractToolCalls, callless, List.filterMap_nil])
  have span : after.clean.span = turn.span.filter (answersTo after.ids) := by
    rw [Turn.clean, effect.kept idle]
  have noAi_after : nextAi after.clean.span = none := nextAi_eq_none.mpr fun message member =>
    nextAi_eq_none.mp noAi message (List.mem_of_mem_filter (span ▸ member))
  have old := append_of_nextAi (flatten befores) noAi
  have new := append_of_nextAi (flatten (afters.map Turn.clean)) noAi_after
  rw [Followed, old.1, old.2, opening_flatten, List.append_nil] at followed
  rw [Followed, new.1, new.2, opening_flatten, List.append_nil, nextAi_repaired repaired]
  rcases followed with ⟨input, member, asked⟩ | next
  · refine .inl ⟨input, ?_, asked⟩
    rw [isInput, Bool.and_eq_true] at asked
    rw [span]
    exact List.mem_filter.mpr ⟨member, answersTo_of_other (isTool_of_human asked.1)⟩
  · refine .inr ?_
    cases found : nextAi (flatten befores) with
    | none => rwa [found] at next
    | some assistant =>
      rw [found] at next
      exact next

theorem coherent_repaired (repaired : Repaired st befores afters fin)
    (noAi : ∀ turn ∈ befores, ∀ message ∈ turn.span, message.isAi = false)
    (coherent : Coherent thread tail before (flatten befores))
    (spared : befores.Pairwise (Spares thread)) :
    Coherent thread tail before (flatten (afters.map Turn.clean)) := by
  induction repaired generalizing before with
  | nil st => trivial
  | @cons st st' fin turn after befores afters effect repaired ih =>
    obtain ⟨here, later⟩ := List.pairwise_cons.mp spared
    have noAi_later := fun other member => noAi other (List.mem_cons_of_mem turn member)
    have noAi_here : nextAi turn.span = none := nextAi_eq_none.mpr (noAi turn List.mem_cons_self)
    rw [flatten_cons] at coherent
    obtain ⟨placed, coherent⟩ := coherent
    obtain ⟨spanned, coherent⟩ := (coherent_span_iff noAi_here (opening_flatten _)).mp coherent
    have no_human : humanCount [Message.ai turn.assistant] = 0 := rfl
    have count := humanCount_effect effect
    have renumbered : Coherent thread tail (before + humanCount after.clean.span)
        (flatten befores) := by
      refine coherent.renumber fun ⟨message, member, n, marker⟩ => ?_
      obtain ⟨other, inside, marker⟩ := mem_flatten_marker noAi_later coherent member marker
      rw [no_human, count, Nat.add_zero]
      split
      · rename_i calling
        have none_human : humanCount turn.span = 0 := by
          rw [humanCount, List.countP_eq_zero]
          exact fun message span human => here other inside calling ⟨message, span, human⟩ n marker
        rw [none_human]
      · rfl
    rw [List.map_cons, flatten_cons]
    have id_same : ∀ n, IsMarker thread n (.ai after.clean.assistant) ↔
        IsMarker thread n (.ai turn.assistant) := by
      intro n
      rw [Turn.clean, effect.assistant]
      exact Iff.rfl
    refine ⟨⟨fun n marker => placed.number n ((id_same n).mp marker), fun n marker => ?_,
      fun n marker => ?_, fun n placeholder => ?_, fun n placeholder => ?_⟩, ?_⟩
    · obtain ⟨unprompted, assistant, same, empty⟩ := placed.callless n ((id_same n).mp marker)
      cases same
      rw [Turn.clean, effect.assistant]
      exact ⟨unprompted, _, rfl, empty⟩
    · have marker := (id_same n).mp marker
      obtain ⟨-, assistant, same, empty⟩ := placed.callless n marker
      cases same
      exact (placed.followed n marker).repaired effect repaired noAi_here empty
    · rw [Turn.clean, effect.assistant] at placeholder
      cases placed.tool n placeholder
    · rw [Turn.clean, effect.assistant] at placeholder
      cases placed.tool n placeholder
    · have noAi_after : nextAi after.clean.span = none := nextAi_eq_none.mpr fun message member =>
        effect.noAi (noAi turn List.mem_cons_self) message (List.mem_of_mem_filter member)
      refine (coherent_span_iff noAi_after (opening_flatten _)).mpr ⟨?_, ?_⟩
      · rw [nextAi_repaired repaired]
        exact (spanned_effect effect spanned).cleared
      · exact ih noAi_later renumbered later

end Repaired

theorem alike_fill (thread : String) (message : Message) : Alike thread message (fillMessage message) := by
  cases message with
  | tool message =>
    have same : messageId (fillMessage (.tool message)) = messageId (.tool message) := by
      change (fillEmpty message).id = message.id
      unfold fillEmpty
      split <;> rfl
    refine ⟨rfl, rfl, rfl, rfl, id, fun _ other => (by cases other), fun n => ?_, fun n => ?_⟩
    · rw [IsMarker, IsMarker, same]
    · rw [IsPlaceholder, IsPlaceholder, same]
  | _ => exact .refl _

/-- The repair keeps the markers in their places if no human message it drops stands before
one. -/
theorem coherent_sanitize (clock : Nat → Int) (coherent : Coherent thread tail before messages)
    (spared : (turns messages).2.Pairwise (Spares thread)) :
    Coherent thread tail before (sanitizeToolUseResultPairing clock messages) := by
  obtain ⟨afters, fin, repaired, ⟨-, sanitized⟩ | ⟨-, sanitized⟩⟩ := sanitize_spec clock messages
  · have filled : Coherent thread tail before (messages.map fillMessage) :=
      coherent.congr (List.forall₂_map_right_iff.mpr
        (List.forall₂_same.mpr fun message _ => alike_fill thread message))
    have whole := append_flatten_turns (messages.map fillMessage)
    have noAi := turns_noAi (messages.map fillMessage)
    rw [show turns (messages.map fillMessage) = filledTurns messages from turns_map_fill messages]
      at whole noAi
    rw [← whole] at filled
    obtain ⟨spanned, later⟩ :=
      (coherent_span_iff (nextAi_eq_none.mpr noAi.1) (opening_flatten _)).mp filled
    have spared_filled : (filledTurns messages).2.Pairwise (Spares thread) := by
      refine List.pairwise_map.mpr (spared.imp fun {turn later} spares calling human => ?_)
      refine spares calling ?_
      obtain ⟨message, member, human⟩ := human
      obtain ⟨old, inside, rfl⟩ := List.mem_map.mp member
      exact ⟨old, inside, (alike_fill thread old).human.symm.trans human⟩
    have repaired_later := coherent_repaired repaired noAi.2 later spared_filled
    rw [sanitized]
    refine (coherent_span_iff (nextAi_eq_none.mpr fun message member =>
      noAi.1 message (List.mem_of_mem_filter member)) (opening_flatten _)).mpr ⟨?_, ?_⟩
    · rw [nextAi_repaired repaired]
      exact (spanned.clean []).cleared
    · rw [humanCount_clean]
      exact repaired_later
  · rw [sanitized]
    exact coherent

/-! ## Ids and injections -/

theorem bearsId_of_id {id : String} (named : messageId message = some id) (nonempty : id ≠ "") :
    bearsId message = true := by
  simp [bearsId, named, nonempty]

theorem IsMarker.named (marker : IsMarker thread n message) : bearsId message = true :=
  bearsId_of_id marker (markerId_ne_empty thread n)

theorem IsPlaceholder.named (placeholder : IsPlaceholder thread n message) :
    bearsId message = true := by
  obtain ⟨call, same⟩ := placeholder
  exact bearsId_of_id same (healId_ne_empty thread n call)

theorem ordinary_of_unnamed (unnamed : bearsId message = false) : Ordinary thread message :=
  fun _ => ⟨fun marker => Bool.noConfusion (unnamed.symm.trans marker.named),
    fun placeholder => Bool.noConfusion (unnamed.symm.trans placeholder.named)⟩

theorem ordinary_uuid {k : Nat} (named : messageId message = some (uuid k)) :
    Ordinary thread message := fun _ =>
  ⟨fun marker => uuid_ne_markerId (Option.some.inj (named.symm.trans marker)),
    fun ⟨_, placeholder⟩ => uuid_ne_healId (Option.some.inj (named.symm.trans placeholder))⟩

theorem messageId_setId (id : String) (message : Message) :
    messageId (setId id message) = some id := by
  cases message <;> rfl

theorem alike_setId (k : Nat) (unnamed : bearsId message = false) :
    Alike thread message (setId (uuid k) message) := by
  have old : Ordinary thread message := ordinary_of_unnamed unnamed
  have new : Ordinary thread (setId (uuid k) message) := ordinary_uuid (messageId_setId _ _)
  have markers : (∀ n, IsMarker thread n (setId (uuid k) message) ↔ IsMarker thread n message) ∧
      ∀ n, IsPlaceholder thread n (setId (uuid k) message) ↔ IsPlaceholder thread n message :=
    ⟨fun n => iff_of_false (new n).1 (old n).1, fun n => iff_of_false (new n).2 (old n).2⟩
  cases message with
  | ai message =>
    exact ⟨rfl, rfl, rfl, rfl, id, fun _ same empty => ⟨_, rfl, by cases same; exact empty⟩,
      markers.1, markers.2⟩
  | plain message | tool message =>
    exact ⟨rfl, rfl, rfl, rfl, id, fun _ same => (by cases same), markers.1, markers.2⟩

theorem alike_assignIds (thread : String) (next : Nat) (messages : List Message) :
    List.Forall₂ (Alike thread) messages (assignIds next messages) := by
  induction messages generalizing next with
  | nil => exact .nil
  | cons message rest ih =>
    rw [assignIds]
    split
    · exact .cons (.refl message) (ih next)
    · rename_i unnamed
      exact .cons (alike_setId next (eq_false_of_ne_true unnamed)) (ih (next + 1))

theorem uuid_ne_empty (k : Nat) : uuid k ≠ "" := by
  intro empty
  have chars := congrArg String.toList empty
  rw [uuid, String.toList_append] at chars
  cases chars

theorem named_assignIds (next : Nat) (messages : List Message) :
    ∀ message ∈ assignIds next messages, bearsId message = true := by
  induction messages generalizing next with
  | nil => exact fun _ member => absurd member List.not_mem_nil
  | cons message rest ih =>
    rw [assignIds]
    intro other member
    split at member
    · rename_i named
      rcases List.mem_cons.mp member with rfl | later
      · exact named
      · exact ih next other later
    · rcases List.mem_cons.mp member with rfl | later
      · exact bearsId_of_id (messageId_setId _ _) (uuid_ne_empty _)
      · exact ih (next + 1) other later

theorem ordinary_assignIds (next : Nat) (ordinary : ∀ message ∈ messages, Ordinary thread message) :
    ∀ message ∈ assignIds next messages, Ordinary thread message := by
  induction messages generalizing next with
  | nil => exact fun _ member => absurd member List.not_mem_nil
  | cons message rest ih =>
    have later := fun k => ih k fun other member => ordinary other (List.mem_cons_of_mem _ member)
    rw [assignIds]
    intro other member
    split at member
    · rcases List.mem_cons.mp member with rfl | inside
      · exact ordinary _ List.mem_cons_self
      · exact later next other inside
    · rcases List.mem_cons.mp member with rfl | inside
      · exact ordinary_uuid (messageId_setId _ _)
      · exact later (next + 1) other inside

theorem assignIds_named (next : Nat) (named : ∀ message ∈ messages, bearsId message = true) :
    assignIds next messages = messages := by
  induction messages with
  | nil => rfl
  | cons message rest ih =>
    rw [assignIds, if_pos (named message List.mem_cons_self),
      ih fun other member => named other (List.mem_cons_of_mem _ member)]

theorem assignIds_append_named (next : Nat) (first : List Message)
    (named : ∀ message ∈ rest, bearsId message = true) :
    assignIds next (first ++ rest) = assignIds next first ++ rest := by
  induction first generalizing next with
  | nil => exact assignIds_named next named
  | cons message first ih =>
    rw [List.cons_append, assignIds, assignIds]
    split
    · rw [ih, List.cons_append]
    · rw [ih, List.cons_append]

theorem ordinary_withoutIds (messages : List Message) :
    ∀ message ∈ withoutIds messages, Ordinary thread message := by
  intro message member
  obtain ⟨old, -, rfl⟩ := List.mem_map.mp member
  cases old <;> exact ordinary_of_unnamed rfl

theorem isInput_withoutIds (messages : List Message) :
    (withoutIds messages).map isInput = messages.map isInput ∧
      (withoutIds messages).map isHuman = messages.map isHuman := by
  simp only [withoutIds, List.map_map]
  constructor <;> exact List.map_congr_left fun message _ => by cases message <;> rfl

end SherryAgent.Contracts.Agent
