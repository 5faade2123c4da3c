import SherryAgent.Contracts.Security.Reading

/-!
# The streaming reasoning scrubber

- `scrub_iff`: every cutting of a text gives the plain reading exactly when no U+0130 stands before
  a tag and a U+212A is nowhere read as a `k`
- `dotted_text_shifted`: an U+0130 before a tag leaks reasoning
-/

namespace SherryAgent.Guarantees.ReasoningScrub

open SherryAgent.Library SherryAgent.Source SherryAgent.Source.Security
  SherryAgent.Contracts.Security

variable {inside : Option ReasoningTag} {mark : List Char × Option ReasoningTag}
  {tag : ReasoningTag} {text u t v low : List Char} {index : Nat} {scrubber : Scrubber}

/-! ## The search for a tag -/

theorem find_closing_quiet (quiet : Quiet (some tag) text) :
    find tag.closing (lowered text) = none := by
  have usual := mark_closing tag
  apply find_lowered_none usual.whole usual.ne_nil
  intro i
  exact tagAt_eq_none.mp (quiet i) (tag.closing, none) (List.mem_singleton.mpr rfl)

theorem find_closing_first (found : FirstTag (some tag) text u t v mark) :
    find tag.closing (lowered text) = some (lowered u).length ∧ mark = (tag.closing, none) := by
  have usual := mark_closing tag
  have same : mark = (tag.closing, none) := List.mem_singleton.mp found.member
  refine ⟨?_, same⟩
  rw [found.shape]
  apply find_lowered_some usual.whole usual.ne_nil
  · have length := found.length
    have spells := found.spells
    rw [same] at length spells
    rw [spelled_append (Nat.le_of_eq length.symm)]
    exact spells
  · intro i below
    rw [← found.shape]
    exact tagAt_eq_none.mp (found.first i below) (tag.closing, none) (List.mem_singleton.mpr rfl)

theorem opening_mem (tag : ReasoningTag) : (tag.opening, some tag) ∈ marks none := by
  apply List.mem_map_of_mem
  cases tag <;> decide

theorem find_opening_quiet (quiet : Quiet none text) (tag : ReasoningTag) :
    find tag.opening (lowered text) = none := by
  have usual := mark_opening tag
  apply find_lowered_none usual.whole usual.ne_nil
  intro i
  exact tagAt_eq_none.mp (quiet i) (tag.opening, some tag) (opening_mem tag)

theorem nextOpeningTag_quiet (quiet : Quiet none text) : nextOpeningTag text = none := by
  simp [nextOpeningTag, inlineReasoningTags, earlierTag, find_opening_quiet quiet]

/-- The best tag so far stays the best when the rest are later. -/
theorem earlierTag_stays {tags : List ReasoningTag}
    (later : ∀ other ∈ tags, ∀ j, find other.opening low = some j → index ≤ j) :
    tags.foldl (earlierTag low) (some (index, tag)) = some (index, tag) := by
  induction tags with
  | nil => rfl
  | cons other tags ih =>
    have head : earlierTag low (some (index, tag)) other = some (index, tag) := by
      unfold earlierTag
      cases found : find other.opening low with
      | none => rfl
      | some j =>
        have bound := later other List.mem_cons_self j found
        simp only [show ¬j < index by omega, if_false]
    rw [List.foldl_cons, head]
    exact ih fun other member => later other (List.mem_cons_of_mem _ member)

/-- The fold finds a tag that stands before all others. -/
theorem earlierTag_finds {tags : List ReasoningTag} {best : Option (Nat × ReasoningTag)}
    (member : tag ∈ tags) (here : find tag.opening low = some index)
    (later : ∀ other ∈ tags, other ≠ tag → ∀ j, find other.opening low = some j → index < j)
    (behind : ∀ first ∈ best, index < first.1) :
    tags.foldl (earlierTag low) best = some (index, tag) := by
  induction tags generalizing best with
  | nil => cases member
  | cons other tags ih =>
    rw [List.foldl_cons]
    by_cases same : other = tag
    · subst same
      have head : earlierTag low best other = some (index, other) := by
        unfold earlierTag
        rw [here]
        cases best with
        | none => rfl
        | some first =>
          have bound := behind first rfl
          simp only [show index < first.1 from bound, if_true]
      rw [head]
      apply earlierTag_stays
      intro another inside j found
      by_cases again : another = other
      · rw [again, here] at found
        exact Nat.le_of_eq (Option.some.inj found)
      · exact Nat.le_of_lt (later another (List.mem_cons_of_mem _ inside) again j found)
    · have rest : tag ∈ tags := (List.mem_cons.mp member).resolve_left (Ne.symm same)
      apply ih rest fun another inside => later another (List.mem_cons_of_mem _ inside)
      intro first chosen
      unfold earlierTag at chosen
      cases found : find other.opening low with
      | none =>
        rw [found] at chosen
        exact behind first chosen
      | some j =>
        have bound := later other List.mem_cons_self same j found
        rw [found] at chosen
        cases best with
        | none =>
          rw [← Option.mem_some_iff.mp chosen]
          exact bound
        | some earlier =>
          dsimp only at chosen
          split at chosen
          · rw [← Option.mem_some_iff.mp chosen]
            exact bound
          · exact behind first chosen

theorem nextOpeningTag_first (found : FirstTag none text u t v mark) :
    ∃ tag, mark = (tag.opening, some tag) ∧
      nextOpeningTag text = some ((lowered u).length, tag) := by
  obtain ⟨tag, listed, rfl⟩ := List.mem_map.mp found.member
  have length : t.length = tag.opening.length := found.length
  have spells : spelled folded tag.opening (t ++ v) = true := by
    rw [spelled_append (Nat.le_of_eq length.symm)]
    exact found.spells
  refine ⟨tag, rfl, ?_⟩
  have unspelled : ∀ other : ReasoningTag, ∀ i < u.length,
      spelled folded other.opening (text.drop i) = false := by
    intro other i below
    exact tagAt_eq_none.mp (found.first i below) (other.opening, some other) (opening_mem other)
  apply earlierTag_finds listed
  · have usual := mark_opening tag
    rw [found.shape]
    apply find_lowered_some usual.whole usual.ne_nil spells
    intro i below
    rw [← found.shape]
    exact unspelled tag i below
  · intro other _ differs j elsewhere
    have usual := mark_opening other
    obtain ⟨x, y, cut, rfl, starts⟩ := exists_of_find_lowered usual.whole usual.ne_nil elsewhere
    have notBefore : ¬x.length < u.length := by
      intro below
      have missing := unspelled other x.length below
      rw [cut, List.drop_left, starts] at missing
      cases missing
    have whole : u ++ (t ++ v) = x ++ y := found.shape.symm.trans cut
    have extends_u : u <+: x :=
      List.prefix_of_prefix_length_le ⟨t ++ v, whole⟩ (List.prefix_append x y) (by omega)
    obtain ⟨between, rfl⟩ := extends_u
    rw [List.append_assoc, List.append_cancel_left_eq] at whole
    cases between with
    | nil =>
      rw [List.nil_append] at whole
      rw [← whole] at starts
      have same := eq_of_spelled (opening_mem other) (opening_mem tag) starts spells
      exact absurd (Option.some.inj (Prod.mk.inj same).2) differs
    | cons c between =>
      have least := @length_lowered_le (c :: between)
      rw [length_lowered_append]
      simp only [List.length_cons] at least
      omega
  · intro first none_yet
    cases none_yet

/-! ## The loop -/

/-- The characters as the reading shows them where no tag is. -/
def shown (inside : Option ReasoningTag) (text : List Char) : List (Char × Part) :=
  text.map fun c => (c, plainPart inside)

theorem partOf_append {part : Part} {first second : List (Char × Part)} :
    partOf part (first ++ second) = partOf part first ++ partOf part second := by
  simp [partOf]

theorem partOf_map {part kind : Part} :
    partOf part (text.map fun c => (c, kind)) = if kind = part then text else [] := by
  unfold partOf
  by_cases same : kind = part
  · simp [same, List.filter_map, Function.comp_def]
  · simp [same, List.filter_map, Function.comp_def]

theorem usable_marks : ∀ candidate ∈ (marks inside).map (·.1), Candidate candidate := by
  intro candidate member
  obtain ⟨mark, listed, rfl⟩ := List.mem_map.mp member
  exact (mark_of_mem listed).usable

/-- A turn of the loop that finds a tag. The cut is where the lower-cased copy has it. -/
theorem scan_first (fuel : Nat) (out : List Char)
    (found : FirstTag scrubber.inside scrubber.held u t v mark) :
    scrubber.scan (fuel + 1) out =
      Scrubber.scan fuel
        { held := scrubber.held.drop ((lowered u).length + t.length)
          inside := mark.2
          recovered := scrubber.recovered ++
            partOf .reasoning (shown scrubber.inside (scrubber.held.take (lowered u).length)) }
        (out ++ partOf .visible (shown scrubber.inside (scrubber.held.take (lowered u).length))) := by
  have holds : scrubber.held ≠ [] := by
    rw [found.shape]
    simp [found.nonempty]
  have length := found.length
  rw [Scrubber.scan, if_neg holds]
  cases block : scrubber.inside with
  | some tag =>
    rw [block] at found
    obtain ⟨here, same⟩ := find_closing_first found
    rw [same] at length
    dsimp only
    rw [here, same, shown, partOf_map, partOf_map, length]
    simp [plainPart]
  | none =>
    rw [block] at found
    obtain ⟨tag, same, here⟩ := nextOpeningTag_first found
    rw [same] at length
    dsimp only
    rw [here, same, shown, partOf_map, partOf_map, length]
    simp [plainPart]

/-- The last turn of the loop. -/
theorem scan_quiet (fuel : Nat) (out : List Char) (quiet : Quiet scrubber.inside scrubber.held) :
    ∃ x kept, scrubber.held = x ++ kept ∧ dottedI ∉ kept ∧
      Longest ((marks scrubber.inside).map (·.1)) scrubber.held kept ∧
      scrubber.scan (fuel + 1) out =
        ({ held := kept
           inside := scrubber.inside
           recovered := scrubber.recovered ++ partOf .reasoning (shown scrubber.inside x) },
          out ++ partOf .visible (shown scrubber.inside x)) := by
  have spec := @longestPartialSuffix_spec scrubber.held _ (@usable_marks scrubber.inside)
  generalize suffix : longestPartialSuffix scrubber.held ((marks scrubber.inside).map (·.1)) =
    kept at spec
  obtain ⟨⟨x, shape⟩, plain, longest⟩ := spec
  refine ⟨x, kept, shape, plain, longest, ?_⟩
  have cut : scrubber.held.take (scrubber.held.length - kept.length) = x := by
    rw [shape, List.length_append, Nat.add_sub_cancel, List.take_left]
  rw [Scrubber.scan]
  split
  · rename_i empty
    rw [empty] at shape
    obtain ⟨rfl, rfl⟩ := List.append_eq_nil_iff.mp shape.symm
    simp only [shown, partOf, List.map_nil, List.filter_nil, List.append_nil]
    rw [← empty]
  · cases block : scrubber.inside with
    | some tag =>
      rw [block] at quiet suffix
      have suffix : longestPartialSuffix scrubber.held [tag.closing] = kept := suffix
      dsimp only
      rw [find_closing_quiet quiet, Scrubber.settle, suffix, cut, block, shown, partOf_map,
        partOf_map]
      simp [plainPart]
    | none =>
      rw [block] at quiet suffix
      have suffix : longestPartialSuffix scrubber.held (inlineReasoningTags.map (·.opening)) =
        kept := suffix
      dsimp only
      rw [nextOpeningTag_quiet quiet, Scrubber.settle, suffix, cut, block, shown, partOf_map,
        partOf_map]
      simp [plainPart]

/-! ## One chunk -/

/-- No U+0130 stands before a tag. -/
def Unshifted (reading : List (Char × Part)) : Prop :=
  reading.Pairwise fun earlier later => earlier.1 = dottedI → later.2 ≠ .markup

/-- What a call has made of the held text and what it holds back still read as the whole, whatever
comes next. -/
structure Moves (before after : Scrubber) (visible : List Char) (pieces : List (Char × Part)) :
    Prop where
  reads : ∀ w, read folded before.inside 0 (before.held ++ w) =
    pieces ++ read folded after.inside 0 (after.held ++ w)
  visible : visible = partOf .visible pieces
  recovered : after.recovered = before.recovered ++ partOf .reasoning pieces

/-- No complete tag is held back, and no U+0130. -/
structure Waiting (scrubber : Scrubber) : Prop where
  quiet : Quiet scrubber.inside scrubber.held
  plain : dottedI ∉ scrubber.held

theorem not_mem_of_unshifted {rest : List (Char × Part)} (nonempty : t ≠ [])
    (unshifted : Unshifted (shown inside u ++ (t.map (fun c => (c, Part.markup)) ++ rest))) :
    dottedI ∉ u := by
  intro member
  obtain ⟨c, later, rfl⟩ := List.exists_cons_of_ne_nil nonempty
  have clash := (List.pairwise_append.mp unshifted).2.2 (dottedI, plainPart inside)
    (List.mem_map_of_mem member) (c, .markup) (by simp) rfl
  exact clash rfl

/-- The loop, as long as no U+0130 stands before a tag. -/
theorem scan_moves {fuel : Nat} (enough : scrubber.held.length < fuel) (out w : List Char)
    (unshifted : Unshifted (read folded scrubber.inside 0 (scrubber.held ++ w))) :
    ∃ after visible pieces, scrubber.scan fuel out = (after, out ++ visible) ∧
      Moves scrubber after visible pieces ∧ Waiting after := by
  induction fuel generalizing scrubber out with
  | zero => omega
  | succ fuel ih =>
    obtain quiet | found := quiet_or_firstTag scrubber.inside scrubber.held
    · obtain ⟨x, kept, shape, plain, longest, scanned⟩ := scan_quiet fuel out quiet
      exact ⟨_, _, shown scrubber.inside x, scanned,
        ⟨quiet.read longest shape, rfl, rfl⟩, ⟨quiet.suffix shape, plain⟩⟩
    · obtain ⟨u, t, v, mark, found⟩ := found
      have reads := found.read w
      rw [reads] at unshifted
      have plain : dottedI ∉ u := not_mem_of_unshifted found.nonempty unshifted
      have straight : (lowered u).length = u.length := length_lowered_iff.mpr plain
      have some_length := List.length_pos_iff.mpr found.nonempty
      have dropped : scrubber.held.drop (u.length + t.length) = v := by
        rw [found.shape, ← List.drop_drop, List.drop_left, List.drop_left]
      have taken : scrubber.held.take u.length = u := by
        rw [found.shape, List.take_left]
      have sized := congrArg List.length found.shape
      simp only [List.length_append] at sized
      rw [scan_first fuel out found, straight, dropped, taken]
      obtain ⟨after, visible, pieces, scanned, moves, waiting⟩ :=
        @ih { held := v
              inside := mark.2
              recovered := scrubber.recovered ++
                partOf .reasoning (shown scrubber.inside u) }
          (by show v.length < fuel; omega) (out ++ partOf .visible (shown scrubber.inside u))
          (List.pairwise_append.mp (List.pairwise_append.mp unshifted).2.1).2.1
      refine ⟨after, _, shown scrubber.inside u ++ (t.map (fun c => (c, Part.markup)) ++ pieces),
        by rw [scanned, List.append_assoc], ⟨?_, ?_, ?_⟩, waiting⟩
      · intro w
        rw [found.read w, moves.reads w]
        simp [shown]
      · rw [partOf_append, partOf_append, @partOf_map t, moves.visible]
        simp
      · rw [moves.recovered, partOf_append, partOf_append, @partOf_map t]
        simp

/-! ## The stream -/

/-- What feeding some chunks has given, and what is left to feed the rest to. -/
structure Fed (before after : Scrubber) (chunks : List (List Char)) (pieces : List (Char × Part)) :
    Prop where
  waiting : Waiting after
  drained : after.recovered = []
  reads : ∀ w, read folded before.inside 0 (before.held ++ (chunks.flatten ++ w)) =
    pieces ++ read folded after.inside 0 (after.held ++ w)
  stream : ∀ rest, before.stream (chunks ++ rest) =
    (partOf .visible pieces ++ (after.stream rest).1,
      partOf .reasoning pieces ++ (after.stream rest).2)

theorem Fed.nil (waiting : Waiting scrubber) (drained : scrubber.recovered = []) :
    Fed scrubber scrubber [] [] := by
  refine ⟨waiting, drained, ?_, ?_⟩
  · intro w
    rfl
  · intro rest
    simp [partOf]

theorem Fed.trans {middle after : Scrubber} {chunks more : List (List Char)}
    {pieces others : List (Char × Part)} (first : Fed scrubber middle chunks pieces)
    (second : Fed middle after more others) :
    Fed scrubber after (chunks ++ more) (pieces ++ others) := by
  refine ⟨second.waiting, second.drained, ?_, ?_⟩
  · intro w
    rw [List.flatten_append, List.append_assoc, first.reads, second.reads, List.append_assoc]
  · intro rest
    rw [List.append_assoc, first.stream, second.stream]
    simp [partOf_append]

/-- Taking the reasoning after a feed changes nothing of what is read. -/
theorem Fed.of_moves {chunk visible : List Char} {after : Scrubber} {pieces : List (Char × Part)}
    (drained : scrubber.recovered = []) (fed : scrubber.feed chunk = (after, visible))
    (moves : Moves { scrubber with held := scrubber.held ++ chunk } after visible pieces)
    (waiting : Waiting after) :
    Fed scrubber { after with recovered := [] } [chunk] pieces := by
  refine ⟨⟨waiting.quiet, waiting.plain⟩, rfl, ?_, ?_⟩
  · intro w
    have reads := moves.reads w
    simpa using reads
  · intro rest
    rw [List.singleton_append, Scrubber.stream, fed]
    simp [Scrubber.takeReasoning, moves.visible, moves.recovered, drained]

theorem fed_chunk (waiting : Waiting scrubber) (drained : scrubber.recovered = [])
    (chunk w : List Char)
    (unshifted : Unshifted (read folded scrubber.inside 0 (scrubber.held ++ (chunk ++ w)))) :
    ∃ after pieces, Fed scrubber after [chunk] pieces := by
  by_cases empty : chunk = []
  · subst empty
    have fed : scrubber.feed [] = (scrubber, []) := by simp [Scrubber.feed]
    have moves : Moves { scrubber with held := scrubber.held ++ [] } scrubber [] [] := by
      refine ⟨?_, rfl, by simp [partOf]⟩
      intro w
      simp
    exact ⟨_, _, Fed.of_moves drained fed moves waiting⟩
  · obtain ⟨after, visible, pieces, scanned, moves, waiting⟩ :=
      @scan_moves { scrubber with held := scrubber.held ++ chunk } _ (Nat.lt_succ_self _) [] w
        (by rwa [List.append_assoc])
    have fed : scrubber.feed chunk = (after, visible) := by
      rw [Scrubber.feed, if_neg empty]
      exact scanned
    exact ⟨_, _, Fed.of_moves drained fed moves waiting⟩

theorem stream_nil (waiting : Waiting scrubber) (drained : scrubber.recovered = []) :
    scrubber.stream [] =
      (partOf .visible (read folded scrubber.inside 0 scrubber.held),
        partOf .reasoning (read folded scrubber.inside 0 scrubber.held)) := by
  rw [waiting.quiet.read_all, partOf_map, partOf_map, Scrubber.stream, Scrubber.flush]
  cases scrubber.inside with
  | some tag => simp [Scrubber.takeReasoning, drained, plainPart]
  | none => simp [Scrubber.takeReasoning, drained, plainPart]

/-- The whole stream, when nothing more comes. -/
theorem Fed.whole {after : Scrubber} {chunks : List (List Char)} {pieces : List (Char × Part)}
    (fed : Fed scrubber after chunks pieces) :
    scrubber.stream chunks =
      (partOf .visible (read folded scrubber.inside 0 (scrubber.held ++ chunks.flatten)),
        partOf .reasoning (read folded scrubber.inside 0 (scrubber.held ++ chunks.flatten))) := by
  have stream := fed.stream []
  have reads := fed.reads []
  rw [List.append_nil] at stream reads
  rw [List.append_nil] at reads
  rw [stream, reads, stream_nil fed.waiting fed.drained, partOf_append, partOf_append]

/-- Any cutting, as long as no U+0130 stands before a tag. -/
theorem fed_unshifted (waiting : Waiting scrubber) (drained : scrubber.recovered = [])
    (chunks : List (List Char))
    (unshifted : Unshifted (read folded scrubber.inside 0 (scrubber.held ++ chunks.flatten))) :
    ∃ after pieces, Fed scrubber after chunks pieces := by
  induction chunks generalizing scrubber with
  | nil => exact ⟨scrubber, [], Fed.nil waiting drained⟩
  | cons chunk chunks ih =>
    rw [List.flatten_cons] at unshifted
    obtain ⟨middle, pieces, first⟩ := fed_chunk waiting drained chunk chunks.flatten unshifted
    have reads := first.reads chunks.flatten
    rw [List.flatten_cons, List.flatten_nil, List.append_nil] at reads
    rw [reads] at unshifted
    obtain ⟨after, others, second⟩ :=
      ih first.waiting first.drained (List.pairwise_append.mp unshifted).2.1
    exact ⟨after, pieces ++ others, first.trans second⟩

theorem unshifted_concat {reading : List (Char × Part)} {last : Char × Part}
    (plain : dottedI ∉ reading.map (·.1)) : Unshifted (reading ++ [last]) := by
  induction reading with
  | nil => exact List.pairwise_singleton _ _
  | cons head reading ih =>
    rw [List.map_cons, List.mem_cons, not_or] at plain
    rw [List.cons_append]
    apply List.pairwise_cons.mpr
    refine ⟨?_, ih plain.2⟩
    intro later _ dotted
    exact absurd dotted.symm plain.1

/-- One character at a time the copy never shifts a tag. -/
theorem fed_singles (waiting : Waiting scrubber) (drained : scrubber.recovered = [])
    (text : List Char) : ∃ after pieces, Fed scrubber after (text.map fun c => [c]) pieces := by
  induction text generalizing scrubber with
  | nil => exact ⟨scrubber, [], Fed.nil waiting drained⟩
  | cons c text ih =>
    have unshifted :
        Unshifted (read folded scrubber.inside 0 (scrubber.held ++ ([c] ++ []))) := by
      have letters := @map_fst_read folded scrubber.inside (scrubber.held ++ [c]) 0
      obtain ⟨earlier, last, shape, held, single⟩ := List.map_eq_append_iff.mp letters
      obtain ⟨x, rfl, -⟩ := List.map_eq_singleton_iff.mp single
      rw [List.append_nil, shape]
      apply unshifted_concat
      rw [held]
      exact waiting.plain
    obtain ⟨middle, pieces, first⟩ := fed_chunk waiting drained [c] [] unshifted
    obtain ⟨after, others, second⟩ := ih first.waiting first.drained
    exact ⟨after, pieces ++ others, first.trans second⟩

/-! ## The plain definition -/

/-- A tag's letters, whatever their case, and nothing else. -/
def ascii (c t : Char) : Bool := c.toLower == t

/-- The visible text and the reasoning of the whole text. -/
def outcome (same : Char → Char → Bool) (text : List Char) : List Char × List Char :=
  (partOf .visible (read same none 0 text), partOf .reasoning (read same none 0 text))

/-- Every cutting of the text gives what the plain definition says. -/
def Faithful (text : List Char) : Prop :=
  ∀ chunks : List (List Char), chunks.flatten = text →
    Scrubber.stream {} chunks = outcome ascii text

theorem waiting_first : Waiting {} := by
  constructor
  · intro i
    rw [List.drop_nil]
    exact tagAt_nil
  · exact List.not_mem_nil

theorem stream_unshifted {chunks : List (List Char)}
    (unshifted : Unshifted (read folded none 0 chunks.flatten)) :
    Scrubber.stream {} chunks = outcome folded chunks.flatten := by
  obtain ⟨after, pieces, fed⟩ := fed_unshifted waiting_first rfl chunks unshifted
  exact fed.whole

theorem flatten_singles : (text.map fun c => [c]).flatten = text := by
  induction text with
  | nil => rfl
  | cons c text ih => rw [List.map_cons, List.flatten_cons, ih, List.singleton_append]

theorem stream_singles (text : List Char) :
    Scrubber.stream {} (text.map fun c => [c]) = outcome folded text := by
  obtain ⟨after, pieces, fed⟩ := fed_singles waiting_first rfl text
  have whole := fed.whole
  rwa [flatten_singles] at whole

/-! ## A cutting that shifts a tag -/

/-- A tag that an U+0130 in the same chunk precedes is cut too late. -/
theorem feed_shifted (drained : scrubber.recovered = []) {chunk : List Char}
    (found : FirstTag scrubber.inside (scrubber.held ++ chunk) u t [] mark) (dotted : dottedI ∈ u)
    (arrived : chunk ≠ []) :
    ∃ extra, extra ≠ [] ∧
      scrubber.feed chunk =
        ({ held := []
           inside := mark.2
           recovered := partOf .reasoning (shown scrubber.inside (u ++ extra)) },
          partOf .visible (shown scrubber.inside (u ++ extra))) := by
  have least := @length_lowered_le u
  have shifted : (lowered u).length ≠ u.length := by
    intro same
    exact length_lowered_iff.mp same dotted
  have some_length := List.length_pos_iff.mpr found.nonempty
  have shape := found.shape
  rw [List.append_nil] at shape
  obtain ⟨later, here⟩ : ∃ later, (lowered u).length = u.length + (later + 1) :=
    ⟨(lowered u).length - u.length - 1, by omega⟩
  have taken : (scrubber.held ++ chunk).take (lowered u).length = u ++ t.take (later + 1) := by
    rw [shape, here, List.take_length_add_append]
  have dropped : (scrubber.held ++ chunk).drop ((lowered u).length + t.length) = [] := by
    apply List.drop_eq_nil_of_le
    rw [shape, List.length_append]
    omega
  refine ⟨t.take (later + 1), ?_, ?_⟩
  · apply List.ne_nil_of_length_pos
    rw [List.length_take]
    omega
  · rw [Scrubber.feed, if_neg arrived]
    have turn := @scan_first _ _ _ _ { scrubber with held := scrubber.held ++ chunk }
      (scrubber.held ++ chunk).length [] found
    dsimp only at turn ⊢
    rw [turn, taken, dropped, drained]
    cases size : (scrubber.held ++ chunk).length with
    | zero => rfl
    | succ size => simp [Scrubber.scan]

/-- What is shown of some characters is all of them, on one channel. -/
theorem length_shown (text : List Char) :
    (partOf .visible (shown inside text)).length + (partOf .reasoning (shown inside text)).length =
      text.length := by
  rw [shown, partOf_map, partOf_map]
  cases inside <;> simp [plainPart]

/-- Where the tag stands that an U+0130 behind the held text precedes. -/
theorem firstTag_behind {held w : List Char} (quiet : Quiet inside held)
    (marked : ∃ later ∈ (read folded inside 0 (held ++ dottedI :: w)).drop (held.length + 1),
      later.2 = .markup) :
    ∃ m t v mark, w = m ++ (t ++ v) ∧
      FirstTag inside (held ++ dottedI :: w) (held ++ dottedI :: m) t v mark := by
  obtain ⟨later, member, markup⟩ := marked
  obtain none_there | found := quiet_or_firstTag inside (held ++ dottedI :: w)
  · rw [none_there.read_all] at member
    obtain ⟨c, -, rfl⟩ := List.mem_map.mp (List.mem_of_mem_drop member)
    cases inside <;> cases markup
  · obtain ⟨u, t, v, mark, found⟩ := found
    have shape := found.shape
    have some_length := List.length_pos_iff.mpr found.nonempty
    have sized := congrArg List.length shape
    simp only [List.length_append, List.length_cons] at sized
    have behind : held.length < u.length := by
      by_contra early
      have upTo : u <+: held ++ dottedI :: w := ⟨t ++ v, shape.symm⟩
      obtain ⟨rest, rfl⟩ := List.prefix_of_prefix_length_le upTo
        (List.prefix_append held (dottedI :: w)) (by omega)
      rw [List.append_assoc, List.append_cancel_left_eq] at shape
      have tagged : t <+: rest ++ dottedI :: w := ⟨v, shape.symm⟩
      by_cases inHeld : t.length ≤ rest.length
      · -- the whole tag would be held back
        obtain ⟨more, rfl⟩ := List.prefix_of_prefix_length_le tagged
          (List.prefix_append rest (dottedI :: w)) inHeld
        have here := quiet u.length
        rw [List.drop_left, found.tagAt more] at here
        cases here
      · -- the tag would contain the U+0130
        have dotted : rest ++ [dottedI] <+: rest ++ dottedI :: w := ⟨w, by simp⟩
        have within : rest ++ [dottedI] <+: t := List.prefix_of_prefix_length_le dotted tagged
          (by rw [List.length_append, List.length_singleton]; omega)
        exact not_mem_of_spelled found.spells (Nat.le_of_eq found.length)
          (within.subset (by simp))
    have upTo : u <+: held ++ dottedI :: w := ⟨t ++ v, shape.symm⟩
    have dotted : held ++ [dottedI] <+: held ++ dottedI :: w := ⟨w, by simp⟩
    obtain ⟨m, rfl⟩ := List.prefix_of_prefix_length_le dotted upTo
      (by rw [List.length_append, List.length_singleton]; omega)
    rw [List.append_assoc, List.singleton_append] at found
    refine ⟨m, t, v, mark, ?_, found⟩
    simpa using shape

/-- The first tag is there when the text ends with it. -/
theorem firstTag_cut (found : FirstTag inside text u t v mark) :
    FirstTag inside (u ++ t) u t [] mark := by
  refine ⟨by rw [List.append_nil], found.member, found.length, found.spells, ?_⟩
  intro i below
  rw [tagAt_eq_none]
  intro other also
  apply Bool.eq_false_iff.mpr
  intro starts
  have unspelled := tagAt_eq_none.mp (found.first i below) other also
  have cut : text.drop i = (u ++ t).drop i ++ v := by
    rw [found.shape, ← List.append_assoc, List.drop_append_of_le_length]
    rw [List.length_append]
    omega
  rw [cut, spelled_append (spelled_length starts), starts] at unspelled
  cases unspelled

/-- The characters of both channels. -/
def size (result : List Char × List Char) : Nat := result.1.length + result.2.length

theorem size_parts (first second : List (Char × Part)) :
    (partOf .visible (first ++ second)).length + (partOf .reasoning (first ++ second)).length =
      (partOf .visible first).length + (partOf .reasoning first).length +
        ((partOf .visible second).length + (partOf .reasoning second).length) := by
  rw [partOf_append, partOf_append, List.length_append, List.length_append]
  omega

/-- From the U+0130 on, with the next tag in the same chunk, more characters come out than the
reading lets through. -/
theorem size_shifting {m : List Char} (drained : scrubber.recovered = [])
    (found : FirstTag scrubber.inside (scrubber.held ++ dottedI :: (m ++ (t ++ v)))
      (scrubber.held ++ dottedI :: m) t v mark) :
    size (scrubber.stream ((dottedI :: m ++ t) :: v.map fun c => [c])) ≠
      (partOf .visible (read folded scrubber.inside 0
          (scrubber.held ++ dottedI :: (m ++ (t ++ v))))).length +
        (partOf .reasoning (read folded scrubber.inside 0
          (scrubber.held ++ dottedI :: (m ++ (t ++ v))))).length := by
  have cut := firstTag_cut found
  rw [List.append_assoc] at cut
  obtain ⟨extra, nonempty, shifting⟩ :=
    feed_shifted drained cut (by simp) (List.cons_ne_nil _ _)
  have emptied : Waiting { held := [], inside := mark.2 } :=
    ⟨fun i => by rw [List.drop_nil]; exact tagAt_nil, List.not_mem_nil⟩
  obtain ⟨last, others, fed⟩ := fed_singles emptied rfl v
  have later := fed.whole
  rw [flatten_singles] at later
  have reads := found.read []
  rw [List.append_nil, List.append_nil] at reads
  have marked : (partOf .visible (t.map fun c => (c, Part.markup))).length +
      (partOf .reasoning (t.map fun c => (c, Part.markup))).length = 0 := by
    rw [partOf_map, partOf_map]
    rfl
  have all := @length_shown scrubber.inside (scrubber.held ++ dottedI :: m ++ extra)
  have plain := @length_shown scrubber.inside (scrubber.held ++ dottedI :: m)
  have some_length := List.length_pos_iff.mpr nonempty
  rw [reads, ← shown, size_parts, size_parts, plain, marked, Scrubber.stream, shifting]
  dsimp only [Scrubber.takeReasoning]
  rw [later, size]
  simp only [List.length_append, List.nil_append] at all ⊢
  omega

/-- What stands behind one element of a list that is cut elsewhere. -/
theorem drop_behind {α : Type} {first : α} {pieces others before rest : List α} {n : Nat}
    (same : pieces ++ others = before ++ first :: rest) (sized : pieces.length + n = before.length) :
    others.drop (n + 1) = rest := by
  have dropped := congrArg (List.drop (before.length + 1)) same
  have left : (pieces ++ others).drop (before.length + 1) = others.drop (n + 1) := by
    rw [← sized, Nat.add_assoc, ← List.drop_drop, List.drop_left]
  have right : (before ++ first :: rest).drop (before.length + 1) = rest := by
    rw [← List.drop_drop, List.drop_left]
    rfl
  rwa [left, right] at dropped

/-- If an U+0130 stands before a tag, some cutting returns characters of the tag. -/
theorem exists_shifting (shifted : ¬Unshifted (read folded none 0 text)) :
    ∃ chunks : List (List Char), chunks.flatten = text ∧
      Scrubber.stream {} chunks ≠ outcome folded text := by
  unfold Unshifted at shifted
  rw [List.pairwise_iff_forall_sublist] at shifted
  simp only [not_forall] at shifted
  obtain ⟨first, later, listed, dotted, markup⟩ := shifted
  rw [not_not] at markup
  obtain ⟨upTo, rest, whole, inside_first, inside_rest⟩ := List.cons_sublist_iff.mp listed
  obtain ⟨before, between, rfl⟩ := List.append_of_mem inside_first
  have member : later ∈ between ++ rest :=
    List.mem_append_right _ (List.singleton_sublist.mp inside_rest)
  rw [List.append_assoc, List.cons_append] at whole
  have letters := @map_fst_read folded none text 0
  rw [whole, List.map_append, List.map_cons, dotted] at letters
  generalize before_is : before.map (·.1) = a at letters
  generalize (between ++ rest).map (·.1) = w at letters
  subst letters
  -- the text up to the U+0130 comes one character at a time
  obtain ⟨after, pieces, fed⟩ := fed_singles waiting_first rfl a
  have reads := fed.reads (dottedI :: w)
  rw [flatten_singles] at reads
  have reads : read folded none 0 (a ++ dottedI :: w) =
    pieces ++ read folded after.inside 0 (after.held ++ dottedI :: w) := reads
  have sized := congrArg List.length reads
  have length : a.length = before.length := by rw [← before_is, List.length_map]
  simp only [length_read, List.length_append, List.length_cons] at sized
  have behind := @drop_behind _ _ _ _ _ _ after.held.length (reads.symm.trans whole) (by omega)
  rw [← behind] at member
  obtain ⟨m, t, v, mark, rfl, found⟩ := firstTag_behind fed.waiting.quiet ⟨later, member, markup⟩
  -- the U+0130 and the tag come in one chunk
  refine ⟨a.map (fun c => [c]) ++ ((dottedI :: m ++ t) :: v.map fun c => [c]), ?_, ?_⟩
  · rw [List.flatten_append, List.flatten_cons, flatten_singles, flatten_singles]
    simp
  · intro same
    have sizes := congrArg size same
    have more := size_shifting fed.drained found
    rw [fed.stream, outcome, reads, size, size, size_parts] at sizes
    simp only [List.length_append] at sizes
    rw [size] at more
    omega

/-! ## Which texts are scrubbed faithfully -/

/-- No U+0130 stands before a tag, and the text reads the same whether or not U+212A counts as the
letter `k`. -/
def Clear (text : List Char) : Prop :=
  Unshifted (read folded none 0 text) ∧ outcome folded text = outcome ascii text

/-- Every cutting of a text gives the plain reading if and only if the text is clear. -/
theorem scrub_iff (text : List Char) : Faithful text ↔ Clear text := by
  constructor
  · intro faithful
    have same : outcome folded text = outcome ascii text := by
      rw [← stream_singles]
      exact faithful _ flatten_singles
    refine ⟨?_, same⟩
    by_contra shifted
    obtain ⟨chunks, cutting, differs⟩ := exists_shifting shifted
    rw [same] at differs
    exact differs (faithful chunks cutting)
  · intro clear chunks cutting
    subst cutting
    rw [stream_unshifted clear.1]
    exact clear.2

/-- `İ` before a block: the block's bracket comes out and a character of the reasoning is lost. -/
theorem dotted_text_shifted :
    ¬∀ (text : List Char) (chunks : List (List Char)), chunks.flatten = text →
      Scrubber.stream {} chunks = outcome ascii text := by
  intro faithful
  have same := faithful (dottedI :: "<think>s</think>".toList) [dottedI :: "<think>s</think>".toList]
    rfl
  have differs : Scrubber.stream {} [dottedI :: "<think>s</think>".toList] ≠
      outcome ascii (dottedI :: "<think>s</think>".toList) := by decide
  exact differs same

end SherryAgent.Guarantees.ReasoningScrub
