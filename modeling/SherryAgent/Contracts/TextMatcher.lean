import SherryAgent.Library.Separated
import SherryAgent.Source.PubBase.TextMatcher

/-!
# What the searches of the matcher find

* `strategyExact_eq` — the exact search lists every occurrence, overlapping or not;
* `spans_of_lines` — a search by lines finds the regions whose lines normalise to the
  lines of the pattern;
* `applyExact_eq` — an exact replacement splices the spans from the last to the first.
-/

namespace SherryAgent.Contracts.TextMatcher

open SherryAgent.Library SherryAgent.Library.Separated SherryAgent.Source
  SherryAgent.Source.TextMatcher

variable {content pattern : Text}

/-! ## The exact search -/

theorem exactLoop_eq (nonempty : pattern ≠ []) (fuel start : Nat)
    (enough : content.length < fuel + start) :
    exactLoop content pattern fuel start =
      (occurrences pattern start (content.drop start)).map fun i => (i, i + pattern.length) := by
  induction fuel generalizing start with
  | zero =>
    rw [List.drop_eq_nil_of_le (by omega), occurrences_nil nonempty]
    rfl
  | succ fuel ih =>
    unfold exactLoop find
    split
    · rename_i ended
      split at ended
      · have missing := Option.map_eq_none_iff.mp ended
        rw [occurrences_of_missing nonempty missing]
        rfl
      · rw [List.drop_eq_nil_of_le (by omega), occurrences_nil nonempty]
        rfl
    · rename_i pos found
      split at found
      · obtain ⟨first, stands, rfl⟩ := Option.map_eq_some_iff.mp found
        have same : start + first + 1 = first + start + 1 := by omega
        have moved : start + (first + 1) = first + start + 1 := by omega
        rw [occurrences_of_findFirst nonempty stands, List.map_cons, List.drop_drop, same, moved,
          ih (first + start + 1) (by omega), Nat.add_comm start first]
      · cases found

/-- The exact search lists every occurrence, overlapping or not. -/
theorem strategyExact_eq (nonempty : pattern ≠ []) :
    strategyExact content pattern =
      (occurrences pattern 0 content).map fun i => (i, i + pattern.length) :=
  exactLoop_eq nonempty _ 0 (by omega)

theorem mem_strategyExact (nonempty : pattern ≠ []) {span : Span} :
    span ∈ strategyExact content pattern ↔
      OccursAt pattern content span.1 ∧ span.2 = span.1 + pattern.length := by
  rw [strategyExact_eq nonempty, List.mem_map]
  constructor
  · rintro ⟨i, member, rfl⟩
    obtain ⟨j, occurs, rfl⟩ := (mem_occurrences nonempty).mp member
    rw [Nat.zero_add]
    exact ⟨occurs, rfl⟩
  · rintro ⟨occurs, ends⟩
    refine ⟨span.1, (mem_occurrences nonempty).mpr ⟨span.1, occurs, (Nat.zero_add _).symm⟩, ?_⟩
    rw [← ends]

/-! ## The search by lines -/

/-- The text whose lines are normalised one by one. -/
def byLine (f : Text → Text) (text : Text) : Text := join ((lines text).map f)

/-- The region of the content is what the pattern describes, up to the normaliser. -/
def Describes (normalize : Text → Text) (content pattern : Text) (span : Span) : Prop :=
  span.1 ≤ span.2 ∧ span.2 ≤ content.length ∧
    normalize (slice content span.1 span.2) = normalize pattern

theorem lines_ne_nil (text : Text) : lines text ≠ [] := List.splitOn_ne_nil _ _

theorem join_lines (text : Text) : join (lines text) = text := List.intercalate_splitOn _

theorem lines_join {parts : List Text} (some_part : parts ≠ [])
    (clean : ∀ part ∈ parts, '\n' ∉ part) : lines (join parts) = parts :=
  List.splitOn_intercalate '\n' clean some_part

theorem not_mem_lines {text line : Text} (member : line ∈ lines text) : '\n' ∉ line := by
  unfold lines at member
  induction text generalizing line with
  | nil =>
    rw [List.splitOn_nil, List.mem_singleton] at member
    rw [member]
    exact List.not_mem_nil
  | cons c rest ih =>
    rw [List.splitOn_cons_eq_if_modifyHead] at member
    split at member
    · rcases List.mem_cons.mp member with rfl | later
      · exact List.not_mem_nil
      · exact ih later
    · rename_i other
      cases split_rest : rest.splitOn '\n' with
      | nil => exact absurd split_rest (List.splitOn_ne_nil _ _)
      | cons first more =>
        rw [split_rest, List.modifyHead_cons] at member
        rw [split_rest] at ih
        rcases List.mem_cons.mp member with rfl | later
        · have clean := ih List.mem_cons_self
          have different : '\n' ≠ c := fun same => other (beq_iff_eq.mpr same.symm)
          exact List.not_mem_cons_of_ne_of_not_mem different clean
        · exact ih (List.mem_cons_of_mem _ later)

theorem slice_sublist {α : Type} (items : List α) (start stop : Nat) :
    (slice items start stop).Sublist items :=
  (List.drop_sublist _ _).trans (List.take_sublist _ _)

theorem slice_map {α β : Type} (f : α → β) (items : List α) (start stop : Nat) :
    slice (items.map f) start stop = (slice items start stop).map f := by
  rw [slice, slice, List.map_drop, List.map_take]

/-- The stretch of lines between two positions in the list of lines. -/
theorem slice_lines {parts : List Text} {i n : Nat} (some_line : 0 < n) (fits : i + n ≤ parts.length) :
    let span := linePositions parts i (i + n) (join parts).length
    span.1 ≤ span.2 ∧ span.2 ≤ (join parts).length ∧
      slice (join parts) span.1 span.2 = join (slice parts i (i + n)) := by
  intro span
  have upto : parts.take i ++ slice parts i (i + n) = parts.take (i + n) := by
    have first : parts.take i = (parts.take (i + n)).take i := by
      rw [List.take_take, Nat.min_eq_left (by omega)]
    rw [first, slice, List.take_append_drop]
  have whole : parts.take (i + n) ++ parts.drop (i + n) = parts := List.take_append_drop _ _
  have some_middle : slice parts i (i + n) ≠ [] := by
    apply List.ne_nil_of_length_pos
    rw [slice, List.length_drop, List.length_take]
    omega
  have some_upto : parts.take (i + n) ≠ [] := by simp [← upto, some_middle]
  have extents := congrArg extent upto
  rw [extent_append] at extents
  have middle_extent := extent_pos some_middle
  have sized := length_intercalate '\n' some_upto
  have cut := take_intercalate '\n' some_upto (parts.drop (i + n))
  rw [whole] at cut
  have bound := congrArg List.length cut
  rw [List.length_take] at bound
  have ends : span.2 = extent (parts.take (i + n)) - 1 := by
    change min (extent (parts.take (i + n)) - 1) (join parts).length = _
    change min _ (join parts).length = _ at bound
    omega
  have starts : span.1 = extent (parts.take i) := rfl
  change min _ (join parts).length = _ at bound
  refine ⟨by omega, by omega, ?_⟩
  have stretch := slice_intercalate '\n' (parts.take i) some_middle (parts.drop (i + n))
  rw [upto, whole] at stretch
  rw [starts, ends]
  exact stretch

/-- A search by lines finds the regions whose lines normalise to those of the pattern. -/
theorem spans_of_lines {f : Text → Text} (clean : ∀ line, '\n' ∉ line → '\n' ∉ f line)
    {span : Span} (found : span ∈ findNormalizedMatches content (lines content)
      ((lines content).map f) (byLine f pattern)) : Describes (byLine f) content pattern span := by
  have clean_map : ∀ parts : List Text, (∀ part ∈ parts, '\n' ∉ part) →
      ∀ part ∈ parts.map f, '\n' ∉ part := by
    intro parts clean_parts part member
    obtain ⟨line, inside, rfl⟩ := List.mem_map.mp member
    exact clean line (clean_parts line inside)
  have counted : (lines (byLine f pattern)).length = (lines pattern).length := by
    rw [byLine, lines_join (by simp [lines_ne_nil])
      (clean_map _ fun _ member => not_mem_lines member), List.length_map]
  have some_line := List.length_pos_iff.mpr (lines_ne_nil pattern)
  unfold findNormalizedMatches at found
  obtain ⟨i, picked, rfl⟩ := List.mem_map.mp found
  obtain ⟨in_range, same⟩ := List.mem_filter.mp picked
  rw [List.mem_range, counted, List.length_map] at in_range
  rw [counted, beq_iff_eq, slice_map] at same
  have stretch := @slice_lines (lines content) _ _ some_line (by omega : i + _ ≤ _)
  rw [join_lines] at stretch
  obtain ⟨ordered, bounded, region⟩ := stretch
  rw [counted]
  refine ⟨ordered, bounded, ?_⟩
  have inside : ∀ part ∈ slice (lines content) i (i + (lines pattern).length), '\n' ∉ part :=
    fun part member => not_mem_lines ((slice_sublist _ _ _).subset member)
  have some_region : slice (lines content) i (i + (lines pattern).length) ≠ [] := by
    apply List.ne_nil_of_length_pos
    rw [slice, List.length_drop, List.length_take]
    omega
  rw [region, byLine, lines_join some_region inside]
  exact same

/-! ## The replacements -/

/-- The largest goes to the end of a list that goes down. -/
theorem orderedInsert_last {α : Type} {r : α → α → Prop} [DecidableRel r] {a : α} {items : List α}
    (above : ∀ b ∈ items, ¬r a b) : items.orderedInsert r a = items ++ [a] := by
  induction items with
  | nil => rfl
  | cons b rest ih =>
    rw [List.orderedInsert_cons, if_neg (above b List.mem_cons_self),
      ih fun c member => above c (List.mem_cons_of_mem _ member)]
    rfl

/-- Spans listed by their starts are worked through from the last one on. -/
theorem insertionSort_reverse {spans : List Span} (ascending : spans.Pairwise fun a b => a.1 < b.1) :
    (spans.insertionSort fun a b => b.1 ≤ a.1) = spans.reverse := by
  induction spans with
  | nil => rfl
  | cons first rest ih =>
    obtain ⟨below, later⟩ := List.pairwise_cons.mp ascending
    rw [List.insertionSort_cons, ih later, List.reverse_cons]
    apply orderedInsert_last
    intro span member
    have higher := below span (List.mem_reverse.mp member)
    omega

/-- An exact replacement, from the last span to the first. -/
theorem applyExact_eq (tables : Tables) (content oldString newString : Text) {spans : List Span}
    (ascending : spans.Pairwise fun a b => a.1 < b.1) :
    applyMatches tables "exact" content oldString newString spans =
      spans.foldr (fun span result => splice result span newString) content := by
  unfold applyMatches
  rw [insertionSort_reverse ascending]
  simp only [if_true, List.foldl_reverse]

end SherryAgent.Contracts.TextMatcher
