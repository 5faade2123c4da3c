import SherryAgent.Contracts.BlankRuns

/-!
# The spans of the rewriting strategies

A strategy that searches in a normalised text maps what it finds back to the content. The
two searches by lines find exactly regions the pattern describes. The other two go wrong
at the ends: a match behind a run of blanks with a space before its last blank begins in
that run, and a match that ends inside the replacement of a character ends behind it.

* `spans_described_iff` — all four strategies, for every content and non-empty pattern;
* `blank_swallowed` — a blank before the match is overwritten.
-/

namespace SherryAgent.Guarantees.MatchedSpans

open SherryAgent.Library SherryAgent.Source SherryAgent.Source.TextMatcher
  SherryAgent.Contracts.TextMatcher SherryAgent.Contracts.BlankRuns

variable {content pattern text x y z : Text} {n ns ne limit : Nat} {c : Char}

/-! ## The search by lines -/

theorem strip_sublist (line : Text) : (strip line).Sublist line := by
  unfold strip PyText.stripChars
  apply List.Sublist.trans _ (List.dropWhile_sublist PyText.isSpace)
  rw [← List.reverse_sublist, List.reverse_reverse]
  exact List.dropWhile_sublist _

theorem lineTrimmed_described {span : Span} (found : span ∈ strategyLineTrimmed content pattern) :
    Describes (byLine strip) content pattern span :=
  spans_of_lines (fun _ clean member => clean ((strip_sublist _).subset member)) found

theorem indentationFlexible_described {span : Span}
    (found : span ∈ strategyIndentationFlexible content pattern) :
    Describes (byLine lstrip) content pattern span :=
  spans_of_lines
    (fun _ clean member => clean ((List.dropWhile_sublist PyText.isSpace).subset member)) found

/-! ## The fixed character table -/

/-- What the table makes of a character. -/
def expand (c : Char) : Text := (replacement c).getD [c]

theorem replaceChars_single (a : Char) (new : Text) (fuel : Nat) (text : Text)
    (fits : text.length ≤ fuel) :
    PyText.replaceChars [a] new fuel text = text.flatMap fun c => if c = a then new else [c] := by
  induction fuel generalizing text with
  | zero =>
    obtain rfl : text = [] := List.length_eq_zero_iff.mp (by omega)
    rfl
  | succ fuel ih =>
    cases text with
    | nil => rfl
    | cons c rest =>
      rw [List.length_cons] at fits
      rw [PyText.replaceChars, List.flatMap_cons, List.length_singleton, List.drop_one,
        List.tail_cons, ih rest (by omega)]
      by_cases same : c = a
      · simp [same]
      · have other : ([a].isPrefixOf (c :: rest)) = false := by
          simp [List.isPrefixOf, Ne.symm same]
        simp [other, same]

theorem unicodeNormalize_flatMap (entries : List (Char × Text)) (text : Text) :
    entries.foldl (fun text entry => replace [entry.1] entry.2 text) text =
      text.flatMap fun c =>
        entries.foldl (fun text entry => replace [entry.1] entry.2 text) [c] := by
  induction entries generalizing text with
  | nil => simp
  | cons entry rest ih =>
    have step : ∀ text, replace [entry.1] entry.2 text =
        text.flatMap fun c => if c = entry.1 then entry.2 else [c] :=
      fun text => replaceChars_single _ _ _ _ le_rfl
    simp only [List.foldl_cons]
    rw [ih, step, List.flatMap_assoc]
    congr 1
    funext c
    rw [ih (replace _ _ [c]), step, List.flatMap_singleton]

theorem replace_absent {entries : List (Char × Text)} (absent : ∀ entry ∈ entries, entry.1 ≠ c) :
    entries.foldl (fun text entry => replace [entry.1] entry.2 text) [c] = [c] := by
  induction entries with
  | nil => rfl
  | cons entry rest ih =>
    have other := absent entry List.mem_cons_self
    have step : replace [entry.1] entry.2 [c] = [c] := by
      rw [replace, replaceChars_single _ _ _ _ le_rfl, List.flatMap_singleton, if_neg other.symm]
    rw [List.foldl_cons, step]
    exact ih fun later member => absent later (List.mem_cons_of_mem _ member)

/-- No replacement holds a character that is replaced. -/
theorem normalize_single (c : Char) : unicodeNormalize [c] = expand c := by
  by_cases listed : c ∈ unicodeMap.map (·.1)
  · have each : (unicodeMap.map (·.1)).all
        (fun c => decide (unicodeNormalize [c] = expand c)) = true := by decide
    exact of_decide_eq_true (List.all_eq_true.mp each c listed)
  · have absent : ∀ entry ∈ unicodeMap, entry.1 ≠ c :=
      fun entry member same => listed (same ▸ List.mem_map_of_mem member)
    have missing : unicodeMap.find? (·.1 == c) = none := by
      rw [List.find?_eq_none]
      intro entry member same
      exact absent entry member (beq_iff_eq.mp same)
    rw [unicodeNormalize, replace_absent absent, expand, replacement, missing]
    rfl

theorem unicodeNormalize_eq (text : Text) : unicodeNormalize text = text.flatMap expand := by
  rw [unicodeNormalize, unicodeNormalize_flatMap]
  congr 1
  funext c
  exact normalize_single c

theorem unicodeNormalize_append (x y : Text) :
    unicodeNormalize (x ++ y) = unicodeNormalize x ++ unicodeNormalize y := by
  simp only [unicodeNormalize_eq, List.flatMap_append]

theorem unicodeNormalize_cons (c : Char) (rest : Text) :
    unicodeNormalize (c :: rest) = expand c ++ unicodeNormalize rest := by
  simp only [unicodeNormalize_eq, List.flatMap_cons]

theorem expand_ne_nil (c : Char) : expand c ≠ [] := by
  by_cases listed : c ∈ unicodeMap.map (·.1)
  · have each : (unicodeMap.map (·.1)).all (fun c => decide (expand c ≠ [])) = true := by decide
    exact of_decide_eq_true (List.all_eq_true.mp each c listed)
  · have missing : unicodeMap.find? (·.1 == c) = none := by
      rw [List.find?_eq_none]
      intro entry member same
      exact listed (beq_iff_eq.mp same ▸ List.mem_map_of_mem member)
    simp [expand, replacement, missing]

theorem unicodeNormalize_ne_nil (some_char : text ≠ []) : unicodeNormalize text ≠ [] := by
  cases text with
  | nil => exact absurd rfl some_char
  | cons c rest => simp [unicodeNormalize_cons, expand_ne_nil]

/-! ## Where the characters begin in the normalised text -/

/-- The positions `_map_norm_to_orig` looks at. -/
def starts (n : Nat) (text : Text) : List Nat := (buildOrigToNormMap n text).dropLast

theorem starts_cons (n : Nat) (c : Char) (rest : Text) :
    starts n (c :: rest) = n :: starts (n + (expand c).length) rest := by
  have some_entry : ∀ m (text : Text), buildOrigToNormMap m text ≠ [] := by
    intro m text
    cases text <;> simp [buildOrigToNormMap]
  rw [starts, buildOrigToNormMap, List.dropLast_cons_of_ne_nil (some_entry _ _), starts, expand]
  cases replacement c <;> rfl

/-- A match that is not left out begins at the first character of the region. -/
theorem begins_of_firstAt {os : Nat} (found : firstAt (starts n text) ns = some os) :
    ∃ x y, text = x ++ y ∧ x.length = os ∧ n + (unicodeNormalize x).length = ns := by
  induction text generalizing n os with
  | nil => cases found
  | cons c rest ih =>
    rw [starts_cons, firstAt, List.findIdx?_cons] at found
    split at found
    · rename_i here
      cases found
      exact ⟨[], c :: rest, rfl, rfl, beq_iff_eq.mp here⟩
    · obtain ⟨later, further, rfl⟩ := Option.map_eq_some_iff.mp found
      obtain ⟨x, y, rfl, rfl, begins⟩ := ih further
      refine ⟨c :: x, y, rfl, rfl, ?_⟩
      rw [unicodeNormalize_cons, List.length_append]
      omega

theorem firstAt_begins (n : Nat) (x : Text) (some_char : y ≠ []) :
    firstAt (starts n (x ++ y)) (n + (unicodeNormalize x).length) = some x.length := by
  induction x generalizing n with
  | nil =>
    cases y with
    | nil => exact absurd rfl some_char
    | cons c rest =>
      rw [List.nil_append, starts_cons, firstAt, List.findIdx?_cons,
        if_pos (by simp [unicodeNormalize_eq])]
      rfl
  | cons d rest ih =>
    have some_length := List.length_pos_iff.mpr (expand_ne_nil d)
    have later := ih (n + (expand d).length)
    have differs : ¬((n == n + ((expand d).length + (unicodeNormalize rest).length)) = true) := by
      rw [beq_iff_eq]
      omega
    rw [firstAt, Nat.add_assoc] at later
    rw [List.cons_append, starts_cons, firstAt, List.findIdx?_cons, unicodeNormalize_cons,
      List.length_append, if_neg differs, later]
    rfl

theorem drop_starts (n : Nat) (x y : Text) :
    (starts n (x ++ y)).drop x.length = starts (n + (unicodeNormalize x).length) y := by
  induction x generalizing n with
  | nil => simp [unicodeNormalize_eq]
  | cons c rest ih =>
    rw [List.cons_append, starts_cons, List.length_cons, List.drop_succ_cons, ih,
      unicodeNormalize_cons, List.length_append, Nat.add_assoc]

/-- The region ends with the first character that reaches the end of the match. -/
theorem ends_of_takeWhile (reaches : limit ≤ n + (unicodeNormalize text).length) :
    ∃ y z, text = y ++ z ∧ ((starts n text).takeWhile (· < limit)).length = y.length ∧
      limit ≤ n + (unicodeNormalize y).length ∧
      (y = [] ∨ ∃ y' c, y = y' ++ [c] ∧ n + (unicodeNormalize y').length < limit) := by
  induction text generalizing n with
  | nil => exact ⟨[], [], rfl, rfl, reaches, .inl rfl⟩
  | cons c rest ih =>
    rw [unicodeNormalize_cons, List.length_append] at reaches
    rw [starts_cons, List.takeWhile_cons]
    by_cases inside : n < limit
    · obtain ⟨y, z, rfl, sized, covers, last⟩ := ih (n := n + (expand c).length) (by omega)
      refine ⟨c :: y, z, rfl, by simp [inside, sized], ?_, .inr ?_⟩
      · rw [unicodeNormalize_cons, List.length_append]
        omega
      · rcases last with rfl | ⟨y', d, rfl, before⟩
        · exact ⟨[], c, rfl, by simpa [unicodeNormalize_eq] using inside⟩
        · refine ⟨c :: y', d, rfl, ?_⟩
          rw [unicodeNormalize_cons, List.length_append]
          omega
    · refine ⟨[], c :: rest, rfl, by simp [inside], ?_, .inl rfl⟩
      simp only [unicodeNormalize_eq, List.flatMap_nil, List.length_nil]
      omega

/-- The first character that reaches the end of the match is the last one of the region. -/
theorem takeWhile_ends (before : n + (unicodeNormalize y).length < limit)
    (reaches : limit ≤ n + (unicodeNormalize y).length + (expand c).length) :
    ((starts n (y ++ c :: z)).takeWhile (· < limit)).length = y.length + 1 := by
  induction y generalizing n with
  | nil =>
    simp only [unicodeNormalize_eq, List.flatMap_nil, List.length_nil, Nat.add_zero] at before reaches
    rw [List.nil_append, starts_cons, List.takeWhile_cons, if_pos (by simpa using before)]
    cases z with
    | nil => rfl
    | cons d rest =>
      rw [starts_cons, List.takeWhile_cons, if_neg (by simpa using reaches)]
      rfl
  | cons d rest ih =>
    rw [unicodeNormalize_cons, List.length_append] at before reaches
    have later := ih (n := n + (expand d).length) (by omega) (by omega)
    have inside : decide (n < limit) = true := decide_eq_true (by omega)
    rw [List.cons_append, starts_cons, List.takeWhile_cons, if_pos inside, List.length_cons, later,
      List.length_cons]

theorem slice_middle (x y z : Text) :
    slice (x ++ (y ++ z)) x.length (x.length + y.length) = y := by
  rw [slice, List.take_length_add_append, List.take_left, List.drop_left]

theorem length_le_normalize (text : Text) : text.length ≤ (unicodeNormalize text).length := by
  induction text with
  | nil => exact Nat.zero_le _
  | cons c rest ih =>
    have some_length := List.length_pos_iff.mpr (expand_ne_nil c)
    rw [unicodeNormalize_cons, List.length_append, List.length_cons]
    omega

/-- Somewhere in the content the pattern, normalised, ends inside the replacement of a
character. -/
def Splits (content pattern : Text) : Prop :=
  ∃ x y c z w w', content = x ++ (y ++ c :: z) ∧
    unicodeNormalize pattern = unicodeNormalize y ++ w ∧ expand c = w ++ w' ∧ w ≠ [] ∧ w' ≠ []

theorem mem_mapNormToOrig {spots : List Span} {span : Span} :
    span ∈ mapNormToOrig (buildOrigToNormMap 0 content) spots ↔
      ∃ ns ne os, (ns, ne) ∈ spots ∧ firstAt (starts 0 content) ns = some os ∧
        span = (os, os + (((starts 0 content).drop os).takeWhile (· < ne)).length) := by
  unfold mapNormToOrig
  rw [List.mem_filterMap]
  constructor
  · rintro ⟨⟨ns, ne⟩, spot, mapped⟩
    obtain ⟨os, begins, rfl⟩ := Option.map_eq_some_iff.mp mapped
    exact ⟨ns, ne, os, spot, begins, rfl⟩
  · rintro ⟨ns, ne, os, spot, begins, rfl⟩
    exact ⟨(ns, ne), spot, Option.map_eq_some_iff.mpr ⟨os, begins, rfl⟩⟩

/-- A span of the unicode search, when the exact search on the normalised text matches. -/
theorem unicode_span (nonempty : pattern ≠ [])
    (exact : strategyExact (unicodeNormalize content) (unicodeNormalize pattern) ≠ [])
    {span : Span} (found : span ∈ strategyUnicodeNormalized content pattern) :
    ∃ x y' c z w', content = x ++ ((y' ++ [c]) ++ z) ∧
      span = (x.length, x.length + (y' ++ [c]).length) ∧
      unicodeNormalize (y' ++ [c]) = unicodeNormalize pattern ++ w' ∧
      (unicodeNormalize y').length < (unicodeNormalize pattern).length := by
  have nonempty' := unicodeNormalize_ne_nil nonempty
  unfold strategyUnicodeNormalized at found
  dsimp only at found
  split at found
  · cases found
  · obtain ⟨ns, ne, os, spot, begins, rfl⟩ := mem_mapNormToOrig.mp found
    obtain ⟨occurs, ends⟩ := (mem_strategyExact nonempty').mp spot
    obtain ⟨x, rest, rfl, rfl, placed⟩ := begins_of_firstAt begins
    rw [Nat.zero_add] at placed
    simp only at occurs ends
    rw [unicodeNormalize_append, OccursAt, ← placed, List.drop_left] at occurs
    have reaches : ne ≤ ns + (unicodeNormalize rest).length := by
      have short := occurs.length_le
      omega
    obtain ⟨y, z, rfl, sized, covers, last⟩ := ends_of_takeWhile reaches
    have some_length := List.length_pos_iff.mpr nonempty'
    have covered : unicodeNormalize pattern <+: unicodeNormalize y := by
      rw [unicodeNormalize_append] at occurs
      exact List.prefix_of_prefix_length_le occurs (List.prefix_append _ _) (by omega)
    obtain ⟨w', whole⟩ := covered
    rcases last with rfl | ⟨y', c, rfl, before⟩
    · rw [unicodeNormalize_eq [], List.flatMap_nil, List.append_eq_nil_iff] at whole
      exact absurd whole.1 nonempty'
    · refine ⟨x, y', c, z, w', rfl, ?_, whole.symm, by omega⟩
      rw [drop_starts, Nat.zero_add, placed, sized]

theorem unicode_described (nonempty : pattern ≠ []) (whole : ¬Splits content pattern)
    (exact : strategyExact (unicodeNormalize content) (unicodeNormalize pattern) ≠ [])
    {span : Span} (found : span ∈ strategyUnicodeNormalized content pattern) :
    Describes unicodeNormalize content pattern span := by
  obtain ⟨x, y', c, z, w', rfl, rfl, covers, before⟩ := unicode_span nonempty exact found
  refine ⟨by simp, by simp, ?_⟩
  rw [slice_middle, covers]
  by_contra extra
  have some_rest : w' ≠ [] := by
    rintro rfl
    exact extra (List.append_nil _)
  rw [unicodeNormalize_append, unicodeNormalize_cons, unicodeNormalize_eq [], List.flatMap_nil,
    List.append_nil] at covers
  have inside : unicodeNormalize y' <+: unicodeNormalize pattern :=
    List.prefix_of_prefix_length_le (List.prefix_append _ (expand c))
      (covers ▸ List.prefix_append _ _) before.le
  obtain ⟨w, split_at⟩ := inside
  rw [← split_at, List.append_assoc] at covers
  refine whole ⟨x, y', c, z, w, w', by simp, split_at.symm, List.append_cancel_left covers, ?_,
    some_rest⟩
  rintro rfl
  rw [← split_at, List.append_nil] at before
  exact absurd before (lt_irrefl _)

/-- A match that ends inside a replacement is mapped to a region that ends behind it. -/
theorem unicode_spoiled (nonempty : pattern ≠ []) (splits : Splits content pattern) :
    strategyExact (unicodeNormalize content) (unicodeNormalize pattern) ≠ [] ∧
      ∃ span ∈ strategyUnicodeNormalized content pattern,
        ¬Describes unicodeNormalize content pattern span := by
  obtain ⟨x, y, c, z, w, w', rfl, parts, replaced, some_w, some_w'⟩ := splits
  have nonempty' := unicodeNormalize_ne_nil nonempty
  have w_length := List.length_pos_iff.mpr some_w
  have w'_length := List.length_pos_iff.mpr some_w'
  have sizes := congrArg List.length parts
  have replaced_size := congrArg List.length replaced
  rw [List.length_append] at sizes replaced_size
  have spot : ((unicodeNormalize x).length,
      (unicodeNormalize x).length + (unicodeNormalize pattern).length) ∈
        strategyExact (unicodeNormalize (x ++ (y ++ c :: z))) (unicodeNormalize pattern) := by
    refine (mem_strategyExact nonempty').mpr ⟨?_, rfl⟩
    rw [OccursAt, unicodeNormalize_append, List.drop_left, unicodeNormalize_append,
      unicodeNormalize_cons, parts, replaced]
    exact ⟨w' ++ unicodeNormalize z, by simp⟩
  have exact := List.ne_nil_of_mem spot
  have changed : unicodeNormalize (x ++ (y ++ c :: z)) ≠ x ++ (y ++ c :: z) := by
    intro same
    have lengths := congrArg List.length same
    rw [unicodeNormalize_append, unicodeNormalize_append, unicodeNormalize_cons] at lengths
    simp only [List.length_append, List.length_cons] at lengths
    have hx := length_le_normalize x
    have hy := length_le_normalize y
    have hz := length_le_normalize z
    omega
  refine ⟨exact, (x.length, x.length + (y.length + 1)), ?_, ?_⟩
  · unfold strategyUnicodeNormalized
    dsimp only
    rw [if_neg (fun guard => changed guard.1), if_neg exact]
    have begins := firstAt_begins 0 x (y := y ++ c :: z) (by simp)
    rw [Nat.zero_add] at begins
    refine mem_mapNormToOrig.mpr ⟨_, _, x.length, spot, begins, ?_⟩
    rw [drop_starts, Nat.zero_add, takeWhile_ends (by omega) (by omega)]
  · rintro ⟨-, -, same⟩
    have cut : slice (x ++ (y ++ c :: z)) x.length (x.length + (y.length + 1)) = y ++ [c] := by
      have middle := slice_middle x (y ++ [c]) z
      simpa using middle
    rw [cut, unicodeNormalize_append, unicodeNormalize_cons, unicodeNormalize_eq [],
      List.flatMap_nil, List.append_nil] at same
    have lengths := congrArg List.length same
    rw [List.length_append] at lengths
    omega

/-! ## Runs of blanks -/

/-- Somewhere in the content a text that collapses to what the pattern collapses to begins
with no blank, right behind a run of blanks that goes on behind a space. -/
def Swallows (content pattern : Text) : Prop :=
  ∃ x y z, content = x ++ (y ++ z) ∧ collapse y = collapse pattern ∧ Spills x ∧
    (∀ c ∈ y.head?, isBlank c = false) ∧ Cut y z

/-- The parts of the content around one match. -/
structure Around (content pattern x y z : Text) (t : Nat) : Prop where
  whole : content = x ++ (y ++ z)
  same : collapse y = collapse pattern
  front : Cut x (y ++ z)
  back : Cut y z
  before : x = [] ∧ t = 0 ∨ Tail x t

/-- Every match of the collapsed pattern stands between two cuts. -/
theorem exists_around (nonempty : pattern ≠ []) {span : Span}
    (spot : span ∈ strategyExact (collapse content) (collapse pattern)) :
    ∃ x y z t, Around content pattern x y z t ∧
      span = ((collapse x).length, (collapse x).length + (collapse y).length) := by
  obtain ⟨occurs, ends⟩ := (mem_strategyExact (collapse_ne_nil nonempty)).mp spot
  have fits := occurs.fits (collapse_ne_nil nonempty)
  obtain ⟨x, rest, rfl, sized, front⟩ := exists_cut false content span.1
    (Nat.le_of_add_right_le fits)
  change (collapse x).length = span.1 at sized
  rw [collapse_append front, OccursAt, ← sized, List.drop_left] at occurs
  obtain ⟨y, z, rfl, sized', back⟩ := exists_cut false rest (collapse pattern).length
    occurs.length_le
  change (collapse y).length = _ at sized'
  rw [collapse_append back] at occurs
  have same : collapse y = collapse pattern :=
    (List.prefix_of_prefix_length_le occurs (List.prefix_append _ _) sized'.ge).eq_of_length
      sized'.symm |>.symm
  have known : ∃ t, x = [] ∧ t = 0 ∨ Tail x t := by
    by_cases nothing : x = []
    · exact ⟨0, .inl ⟨nothing, rfl⟩⟩
    · obtain ⟨t, tail⟩ := exists_tail nothing
      exact ⟨t, .inr tail⟩
  obtain ⟨t, before⟩ := known
  refine ⟨x, y, z, t, ⟨rfl, same, front, back, before⟩, ?_⟩
  rw [sized', sized, ← ends]

/-- The region of a match: the text between the cuts, up to blanks at its end, and the blanks
that have spilled over in front of it. -/
theorem Around.span {x y z : Text} {t : Nat} (around : Around content pattern x y z t)
    (nonempty : pattern ≠ []) :
    ∃ e y', mapWhitespacePosition content (collapse content) (places .outside 0 content)
        ((collapse x).length, (collapse x).length + (collapse y).length) = some (x.length - t, e) ∧
      x.length - t ≤ e ∧ e ≤ content.length ∧
      slice content (x.length - t) e = x.drop (x.length - t) ++ y' ∧
      collapse y' = collapse pattern ∧ y'.head? = y.head? := by
  obtain ⟨rfl, same, front, back, before⟩ := around
  have some_char : y ≠ [] := by
    rintro rfl
    exact collapse_ne_nil nonempty same.symm
  obtain ⟨s, tail⟩ := exists_tail some_char
  obtain ⟨e, mapped, ends⟩ := mapWhitespacePosition_eq front back before tail
  have short := tail.short
  have cut_out : ∀ m ≤ y.length, slice (x ++ (y ++ z)) (x.length - t) (x.length + m) =
      x.drop (x.length - t) ++ y.take m := by
    intro m bound
    rw [slice, List.take_length_add_append, List.take_append_of_le_length bound,
      List.drop_append_of_le_length (by omega)]
  rcases ends with rfl | rfl
  · refine ⟨_, y, mapped, by omega, by simp, ?_, same, rfl⟩
    rw [cut_out y.length le_rfl, List.take_length]
  · refine ⟨_, y.take (y.length - s), mapped, by omega, by simp; omega, cut_out _ (by omega), ?_, ?_⟩
    · rw [tail.same, same]
    · rw [List.head?_take, if_neg (by omega)]

theorem Around.described {x y z : Text} {t : Nat} (around : Around content pattern x y z t)
    (nonempty : pattern ≠ []) {span : Span}
    (mapped : mapWhitespacePosition content (collapse content) (places .outside 0 content)
        ((collapse x).length, (collapse x).length + (collapse y).length) = some span) :
    Describes collapse content pattern span ↔ t = 0 := by
  obtain ⟨e, y', mapped', ordered, bounded, region, same, head⟩ := around.span nonempty
  obtain rfl := Option.some.inj (mapped'.symm.trans mapped)
  unfold Describes
  rw [region]
  constructor
  · rintro ⟨-, -, described⟩
    by_contra some_blank
    rcases around.before with ⟨-, rfl⟩ | tail
    · exact some_blank rfl
    · have ended := tail.endsBlank (Nat.pos_of_ne_zero some_blank)
      have short := tail.short
      have plain : ∀ c ∈ y'.head?, isBlank c = false := by
        rcases around.front with open_end | plain
        · rw [open_end] at ended
          cases ended
        · have some_char : y ≠ [] := by
            rintro rfl
            exact collapse_ne_nil nonempty around.same.symm
          rw [head]
          intro c first
          refine plain c ?_
          rw [List.head?_append, Option.mem_def.mp first]
          rfl
      have some_left : x.drop (x.length - t) ≠ [] := by
        apply List.ne_nil_of_length_pos
        rw [List.length_drop]
        omega
      rw [collapse_append (.inr plain), collapse_run tail.blanks some_left, same] at described
      have lengths := congrArg List.length described
      simp at lengths
  · rintro rfl
    refine ⟨ordered, bounded, ?_⟩
    rw [Nat.sub_zero, List.drop_length, List.nil_append]
    exact same

theorem mapM_option {α β : Type} {f : α → Option β} {items : List α}
    (each : ∀ a ∈ items, ∃ b, f a = some b) :
    ∃ results, items.mapM f = some results ∧ ∀ b, b ∈ results ↔ ∃ a ∈ items, f a = some b := by
  induction items with
  | nil => exact ⟨[], rfl, by simp⟩
  | cons a rest ih =>
    obtain ⟨b, first⟩ := each a List.mem_cons_self
    obtain ⟨results, mapped, members⟩ := ih fun c member => each c (List.mem_cons_of_mem _ member)
    refine ⟨b :: results, by simp [List.mapM_cons, first, mapped], fun c => ?_⟩
    simp [members, first, eq_comm]

/-- For a pattern that is not empty the search returns, and maps every match. -/
theorem whitespace_returns (nonempty : pattern ≠ []) :
    ∃ spans, strategyWhitespaceNormalized content pattern = some spans ∧
      ∀ span, span ∈ spans ↔ ∃ spot ∈ strategyExact (collapse content) (collapse pattern),
        mapWhitespacePosition content (collapse content) (places .outside 0 content) spot =
          some span := by
  have mapped := @mapM_option _ _
    (mapWhitespacePosition content (collapse content) (places .outside 0 content))
    (strategyExact (collapse content) (collapse pattern)) fun spot member => by
      obtain ⟨x, y, z, t, around, rfl⟩ := exists_around nonempty member
      obtain ⟨e, -, mapped, -⟩ := around.span nonempty
      exact ⟨_, mapped⟩
  unfold strategyWhitespaceNormalized mapWhitespacePositions
  rw [places_of_collapse]
  exact mapped

theorem whitespace_described (nonempty : pattern ≠ []) :
    (∀ spans, strategyWhitespaceNormalized content pattern = some spans →
      ∀ span ∈ spans, Describes collapse content pattern span) ↔ ¬Swallows content pattern := by
  obtain ⟨spans, returned, members⟩ := @whitespace_returns content pattern nonempty
  constructor
  · rintro described ⟨x, y, z, rfl, same, spills, plain, back⟩
    have some_char : y ≠ [] := by
      rintro rfl
      exact collapse_ne_nil nonempty same.symm
    have front : Cut x (y ++ z) := by
      refine .inr fun c first => plain c ?_
      cases y with
      | nil => exact absurd rfl some_char
      | cons d rest => exact first
    have x_char : x ≠ [] := by
      obtain ⟨u, v, rfl, -⟩ := spills
      simp
    obtain ⟨t, tail⟩ := exists_tail x_char
    have around : Around (x ++ (y ++ z)) pattern x y z t := ⟨rfl, same, front, back, .inr tail⟩
    obtain ⟨e, -, mapped, -⟩ := around.span nonempty
    have spot : ((collapse x).length, (collapse x).length + (collapse y).length) ∈
        strategyExact (collapse (x ++ (y ++ z))) (collapse pattern) := by
      refine (mem_strategyExact (collapse_ne_nil nonempty)).mpr ⟨?_, by rw [same]⟩
      rw [OccursAt, collapse_append front, List.drop_left, collapse_append back, same]
      exact List.prefix_append _ _
    have found := (members _).mpr ⟨_, spot, mapped⟩
    have none_spilled := (around.described nonempty mapped).mp (described spans returned _ found)
    have some_spilled := tail.spills.mpr spills
    omega
  · intro whole spans' returned' span found
    obtain rfl := Option.some.inj (returned.symm.trans returned')
    obtain ⟨spot, member, mapped⟩ := (members span).mp found
    obtain ⟨x, y, z, t, around, rfl⟩ := exists_around nonempty member
    refine (around.described nonempty mapped).mpr ?_
    by_contra some_blank
    rcases around.before with ⟨-, nothing⟩ | tail
    · exact some_blank nothing
    · have spills := tail.spills.mp (Nat.pos_of_ne_zero some_blank)
      have ended := tail.endsBlank (Nat.pos_of_ne_zero some_blank)
      refine whole ⟨x, y, z, around.whole, around.same, spills, ?_, around.back⟩
      rcases around.front with open_end | plain
      · rw [open_end] at ended
        cases ended
      · intro c first
        refine plain c ?_
        rw [List.head?_append, Option.mem_def.mp first]
        rfl

/-! ## The four strategies -/

/-- Every span of a rewriting strategy is a region that normalises to what the pattern does;
for the character table, when its exact search on the normalised text matches. -/
def SpansDescribed (content pattern : Text) : Prop :=
  (∀ span ∈ strategyLineTrimmed content pattern, Describes (byLine strip) content pattern span) ∧
  (∀ span ∈ strategyIndentationFlexible content pattern,
    Describes (byLine lstrip) content pattern span) ∧
  (∀ spans, strategyWhitespaceNormalized content pattern = some spans →
    ∀ span ∈ spans, Describes collapse content pattern span) ∧
  (strategyExact (unicodeNormalize content) (unicodeNormalize pattern) ≠ [] →
    ∀ span ∈ strategyUnicodeNormalized content pattern,
      Describes unicodeNormalize content pattern span)

/-- For every content and every pattern the matcher is called with: the spans of the four
strategies are regions the pattern describes exactly when no match of the collapsed pattern
begins behind blanks that go on behind a space, and no match of the normalised pattern that
begins with a character of the content ends inside the replacement of one. -/
theorem spans_described_iff (content pattern : Text) (nonempty : pattern ≠ []) :
    SpansDescribed content pattern ↔ ¬Swallows content pattern ∧ ¬Splits content pattern := by
  unfold SpansDescribed
  rw [whitespace_described nonempty]
  constructor
  · rintro ⟨-, -, blanks, table⟩
    refine ⟨blanks, fun splits => ?_⟩
    obtain ⟨exact, span, found, undescribed⟩ := unicode_spoiled nonempty splits
    exact undescribed (table exact span found)
  · rintro ⟨blanks, whole⟩
    refine ⟨fun span found => lineTrimmed_described found,
      fun span found => indentationFlexible_described found, blanks, ?_⟩
    exact fun exact span found => unicode_described nonempty whole exact found

/-- A line behind a tab. -/
theorem indented_described : SpansDescribed ['\t', 'a', 'b'] ['a', 'b'] := by
  refine (spans_described_iff ['\t', 'a', 'b'] ['a', 'b'] (by decide)).mpr ⟨?_, ?_⟩
  · rintro ⟨x, y, z, whole, -, ⟨u, v, rfl, -⟩, -⟩
    have inside : ' ' ∈ ['\t', 'a', 'b'] := by
      rw [whole]
      simp
    revert inside
    decide
  · rintro ⟨x, y, c, z, w, w', whole, -, replaced, some_w, some_w'⟩
    have inside : c ∈ ['\t', 'a', 'b'] := by
      rw [whole]
      simp
    have single : ∀ d ∈ ['\t', 'a', 'b'], (expand d).length = 1 := by simp [expand, replacement, unicodeMap]
    have sized := congrArg List.length replaced
    have w_length := List.length_pos_iff.mpr some_w
    have w'_length := List.length_pos_iff.mpr some_w'
    rw [single c inside, List.length_append] at sized
    omega

/-- Two spaces before the match: the second one is taken for part of it. -/
theorem blank_swallowed :
    strategyWhitespaceNormalized ['a', ' ', ' ', 'b', ' ', 'c'] ['b', '\t', 'c'] = some [(2, 6)] ∧
      ¬SpansDescribed ['a', ' ', ' ', 'b', ' ', 'c'] ['b', '\t', 'c'] := by
  have returned : strategyWhitespaceNormalized ['a', ' ', ' ', 'b', ' ', 'c'] ['b', '\t', 'c'] =
      some [(2, 6)] := by decide
  refine ⟨returned, fun described => ?_⟩
  have region := described.2.2.1 [(2, 6)] returned (2, 6) (by simp)
  revert region
  unfold Describes
  decide

end SherryAgent.Guarantees.MatchedSpans
