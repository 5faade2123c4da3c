import Mathlib.Tactic.IntervalCases
import SherryAgent.Contracts.TextMatcher

/-!
# Replacing every occurrence

With `replace_all` the matcher collects every occurrence of the old text, advancing one
character at a time, and splices the new text in from the last one to the first. That is
the leftmost non-overlapping replacement exactly when no two occurrences overlap.

* `replaces_all_iff` — for every content that holds the old text;
* `overlap_replaced_twice` — the text "aaa" with "aa" replaced.
-/

namespace SherryAgent.Guarantees.ReplaceAll

open SherryAgent.Library SherryAgent.Source SherryAgent.Source.TextMatcher
  SherryAgent.Contracts.TextMatcher

variable {content oldString newString text : Text}

/-- The outcome is that of `content.replace(old_string, new_string)`, with its count. -/
def ReplacesAll (tables : Tables) (content oldString newString : Text) : Prop :=
  ∃ outcome, fuzzyFindAndReplace tables content oldString newString true = some outcome ∧
    outcome.newContent = replace oldString newString content ∧
    outcome.matchCount = count oldString content

/-- The spans of the exact search go up. -/
theorem ascending_exact (nonempty : oldString ≠ []) :
    (strategyExact content oldString).Pairwise fun a b => a.1 < b.1 := by
  rw [strategyExact_eq nonempty, List.pairwise_map]
  exact pairwise_occurrences nonempty 0 content

/-- What the exact strategy makes of a content that holds the old text. -/
def exactOutcome (content oldString newString : Text) : Outcome where
  newContent := (strategyExact content oldString).foldr
    (fun span result => splice result span newString) content
  matchCount := (strategyExact content oldString).length
  strategy := some "exact"

theorem found_exact (nonempty : oldString ≠ []) (occurs : oldString <:+: content) :
    strategyExact content oldString ≠ [] := by
  obtain ⟨i, here⟩ := infix_iff_occursAt.mp occurs
  have member : (i, i + oldString.length) ∈ strategyExact content oldString :=
    (mem_strategyExact nonempty).mpr ⟨here, rfl⟩
  exact List.ne_nil_of_mem member

/-- The first strategy decides. -/
theorem tryStrategies_exact (tables : Tables) (nonempty : oldString ≠ [])
    (occurs : oldString <:+: content) (rest : List (String × Strategy)) :
    tryStrategies tables content oldString newString true
      (("exact", fun content pattern => some (strategyExact content pattern)) :: rest) =
        some (some (exactOutcome content oldString newString)) := by
  have precise : (true && broadMatchers.contains "exact") = false := by decide
  have single : ¬(1 < (strategyExact content oldString).length ∧ true = false) := by simp
  rw [tryStrategies, if_neg (Bool.eq_false_iff.mp precise)]
  change (if strategyExact content oldString = [] then _ else if _ then _ else _) = _
  rw [if_neg (found_exact nonempty occurs), if_neg single]
  change some (some _) = _
  rw [applyExact_eq tables content oldString newString (ascending_exact nonempty)]
  rfl

theorem fuzzy_exact (tables : Tables) (nonempty : oldString ≠ [])
    (different : oldString ≠ newString) (occurs : oldString <:+: content) :
    fuzzyFindAndReplace tables content oldString newString true =
      some (exactOutcome content oldString newString) := by
  have decided := @tryStrategies_exact _ _ newString tables nonempty occurs
    (strategies tables).tail
  unfold fuzzyFindAndReplace
  rw [if_neg nonempty, if_neg different]
  change (tryStrategies tables content oldString newString true
    (("exact", fun content pattern => some (strategyExact content pattern)) ::
      (strategies tables).tail)).bind _ = _
  rw [decided]
  rfl

/-! ## Apart, and only then -/

/-- A text whose occurrences stand apart is replaced from the right as from the left. -/
theorem splice_apart (newString : Text) (nonempty : oldString ≠ []) (fuel : Nat) (front text : Text)
    (fits : text.length ≤ fuel) (apart : Apart oldString text) :
    ((occurrences oldString front.length text).map fun i => (i, i + oldString.length)).foldr
        (fun span result => splice result span newString) (front ++ text) =
      front ++ PyText.replaceChars oldString newString fuel text := by
  induction fuel generalizing front text with
  | zero =>
    obtain rfl : text = [] := List.length_eq_zero_iff.mp (by omega)
    rw [occurrences_nil nonempty]
    rfl
  | succ fuel ih =>
    cases text with
    | nil =>
      rw [occurrences_nil nonempty]
      rfl
    | cons c rest =>
      rw [PyText.replaceChars]
      cases here : oldString.isPrefixOf (c :: rest) with
      | true =>
        obtain ⟨none_over, apart'⟩ := (apart_here nonempty here front.length).mp apart
        obtain ⟨tail, whole⟩ := List.isPrefixOf_iff_prefix.mp here
        have behind : (c :: rest).drop oldString.length = tail := by
          rw [← whole, List.drop_left]
        have shorter := congrArg List.length whole
        have some_length := List.length_pos_iff.mpr nonempty
        rw [List.length_append, List.length_cons] at shorter
        rw [List.length_cons] at fits
        have later := ih (front ++ oldString) tail (by omega) (behind ▸ apart')
        rw [List.length_append, List.append_assoc, List.append_assoc, whole] at later
        rw [occurrences_here nonempty here, none_over, List.nil_append, behind,
          List.map_cons, List.foldr_cons, later, if_pos rfl]
        simp [splice, List.drop_append]
      | false =>
        rw [List.length_cons] at fits
        have later := ih (front ++ [c]) rest (by omega) ((apart_cons here).mp apart)
        rw [List.length_append, List.append_assoc, List.append_assoc] at later
        rw [occurrences, here]
        simpa using later

/-- The exact search finds at least as many spans as are replaced from the left, and as
many only when the occurrences stand apart. -/
theorem count_apart (nonempty : oldString ≠ []) (fuel n : Nat) (text : Text)
    (fits : text.length ≤ fuel) :
    PyText.countChars oldString fuel text ≤ (occurrences oldString n text).length ∧
      ((occurrences oldString n text).length = PyText.countChars oldString fuel text ↔
        Apart oldString text) := by
  have trivially_apart : Apart oldString [] := by
    intro i j first
    have short := first.fits nonempty
    have some_length := List.length_pos_iff.mpr nonempty
    rw [List.length_nil] at short
    omega
  induction fuel generalizing n text with
  | zero =>
    obtain rfl : text = [] := List.length_eq_zero_iff.mp (by omega)
    rw [occurrences_nil nonempty]
    exact ⟨le_rfl, iff_of_true rfl trivially_apart⟩
  | succ fuel ih =>
    cases text with
    | nil =>
      rw [occurrences_nil nonempty]
      exact ⟨le_rfl, iff_of_true rfl trivially_apart⟩
    | cons c rest =>
      rw [PyText.countChars]
      have some_length := List.length_pos_iff.mpr nonempty
      rw [List.length_cons] at fits
      cases here : oldString.isPrefixOf (c :: rest) with
      | true =>
        have shorter : ((c :: rest).drop oldString.length).length ≤ fuel := by
          rw [List.length_drop, List.length_cons]
          omega
        obtain ⟨least, exactly⟩ := ih (n + oldString.length) _ shorter
        rw [occurrences_here nonempty here, if_pos rfl, apart_here nonempty here n, ← exactly,
          ← List.length_eq_zero_iff, List.length_cons, List.length_append]
        omega
      | false =>
        obtain ⟨least, exactly⟩ := ih (n + 1) rest (by omega)
        rw [occurrences, here, apart_cons here]
        exact ⟨least, exactly⟩

/-- For every content that holds the old text: replacing all of it is the leftmost
non-overlapping replacement, with its count, exactly when no two occurrences of the old
text in the content overlap. -/
theorem replaces_all_iff (tables : Tables) (content oldString newString : Text)
    (nonempty : oldString ≠ []) (different : oldString ≠ newString)
    (occurs : oldString <:+: content) :
    ReplacesAll tables content oldString newString ↔ Apart oldString content := by
  have outcome := fuzzy_exact tables nonempty different occurs
  obtain ⟨-, counted⟩ := count_apart nonempty content.length 0 content le_rfl
  have sized : (strategyExact content oldString).length =
      (occurrences oldString 0 content).length := by
    rw [strategyExact_eq nonempty, List.length_map]
  constructor
  · rintro ⟨result, replaced, -, total⟩
    obtain rfl := Option.some.inj (outcome.symm.trans replaced)
    exact counted.mp (sized.symm.trans total)
  · intro apart
    refine ⟨_, outcome, ?_, sized.trans (counted.mpr apart)⟩
    change (strategyExact content oldString).foldr _ content = _
    rw [strategyExact_eq nonempty]
    exact splice_apart newString nonempty content.length [] content le_rfl apart

/-- The tables of the letters and digits of the alphabet. -/
def asciiTables : Tables where
  isDigit := Char.isDigit
  isAlpha := Char.isAlpha
  ratio a b := if a = b then 1 else 0

/-- Two occurrences that stand apart, replaced by a longer text. -/
theorem apart_replaced :
    ReplacesAll asciiTables ['x', 'a', 'a', 'y', 'a', 'a'] ['a', 'a'] ['b', 'b', 'b'] := by
  refine (replaces_all_iff _ _ _ _ (by decide) (by decide) (by decide)).mpr ?_
  intro i j first second before
  have first_fits := first.fits (by decide)
  have second_fits := second.fits (by decide)
  simp only [List.length_cons, List.length_nil] at first_fits second_fits ⊢
  have bound : j ≤ 4 := by omega
  interval_cases j <;> interval_cases i <;> revert first second <;> decide

/-- Three letters hold the two-letter text twice: both overlapping occurrences are replaced,
one in what the other has left. -/
theorem overlap_replaced_twice :
    ['a', 'a'] <:+: ['a', 'a', 'a'] ∧
      ¬ReplacesAll asciiTables ['a', 'a', 'a'] ['a', 'a'] ['b'] := by
  refine ⟨by decide, ?_⟩
  rintro ⟨outcome, replaced, text, -⟩
  have result := @fuzzy_exact ['a', 'a', 'a'] ['a', 'a'] ['b'] asciiTables
    (by decide) (by decide) (by decide)
  obtain rfl := Option.some.inj (result.symm.trans replaced)
  revert text
  decide

end SherryAgent.Guarantees.ReplaceAll
