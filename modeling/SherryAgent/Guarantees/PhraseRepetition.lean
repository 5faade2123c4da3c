import SherryAgent.Source.RepetitionGuard.PhraseDetector

/-!
# The phrase detector

- `detect_iff`: the detector is right exactly when some repetition, if there is one, starts before
  its own first phrase is over
- `late_repetition_missed`: a repetition behind a longer prefix goes unseen
-/

namespace SherryAgent.Guarantees.PhraseRepetition

open SherryAgent.Source SherryAgent.Source.RepetitionGuard

variable {content pattern before phrase after : List Char} {minRepeats maxPhrase plen start : Nat}

/-- The phrase stands `minRepeats` times in a row behind `before`. -/
structure Repetition (content : List Char) (minRepeats maxPhrase : Nat)
    (before phrase after : List Char) : Prop where
  least : 2 ≤ phrase.length
  most : phrase.length ≤ maxPhrase
  visible : PyText.stripChars PyText.isSpace phrase ≠ []
  stands : content = before ++ (List.replicate minRepeats phrase).flatten ++ after

/-- Somewhere in the text a phrase repeats. -/
def Repetitive (content : List Char) (minRepeats maxPhrase : Nat) : Prop :=
  ∃ before phrase after, Repetition content minRepeats maxPhrase before phrase after

/-- A phrase repeats and its first occurrence starts at an offset below its own length. -/
def RepetitiveEarly (content : List Char) (minRepeats maxPhrase : Nat) : Prop :=
  ∃ before phrase after, Repetition content minRepeats maxPhrase before phrase after ∧
    before.length < phrase.length

/-! ## The greedy count -/

theorem append_prefix_iff {rest : List Char} :
    pattern ++ rest <+: content ↔
      content.take pattern.length = pattern ∧ rest <+: content.drop pattern.length := by
  constructor
  · intro starts
    obtain ⟨tail, rfl⟩ := starts
    rw [List.append_assoc]
    exact ⟨List.take_left, by simp⟩
  · intro parts
    obtain ⟨first, tail, rest_of⟩ := parts
    have whole := List.take_append_drop pattern.length content
    rw [first] at whole
    exact ⟨tail, by rw [List.append_assoc, rest_of, whole]⟩

/-- One more block of the loop. -/
theorem block_iff (sized : pattern.length = plen) (positive : 0 < plen) {pos : Nat} :
    (pos + plen ≤ content.length ∧ slice content pos (pos + plen) = pattern) ↔
      (content.drop pos).take plen = pattern := by
  unfold slice
  rw [Nat.add_sub_cancel_left]
  constructor
  · intro block
    exact block.2
  · intro block
    have length := congrArg List.length block
    rw [List.length_take, List.length_drop, sized] at length
    exact ⟨by omega, block⟩

/-- The loop counts `count` more blocks if and only if that many follow. -/
theorem le_countRepeats_iff (sized : pattern.length = plen) (positive : 0 < plen)
    {fuel pos : Nat} (enough : content.length ≤ pos + fuel) (repeats count : Nat) :
    repeats + count ≤ countRepeats content pattern plen fuel pos repeats ↔
      (List.replicate count pattern).flatten <+: content.drop pos := by
  induction fuel generalizing pos repeats count with
  | zero =>
    have ended : content.drop pos = [] := List.drop_eq_nil_of_le (by omega)
    rw [countRepeats, ended, List.prefix_nil]
    cases count with
    | zero => simp
    | succ count =>
      have positive : pattern ≠ [] := List.ne_nil_of_length_pos (by omega)
      simp [List.replicate_succ, positive]
  | succ fuel ih =>
    rw [countRepeats]
    cases count with
    | zero =>
      split
      · rename_i block
        have further := (@ih (pos + plen) (by omega) (repeats + 1) 0).mpr List.nil_prefix
        simp only [List.replicate_zero, List.flatten_nil, List.nil_prefix, iff_true]
        omega
      · simp
    | succ count =>
      rw [List.replicate_succ, List.flatten_cons, append_prefix_iff, sized, List.drop_drop]
      split
      · rename_i block
        have further := @ih (pos + plen) (by omega) (repeats + 1) count
        rw [← further, (block_iff sized positive).mp block]
        simp only [true_and]
        rw [Nat.add_right_comm, Nat.add_assoc]
      · rename_i differs
        rw [block_iff sized positive] at differs
        simp only [differs, false_and, iff_false]
        omega

/-! ## The scan -/

/-- The body of the loops finds the repetitions that start at its offset. -/
theorem repeatsAt_iff (two : 2 ≤ minRepeats) (least : 2 ≤ plen)
    (room : start + plen * minRepeats ≤ content.length) :
    repeatsAt content minRepeats plen start = true ↔
      ∃ phrase, phrase.length = plen ∧ PyText.stripChars PyText.isSpace phrase ≠ [] ∧
        (List.replicate minRepeats phrase).flatten <+: content.drop start := by
  obtain ⟨more, rfl⟩ : ∃ more, minRepeats = 1 + more := ⟨minRepeats - 1, by omega⟩
  have once : plen * 1 ≤ plen * (1 + more) := Nat.mul_le_mul_left plen (by omega)
  have first : slice content start (start + plen) = (content.drop start).take plen := by
    rw [slice, Nat.add_sub_cancel_left]
  have sized : (slice content start (start + plen)).length = plen := by
    rw [first, List.length_take, List.length_drop]
    omega
  have counted := le_countRepeats_iff sized (by omega)
    (show content.length ≤ start + plen + content.length by omega) 1 more
  unfold repeatsAt
  constructor
  · intro repeated
    dsimp only at repeated
    split at repeated
    · cases repeated
    · rename_i visible
      apply Exists.intro (slice content start (start + plen))
      rw [decide_eq_true_iff, counted] at repeated
      refine ⟨sized, visible, ?_⟩
      rw [Nat.add_comm, List.replicate_succ, List.flatten_cons, append_prefix_iff, sized,
        List.drop_drop]
      exact ⟨first.symm, repeated⟩
  · intro found
    obtain ⟨phrase, length, visible, stands⟩ := found
    rw [Nat.add_comm 1, List.replicate_succ, List.flatten_cons, append_prefix_iff, length,
      List.drop_drop] at stands
    have same : slice content start (start + plen) = phrase := first.trans stands.1
    rw [same] at counted ⊢
    dsimp only
    rw [if_neg visible, decide_eq_true_iff, counted]
    exact stands.2

theorem length_replicate_flatten (count : Nat) :
    (List.replicate count pattern).flatten.length = pattern.length * count := by
  induction count with
  | zero => rfl
  | succ count ih =>
    rw [List.replicate_succ, List.flatten_cons, List.length_append, ih, Nat.mul_succ, Nat.add_comm]

theorem Repetition.length (repetition : Repetition content minRepeats maxPhrase before phrase after) :
    content.length = before.length + phrase.length * minRepeats + after.length := by
  rw [repetition.stands, List.length_append, List.length_append, length_replicate_flatten]

/-- The scan reports the repetitions that start early. -/
theorem detect_early (two : 2 ≤ minRepeats) :
    detect content minRepeats maxPhrase = true ↔
      RepetitiveEarly (withoutBlanks content) minRepeats maxPhrase := by
  unfold detect
  generalize withoutBlanks content = content
  dsimp only
  constructor
  · intro detected
    split at detected
    · cases detected
    · obtain ⟨plen, lengths, detected⟩ := List.any_eq_true.mp detected
      obtain ⟨start, starts, detected⟩ := List.any_eq_true.mp detected
      rw [List.mem_range'_1] at lengths
      rw [List.mem_range] at starts
      have fits : plen * minRepeats ≤ content.length := by
        have bound : plen ≤ content.length / minRepeats := by omega
        exact (Nat.le_div_iff_mul_le (by omega)).mp bound
      obtain ⟨phrase, length, visible, tail, stands⟩ :=
        (repeatsAt_iff two lengths.1 (by omega)).mp detected
      refine ⟨content.take start, phrase, tail, ⟨by omega, by omega, visible, ?_⟩, ?_⟩
      · rw [List.append_assoc, stands, List.take_append_drop]
      · rw [List.length_take]
        omega
  · intro early
    obtain ⟨before, phrase, after, repetition, early⟩ := early
    have length := repetition.length
    have least := repetition.least
    have most := repetition.most
    have twice : 2 * minRepeats ≤ phrase.length * minRepeats :=
      Nat.mul_le_mul_right minRepeats least
    have fits : phrase.length ≤ content.length / minRepeats :=
      (Nat.le_div_iff_mul_le (by omega)).mpr (by omega)
    rw [if_neg (by omega), List.any_eq_true]
    refine ⟨phrase.length, List.mem_range'_1.mpr (by omega), ?_⟩
    rw [List.any_eq_true]
    refine ⟨before.length, List.mem_range.mpr (by omega), ?_⟩
    rw [repeatsAt_iff two least (by omega)]
    refine ⟨phrase, rfl, repetition.visible, after, ?_⟩
    rw [repetition.stands, List.append_assoc, List.drop_left]

/-! ## Which texts are judged rightly -/

/-- The detector is right about a text exactly when the text has no repetition or has one that
starts before its own first phrase is over. -/
theorem detect_iff (content : List Char) (minRepeats maxPhrase : Nat) (two : 2 ≤ minRepeats) :
    (detect content minRepeats maxPhrase = true ↔
        Repetitive (withoutBlanks content) minRepeats maxPhrase) ↔
      (Repetitive (withoutBlanks content) minRepeats maxPhrase →
        RepetitiveEarly (withoutBlanks content) minRepeats maxPhrase) := by
  rw [detect_early two]
  constructor
  · intro right
    exact right.mpr
  · intro reaches
    constructor
    · intro early
      obtain ⟨before, phrase, after, repetition, -⟩ := early
      exact ⟨before, phrase, after, repetition⟩
    · exact reaches

theorem detect_iff_stutter :
    2 ≤ 5 ∧
      ((detect "hahahahahaha".toList 5 10 = true ↔
          Repetitive (withoutBlanks "hahahahahaha".toList) 5 10) ↔
        (Repetitive (withoutBlanks "hahahahahaha".toList) 5 10 →
          RepetitiveEarly (withoutBlanks "hahahahahaha".toList) 5 10)) :=
  ⟨by decide, detect_iff "hahahahahaha".toList 5 10 (by decide)⟩

/-- A prefix of eleven characters hides five repetitions of a phrase of two. -/
theorem late_repetition_missed :
    ¬(detect "0123456789:hahahahaha".toList 5 10 = true ↔
      Repetitive (withoutBlanks "0123456789:hahahahaha".toList) 5 10) := by
  intro right
  have missed : ¬detect "0123456789:hahahahaha".toList 5 10 = true := by decide
  apply missed
  rw [right]
  exact ⟨"0123456789:".toList, "ha".toList, [], by decide, by decide, by decide, by decide⟩

end SherryAgent.Guarantees.PhraseRepetition
