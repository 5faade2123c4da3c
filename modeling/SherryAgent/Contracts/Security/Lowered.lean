import SherryAgent.Library.Spelling
import SherryAgent.Source.Security.ThinkScrub

/-!
# Searching the lower-cased copy of a text

The scrubber looks for its tags in `text.lower()`. One character, U+0130, becomes two there, so a
position in the copy is the length of the copy of what stands before it, and the tags found are
those the text spells up to `lower`.
-/

namespace SherryAgent.Contracts.Security

open SherryAgent.Library SherryAgent.Source SherryAgent.Source.Security

variable {needle text u v : List Char} {c : Char}

theorem lowered_cons : lowered (c :: text) = PyText.lowerChar c ++ lowered text := rfl

theorem lowered_append : lowered (u ++ v) = lowered u ++ lowered v := List.flatMap_append

/-- The one character whose lower case is two characters. -/
def dottedI : Char := Char.ofNat 0x130

/-- The second of these two. -/
def combiningDot : Char := Char.ofNat 0x307

/-- The character's lower case is the given one. -/
def folded (c t : Char) : Bool := PyText.lowerChar c == [t]

/-- No part of the needle can match half of the two characters of U+0130. -/
structure Whole (needle : List Char) : Prop where
  noDot : combiningDot ∉ needle
  noEnd : needle.getLast? ≠ some 'i'

theorem lowerChar_dottedI : PyText.lowerChar dottedI = ['i', combiningDot] := by decide

theorem lowerChar_cases (c : Char) : c = dottedI ∨ ∃ t, PyText.lowerChar c = [t] := by
  unfold PyText.lowerChar
  split
  · exact .inr ⟨_, rfl⟩
  · split
    · rename_i same
      left
      exact Char.toNat_inj.mp (beq_iff_eq.mp same)
    · exact .inr ⟨_, rfl⟩

theorem folded_functional (c m n : Char) (first : folded c m = true) (second : folded c n = true) :
    m = n := by
  have same : [m] = [n] := (beq_iff_eq.mp first).symm.trans (beq_iff_eq.mp second)
  exact List.head_eq_of_cons_eq same

theorem not_folded_dottedI (t : Char) : folded dottedI t = false := by
  unfold folded
  rw [lowerChar_dottedI]
  simp

theorem Whole.tail {t : Char} (whole : Whole (t :: needle)) : Whole needle := by
  constructor
  · intro member
    exact whole.noDot (List.mem_cons_of_mem t member)
  · intro last
    apply whole.noEnd
    cases needle with
    | nil => cases last
    | cons s rest => simpa using last

/-- The needle starts the copy if and only if the text spells it. -/
theorem isPrefixOf_lowered (whole : Whole needle) :
    needle.isPrefixOf (lowered text) = spelled folded needle text := by
  induction needle generalizing text with
  | nil => simp [spelled]
  | cons t needle ih =>
    cases text with
    | nil => rfl
    | cons c text =>
      rw [lowered_cons, spelled]
      cases lowerChar_cases c with
      | inl dotted =>
        subst dotted
        rw [not_folded_dottedI, lowerChar_dottedI, Bool.false_and]
        apply Bool.eq_false_iff.mpr
        intro starts
        simp only [List.cons_append, List.nil_append, List.isPrefixOf, Bool.and_eq_true,
          beq_iff_eq] at starts
        cases needle with
        | nil => exact whole.noEnd (by simp [starts.1])
        | cons s rest =>
          simp only [List.isPrefixOf, Bool.and_eq_true, beq_iff_eq] at starts
          exact whole.noDot (by simp [starts.2.1])
      | inr single =>
        obtain ⟨s, low⟩ := single
        rw [low, List.singleton_append, List.isPrefixOf, ih whole.tail, folded, low]
        congr 1
        simp [eq_comm]

/-! ## `find` -/

/-- Where the needle does not start, the search goes on behind the character's lower case. -/
theorem find_lowered_cons (whole : Whole needle) (nonempty : needle ≠ [])
    (passed : spelled folded needle (c :: text) = false) :
    find needle (lowered (c :: text)) =
      (find needle (lowered text)).map (· + (PyText.lowerChar c).length) := by
  have first := @isPrefixOf_lowered needle (c :: text) whole
  rw [passed] at first
  rw [lowered_cons] at first ⊢
  cases lowerChar_cases c with
  | inl dotted =>
    subst dotted
    rw [lowerChar_dottedI] at first ⊢
    have second : needle.isPrefixOf (combiningDot :: lowered text) = false := by
      cases needle with
      | nil => exact absurd rfl nonempty
      | cons t needle =>
        have differs : t ≠ combiningDot := by
          intro same
          exact whole.noDot (by simp [same])
        simp [List.isPrefixOf, differs]
    rw [List.cons_append, List.cons_append, List.nil_append] at first ⊢
    rw [find, if_neg (by simp [first]), find, if_neg (by simp [second]), Option.map_map]
    rfl
  | inr single =>
    obtain ⟨s, low⟩ := single
    rw [low, List.singleton_append] at first ⊢
    rw [find, if_neg (by simp [first])]
    rfl

theorem find_lowered_none (whole : Whole needle) (nonempty : needle ≠ [])
    (nowhere : ∀ i, spelled folded needle (text.drop i) = false) :
    find needle (lowered text) = none := by
  induction text with
  | nil => rfl
  | cons c text ih =>
    rw [find_lowered_cons whole nonempty (nowhere 0), ih fun i => nowhere (i + 1)]
    rfl

theorem find_lowered_some (whole : Whole needle) (nonempty : needle ≠ [])
    (here : spelled folded needle v = true)
    (earlier : ∀ i < u.length, spelled folded needle ((u ++ v).drop i) = false) :
    find needle (lowered (u ++ v)) = some (lowered u).length := by
  induction u with
  | nil =>
    rw [List.nil_append]
    cases v with
    | nil =>
      have fits := spelled_length here
      exact absurd (List.eq_nil_of_length_eq_zero (Nat.le_zero.mp fits)) nonempty
    | cons c v =>
      have starts : needle.isPrefixOf (lowered (c :: v)) = true :=
        (isPrefixOf_lowered whole).trans here
      cases low : lowered (c :: v) with
      | nil =>
        rw [low] at starts
        exact absurd (List.prefix_nil.mp (List.isPrefixOf_iff_prefix.mp starts)) nonempty
      | cons d rest =>
        rw [low] at starts
        rw [find, if_pos starts]
        rfl
  | cons c u ih =>
    have passed : spelled folded needle (c :: (u ++ v)) = false := earlier 0 (by simp)
    have later : ∀ i < u.length, spelled folded needle ((u ++ v).drop i) = false := by
      intro i inside
      exact earlier (i + 1) (by simpa using inside)
    rw [List.cons_append, find_lowered_cons whole nonempty passed, ih later, lowered_cons,
      List.length_append, Nat.add_comm]
    rfl

/-- What `find` returns is the place of a spelling. -/
theorem exists_of_find_lowered (whole : Whole needle) (nonempty : needle ≠ []) {i : Nat}
    (found : find needle (lowered text) = some i) :
    ∃ u v, text = u ++ v ∧ i = (lowered u).length ∧ spelled folded needle v = true := by
  induction text generalizing i with
  | nil => cases found
  | cons c text ih =>
    cases starts : spelled folded needle (c :: text) with
    | true =>
      have first := find_lowered_some (u := []) whole nonempty starts (by simp)
      rw [List.nil_append, found] at first
      exact ⟨[], c :: text, rfl, Option.some.inj first, starts⟩
    | false =>
      rw [find_lowered_cons whole nonempty starts, Option.map_eq_some_iff] at found
      obtain ⟨j, found, rfl⟩ := found
      obtain ⟨u, v, rfl, rfl, here⟩ := ih found
      refine ⟨c :: u, v, rfl, ?_, here⟩
      rw [lowered_cons, List.length_append, Nat.add_comm]

/-! ## Positions -/

theorem length_lowered_le : text.length ≤ (lowered text).length := by
  induction text with
  | nil => exact Nat.le_refl 0
  | cons c text ih =>
    rw [lowered_cons, List.length_append, List.length_cons]
    cases lowerChar_cases c with
    | inl dotted =>
      rw [dotted, lowerChar_dottedI]
      simp only [List.length_cons, List.length_nil]
      omega
    | inr single =>
      obtain ⟨s, low⟩ := single
      rw [low, List.length_singleton]
      omega

theorem length_lowered_append :
    (lowered (u ++ v)).length = (lowered u).length + (lowered v).length := by
  rw [lowered_append, List.length_append]

/-- Positions agree as long as no U+0130 stands before them. -/
theorem length_lowered_iff : (lowered text).length = text.length ↔ dottedI ∉ text := by
  induction text with
  | nil => simp [lowered]
  | cons c text ih =>
    have least := @length_lowered_le text
    rw [lowered_cons, List.length_append, List.length_cons,
      List.mem_cons, not_or, ← ih]
    cases lowerChar_cases c with
    | inl dotted =>
      rw [dotted, lowerChar_dottedI]
      simp only [List.length_cons, List.length_nil, ne_eq, not_true, false_and, iff_false]
      omega
    | inr single =>
      obtain ⟨s, low⟩ := single
      have plain : dottedI ≠ c := by
        intro same
        rw [← same, lowerChar_dottedI] at low
        cases low
      rw [low, List.length_singleton]
      simp only [plain, not_false_eq_true, true_and]
      omega

theorem not_mem_of_spelled (starts : spelled folded needle text = true)
    (covers : text.length ≤ needle.length) : dottedI ∉ text := by
  induction needle generalizing text with
  | nil =>
    rw [List.eq_nil_of_length_eq_zero (Nat.le_zero.mp covers)]
    exact List.not_mem_nil
  | cons t needle ih =>
    cases text with
    | nil => exact List.not_mem_nil
    | cons c text =>
      simp only [spelled, Bool.and_eq_true] at starts
      intro member
      cases List.mem_cons.mp member with
      | inl same =>
        rw [← same, not_folded_dottedI] at starts
        cases starts.1
      | inr later => exact ih starts.2 (by simpa using covers) later

/-! ## `_longest_partial_suffix` -/

/-- Without U+0130 the copy is a prefix of the candidate if and only if the text spells a prefix. -/
theorem lowered_isPrefixOf (plain : dottedI ∉ text) :
    (lowered text).isPrefixOf needle = true ↔
      text.length ≤ needle.length ∧ spelled folded (needle.take text.length) text = true := by
  induction text generalizing needle with
  | nil => simp [lowered, spelled]
  | cons c text ih =>
    rw [List.mem_cons, not_or] at plain
    obtain ⟨s, low⟩ := (lowerChar_cases c).resolve_left (Ne.symm plain.1)
    rw [lowered_cons, low, List.singleton_append]
    cases needle with
    | nil => simp
    | cons t needle =>
      rw [List.isPrefixOf, Bool.and_eq_true, ih plain.2, List.length_cons, List.take_succ_cons,
        spelled, Bool.and_eq_true, folded, low]
      simp only [beq_iff_eq, List.cons.injEq, and_true, List.length_cons, Nat.add_le_add_iff_right]
      exact and_left_comm

theorem drop_lowered_of_plain (plain : dottedI ∉ v) :
    (lowered (u ++ v)).drop ((lowered (u ++ v)).length - v.length) = lowered v := by
  rw [← length_lowered_iff.mpr plain, length_lowered_append, Nat.add_sub_cancel, lowered_append,
    List.drop_left]

/-- A last part of the copy that is as long as a last part of the text and holds no combining dot
stands for a part without U+0130. -/
theorem plain_of_noDot (noDot : combiningDot ∉
      (lowered (u ++ v)).drop ((lowered (u ++ v)).length - v.length)) : dottedI ∉ v := by
  intro member
  apply noDot
  obtain ⟨later, before, reversed, last⟩ :=
    List.eq_append_cons_of_mem (List.mem_reverse.mpr member)
  have shape : v = before.reverse ++ dottedI :: later.reverse := by
    rw [← List.reverse_reverse v, reversed]
    simp
  have short : (lowered later.reverse).length = later.reverse.length :=
    length_lowered_iff.mpr fun inside => last (List.mem_reverse.mp inside)
  have copy : lowered (u ++ v) =
      (lowered u ++ lowered before.reverse ++ ['i']) ++ combiningDot :: lowered later.reverse := by
    rw [shape, lowered_append, lowered_append, lowered_cons, lowerChar_dottedI]
    simp
  have sized := congrArg List.length shape
  rw [copy, List.drop_append_of_le_length]
  · simp
  · simp only [List.length_append, List.length_cons, short] at sized ⊢
    omega

/-- The longest size in the range that passes, when `find?` looks from the longest down. -/
theorem find?_longest {passes : Nat → Bool} {most size : Nat}
    (found : (List.range' 1 most).reverse.find? passes = some size) :
    (1 ≤ size ∧ size ≤ most ∧ passes size = true) ∧
      ∀ bigger, size < bigger → bigger ≤ most → passes bigger = false := by
  obtain ⟨passed, larger, smaller, split_here, rejected⟩ := List.find?_eq_some_iff_append.mp found
  have descending : (List.range' 1 most).reverse.Pairwise (· > ·) :=
    List.pairwise_reverse.mpr (List.pairwise_lt_range' 1)
  have member : size ∈ (List.range' 1 most).reverse := by
    rw [split_here]
    simp
  rw [List.mem_reverse, List.mem_range'_1] at member
  refine ⟨⟨by omega, by omega, passed⟩, ?_⟩
  intro bigger above inside
  have listed : bigger ∈ larger ++ size :: smaller := by
    rw [← split_here, List.mem_reverse, List.mem_range'_1]
    omega
  rw [split_here] at descending
  cases List.mem_append.mp listed with
  | inl larger_one => simpa using rejected bigger larger_one
  | inr rest =>
    have below := (List.pairwise_cons.mp (List.pairwise_append.mp descending).2.1).1
    cases List.mem_cons.mp rest with
    | inl same => omega
    | inr smaller_one =>
      have := below bigger smaller_one
      omega

/-- A candidate is its own lower case and has no combining dot. -/
structure Candidate (candidate : List Char) : Prop where
  lower : lowered candidate = candidate
  noDot : combiningDot ∉ candidate

/-- The test of one size, for the part of the text that has it. -/
theorem passes_iff {candidate : List Char} (usable : Candidate candidate) :
    ((lowered (u ++ v)).drop ((lowered (u ++ v)).length - v.length)).isPrefixOf
        (lowered candidate) = true ↔
      v.length ≤ candidate.length ∧ spelled folded (candidate.take v.length) v = true := by
  rw [usable.lower]
  constructor
  · intro starts
    have noDot : combiningDot ∉
        (lowered (u ++ v)).drop ((lowered (u ++ v)).length - v.length) := by
      intro inside
      exact usable.noDot ((List.isPrefixOf_iff_prefix.mp starts).subset inside)
    have plain := plain_of_noDot noDot
    rwa [drop_lowered_of_plain plain, lowered_isPrefixOf plain] at starts
  · intro partly
    have plain : dottedI ∉ v := by
      apply not_mem_of_spelled partly.2
      rw [List.length_take]
      omega
    rwa [drop_lowered_of_plain plain, lowered_isPrefixOf plain]

theorem le_longest {sizes : List Nat} {first size : Nat} :
    first ≤ sizes.foldl max first ∧ (size ∈ sizes → size ≤ sizes.foldl max first) := by
  induction sizes generalizing first with
  | nil => simp
  | cons head rest ih =>
    rw [List.foldl_cons, List.mem_cons]
    have bounds := @ih (max first head)
    constructor
    · exact Nat.le_trans (Nat.le_max_left first head) bounds.1
    · intro member
      cases member with
      | inl same =>
        subst same
        exact Nat.le_trans (Nat.le_max_right first size) bounds.1
      | inr later => exact bounds.2 later

/-- No longer last part of the text is a proper prefix of a candidate. -/
def Longest (candidates : List (List Char)) (text kept : List Char) : Prop :=
  ∀ x y, text = x ++ y → kept.length < y.length → ∀ candidate ∈ candidates,
    y.length < candidate.length → spelled folded (candidate.take y.length) y = false

theorem longestPartialSuffix_spec {candidates : List (List Char)}
    (usable : ∀ candidate ∈ candidates, Candidate candidate) :
    (∃ x, text = x ++ longestPartialSuffix text candidates) ∧
      dottedI ∉ longestPartialSuffix text candidates ∧
      Longest candidates text (longestPartialSuffix text candidates) := by
  have test : ∀ x y, text = x ++ y →
      ((candidates.any fun candidate =>
          ((lowered text).drop ((lowered text).length - y.length)).isPrefixOf
            (lowered candidate)) = true ↔
        ∃ candidate ∈ candidates, y.length ≤ candidate.length ∧
          spelled folded (candidate.take y.length) y = true) := by
    intro x y whole
    subst whole
    rw [List.any_eq_true]
    constructor
    · intro passed
      obtain ⟨candidate, member, starts⟩ := passed
      exact ⟨candidate, member, (passes_iff (usable candidate member)).mp starts⟩
    · intro partly
      obtain ⟨candidate, member, partly⟩ := partly
      exact ⟨candidate, member, (passes_iff (usable candidate member)).mpr partly⟩
  have inRange : ∀ x y candidate, text = x ++ y → candidate ∈ candidates →
      y.length < candidate.length →
      y.length ≤ min text.length ((candidates.map List.length).foldl max 0 - 1) := by
    intro x y candidate whole member short
    have bound := (@le_longest _ 0 candidate.length).2 (List.mem_map_of_mem member)
    rw [whole, List.length_append]
    omega
  unfold longestPartialSuffix
  dsimp only
  cases found : (List.range' 1 (min text.length
      ((candidates.map List.length).foldl max 0 - 1))).reverse.find? fun size =>
    candidates.any fun candidate =>
      ((lowered text).drop ((lowered text).length - size)).isPrefixOf (lowered candidate) with
  | none =>
    refine ⟨⟨text, (List.append_nil text).symm⟩, List.not_mem_nil, ?_⟩
    intro x y whole longer candidate member short
    have inside := inRange x y candidate whole member short
    have none_passes := List.find?_eq_none.mp found y.length
      (List.mem_reverse.mpr (List.mem_range'_1.mpr (by rw [List.length_nil] at longer; omega)))
    rw [test x y whole] at none_passes
    apply Bool.eq_false_iff.mpr
    intro starts
    exact none_passes ⟨candidate, member, by omega, starts⟩
  | some size =>
    obtain ⟨⟨one, most, passed⟩, bigger⟩ := find?_longest found
    have cut : text = text.take (text.length - size) ++ text.drop (text.length - size) :=
      (List.take_append_drop _ _).symm
    have sized : (text.drop (text.length - size)).length = size := by
      rw [List.length_drop]
      omega
    have kept := test _ _ cut
    rw [sized] at kept
    obtain ⟨candidate, member, fits, starts⟩ := kept.mp passed
    refine ⟨⟨_, cut⟩, ?_, ?_⟩
    · apply not_mem_of_spelled starts
      rw [sized, List.length_take]
      omega
    · intro x y whole longer candidate member short
      rw [sized] at longer
      have inside := inRange x y candidate whole member short
      have rejected := bigger y.length longer inside
      rw [← Bool.not_eq_true, test x y whole] at rejected
      apply Bool.eq_false_iff.mpr
      intro starts
      exact rejected ⟨candidate, member, by omega, starts⟩

end SherryAgent.Contracts.Security
