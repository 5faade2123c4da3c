import Mathlib.Data.List.Infix

/-!
# Occurrences of a pattern in a text

Where a list stands inside another one, what an append keeps of it, and what is left of it
when a middle part is rewritten. Nothing here names the agent.
-/

namespace SherryAgent.Library

variable {α : Type} {p x y m r text : List α} {i : Nat}

/-- The pattern stands in the text from position `i` on. -/
def OccursAt (p text : List α) (i : Nat) : Prop := p <+: text.drop i

instance [DecidableEq α] (p text : List α) (i : Nat) : Decidable (OccursAt p text i) :=
  inferInstanceAs (Decidable (p <+: text.drop i))

theorem infix_iff_occursAt : p <:+: text ↔ ∃ i, OccursAt p text i := by
  constructor
  · rintro ⟨before, later, whole⟩
    refine ⟨before.length, later, ?_⟩
    rw [← whole, List.append_assoc, List.drop_left]
  · rintro ⟨i, found⟩
    exact found.isInfix.trans (List.drop_suffix i text).isInfix

theorem OccursAt.fits (occurs : OccursAt p text i) (nonempty : p ≠ []) :
    i + p.length ≤ text.length := by
  have short := occurs.length_le
  have some_length := List.length_pos_iff.mpr nonempty
  rw [List.length_drop] at short
  omega

theorem occursAt_cons_succ {a : α} : OccursAt p (a :: text) (i + 1) ↔ OccursAt p text i := Iff.rfl

theorem occursAt_append_left (fits : i + p.length ≤ x.length) :
    OccursAt p (x ++ y) i ↔ OccursAt p x i := by
  unfold OccursAt
  rw [List.drop_append_of_le_length (by omega)]
  constructor
  · intro found
    apply List.prefix_of_prefix_length_le found (List.prefix_append _ _)
    rw [List.length_drop]
    omega
  · intro found
    exact found.trans (List.prefix_append _ _)

theorem occursAt_append_right (past : x.length ≤ i) :
    OccursAt p (x ++ y) i ↔ OccursAt p y (i - x.length) := by
  unfold OccursAt
  rw [List.drop_append, List.drop_eq_nil_of_le past, List.nil_append]

theorem OccursAt.extend (occurs : OccursAt p text i) (y : List α) : OccursAt p (text ++ y) i := by
  unfold OccursAt at occurs ⊢
  rw [List.drop_append]
  exact occurs.trans (List.prefix_append _ _)

/-- An occurrence before the rewritten part was there. -/
theorem OccursAt.before_rewrite (occurs : OccursAt p (x ++ (r ++ y)) i)
    (clear : i + p.length ≤ x.length) (z : List α) : OccursAt p (x ++ z) i :=
  (occursAt_append_left clear).mpr ((occursAt_append_left clear).mp occurs)

/-- An occurrence behind the rewritten part was there, up to the change of length. -/
theorem OccursAt.after_rewrite (occurs : OccursAt p (x ++ (r ++ y)) i)
    (clear : x.length + r.length ≤ i) (m : List α) :
    OccursAt p (x ++ (m ++ y)) (i - r.length + m.length) := by
  have behind := (occursAt_append_right (by omega)).mp occurs
  have tail := (occursAt_append_right (by omega)).mp behind
  apply (occursAt_append_right (by omega)).mpr
  apply (occursAt_append_right (by omega)).mpr
  have same : i - r.length + m.length - x.length - m.length = i - x.length - r.length := by omega
  rw [same]
  exact tail

/-! ## The first occurrence -/

section Find

variable [BEq α] [LawfulBEq α]

/-- Position of the first occurrence. -/
def findFirst (p : List α) : List α → Option Nat
  | [] => if p.isEmpty then some 0 else none
  | a :: rest => if p.isPrefixOf (a :: rest) then some 0 else (findFirst p rest).map (· + 1)

theorem findFirst_some {start : Nat} (found : findFirst p text = some start) :
    OccursAt p text start ∧ ∀ i < start, ¬ OccursAt p text i := by
  induction text generalizing start with
  | nil =>
    unfold findFirst at found
    split at found
    · rename_i empty
      cases found
      rw [List.isEmpty_iff.mp empty]
      constructor
      · exact List.nil_prefix
      · intro i impossible
        omega
    · cases found
  | cons a rest ih =>
    unfold findFirst at found
    split at found
    · rename_i here
      cases found
      constructor
      · exact List.isPrefixOf_iff_prefix.mp here
      · intro i impossible
        omega
    · rename_i absent
      obtain ⟨later, there, same⟩ := Option.map_eq_some_iff.mp found
      obtain ⟨occurs, first⟩ := ih there
      subst same
      constructor
      · exact occurs
      · intro i before
        cases i with
        | zero =>
          intro here
          exact absent (List.isPrefixOf_iff_prefix.mpr here)
        | succ i => exact first i (by omega)

theorem findFirst_none (missing : findFirst p text = none) : ¬ p <:+: text := by
  induction text with
  | nil =>
    unfold findFirst at missing
    split at missing
    · cases missing
    · rename_i nonempty
      intro found
      exact nonempty (by simpa using found)
  | cons a rest ih =>
    unfold findFirst at missing
    split at missing
    · cases missing
    · rename_i absent
      intro found
      rcases List.infix_cons_iff.mp found with here | later
      · exact absent (List.isPrefixOf_iff_prefix.mpr here)
      · exact ih (Option.map_eq_none_iff.mp missing) later

/-! ## Every occurrence -/

/-- The positions of all occurrences, overlapping or not; the text begins at position `n`. -/
def occurrences (p : List α) : Nat → List α → List Nat
  | n, [] => if p.isEmpty then [n] else []
  | n, a :: rest =>
    if p.isPrefixOf (a :: rest) then n :: occurrences p (n + 1) rest
    else occurrences p (n + 1) rest

/-- Those among the first `k` positions. -/
def earlyOccurrences (p : List α) : (k : Nat) → Nat → List α → List Nat
  | 0, _, _ => []
  | _ + 1, _, [] => []
  | k + 1, n, a :: rest =>
    if p.isPrefixOf (a :: rest) then n :: earlyOccurrences p k (n + 1) rest
    else earlyOccurrences p k (n + 1) rest

theorem occursAt_zero : OccursAt p text 0 ↔ p.isPrefixOf text = true := by
  rw [OccursAt, List.drop_zero, List.isPrefixOf_iff_prefix]

omit [LawfulBEq α] in
theorem occurrences_nil (nonempty : p ≠ []) (n : Nat) : occurrences p n [] = [] := by
  simp [occurrences, nonempty]

omit [LawfulBEq α] in
theorem occurrences_split (nonempty : p ≠ []) (k n : Nat) (text : List α) :
    occurrences p n text =
      earlyOccurrences p k n text ++ occurrences p (n + k) (text.drop k) := by
  induction k generalizing n text with
  | zero => rfl
  | succ k ih =>
    cases text with
    | nil => rw [occurrences_nil nonempty, List.drop_nil, occurrences_nil nonempty]; rfl
    | cons a rest =>
      have shifted : n + (k + 1) = n + 1 + k := by omega
      rw [occurrences, earlyOccurrences, List.drop_succ_cons, shifted, ih (n + 1) rest]
      split <;> simp

theorem mem_earlyOccurrences (nonempty : p ≠ []) {k n position : Nat} :
    position ∈ earlyOccurrences p k n text ↔ ∃ i < k, OccursAt p text i ∧ position = n + i := by
  induction k generalizing n text with
  | zero => simp [earlyOccurrences]
  | succ k ih =>
    cases text with
    | nil =>
      constructor
      · intro member
        cases member
      · rintro ⟨i, -, occurs, -⟩
        have fits := occurs.fits nonempty
        have some_length := List.length_pos_iff.mpr nonempty
        rw [List.length_nil] at fits
        omega
    | cons a rest =>
      have later : position ∈ earlyOccurrences p k (n + 1) rest ↔
          ∃ i < k, OccursAt p (a :: rest) (i + 1) ∧ position = n + (i + 1) := by
        rw [ih]
        simp only [occursAt_cons_succ, Nat.add_assoc, Nat.add_comm 1]
      rw [earlyOccurrences]
      constructor
      · intro member
        split at member
        · rename_i here
          rcases List.mem_cons.mp member with rfl | member
          · exact ⟨0, by omega, occursAt_zero.mpr here, rfl⟩
          · obtain ⟨i, early, found⟩ := later.mp member
            exact ⟨i + 1, by omega, found⟩
        · obtain ⟨i, early, found⟩ := later.mp member
          exact ⟨i + 1, by omega, found⟩
      · rintro ⟨i, early, occurs, rfl⟩
        cases i with
        | zero =>
          rw [if_pos (occursAt_zero.mp occurs)]
          exact List.mem_cons_self
        | succ i =>
          have member := later.mpr ⟨i, by omega, occurs, rfl⟩
          split
          · exact List.mem_cons_of_mem _ member
          · exact member

theorem mem_occurrences (nonempty : p ≠ []) {n position : Nat} :
    position ∈ occurrences p n text ↔ ∃ i, OccursAt p text i ∧ position = n + i := by
  rw [occurrences_split nonempty text.length n text, List.drop_length, occurrences_nil nonempty,
    List.append_nil, mem_earlyOccurrences nonempty]
  constructor
  · rintro ⟨i, -, found⟩
    exact ⟨i, found⟩
  · rintro ⟨i, occurs, same⟩
    have fits := occurs.fits nonempty
    have some_length := List.length_pos_iff.mpr nonempty
    exact ⟨i, by omega, occurs, same⟩

/-- From one occurrence to the next. -/
theorem occurrences_of_findFirst {start : Nat} (nonempty : p ≠ [])
    (found : findFirst p text = some start) (n : Nat) :
    occurrences p n text =
      (n + start) :: occurrences p (n + start + 1) (text.drop (start + 1)) := by
  obtain ⟨occurs, first⟩ := findFirst_some found
  have none_before : earlyOccurrences p start n text = [] := by
    apply List.eq_nil_iff_forall_not_mem.mpr
    intro position member
    obtain ⟨i, early, here, -⟩ := (mem_earlyOccurrences nonempty).mp member
    exact first i early here
  rw [occurrences_split nonempty start n text, none_before, List.nil_append]
  cases remaining : text.drop start with
  | nil =>
    unfold OccursAt at occurs
    rw [remaining, List.prefix_nil] at occurs
    exact absurd occurs nonempty
  | cons a rest =>
    have after : text.drop (start + 1) = rest := by
      rw [← List.drop_drop, remaining, List.drop_one, List.tail_cons]
    have here : p.isPrefixOf (a :: rest) = true := by
      rw [← remaining]
      exact List.isPrefixOf_iff_prefix.mpr occurs
    rw [occurrences, if_pos here, after]

theorem occurrences_of_missing (nonempty : p ≠ []) (missing : findFirst p text = none) (n : Nat) :
    occurrences p n text = [] := by
  apply List.eq_nil_iff_forall_not_mem.mpr
  intro position member
  obtain ⟨i, occurs, -⟩ := (mem_occurrences nonempty).mp member
  exact findFirst_none missing (infix_iff_occursAt.mpr ⟨i, occurs⟩)

/-- The positions go up. -/
theorem pairwise_occurrences (nonempty : p ≠ []) (n : Nat) (text : List α) :
    (occurrences p n text).Pairwise (· < ·) := by
  induction text generalizing n with
  | nil =>
    rw [occurrences_nil nonempty]
    exact List.Pairwise.nil
  | cons a rest ih =>
    rw [occurrences]
    split
    · refine List.pairwise_cons.mpr ⟨fun position member => ?_, ih (n + 1)⟩
      obtain ⟨i, -, rfl⟩ := (mem_occurrences nonempty).mp member
      omega
    · exact ih (n + 1)

/-- From an occurrence at the front: those that overlap it, and those behind it. -/
theorem occurrences_here (nonempty : p ≠ []) (here : p.isPrefixOf text = true) (n : Nat) :
    occurrences p n text = n :: (earlyOccurrences p (p.length - 1) (n + 1) text.tail ++
      occurrences p (n + p.length) (text.drop p.length)) := by
  cases text with
  | nil => exact absurd (List.prefix_nil.mp (List.isPrefixOf_iff_prefix.mp here)) nonempty
  | cons a rest =>
    obtain ⟨m, sized⟩ := Nat.exists_eq_succ_of_ne_zero (List.length_pos_iff.mpr nonempty).ne'
    have moved : n + (m + 1) = n + 1 + m := by omega
    rw [occurrences, if_pos here, sized, Nat.succ_sub_one, List.tail_cons, List.drop_succ_cons,
      moved, ← occurrences_split nonempty]

/-! ## Occurrences that do not overlap -/

/-- No two occurrences overlap. -/
def Apart (p text : List α) : Prop :=
  ∀ i j, OccursAt p text i → OccursAt p text j → i < j → i + p.length ≤ j

omit [BEq α] [LawfulBEq α] in
theorem occursAt_drop {k : Nat} : OccursAt p (text.drop k) i ↔ OccursAt p text (k + i) := by
  rw [OccursAt, OccursAt, List.drop_drop]

omit [BEq α] [LawfulBEq α] in
theorem Apart.drop (apart : Apart p text) (k : Nat) : Apart p (text.drop k) := by
  intro i j first second before
  have later := apart (k + i) (k + j) (occursAt_drop.mp first) (occursAt_drop.mp second) (by omega)
  omega

/-- Behind an occurrence at the front, apart means that nothing overlaps it and that the
rest is apart. -/
theorem apart_here (nonempty : p ≠ []) (here : p.isPrefixOf text = true) (n : Nat) :
    Apart p text ↔ earlyOccurrences p (p.length - 1) (n + 1) text.tail = [] ∧
      Apart p (text.drop p.length) := by
  have behind : ∀ i, OccursAt p text.tail i ↔ OccursAt p text (1 + i) := by
    intro i
    rw [← List.drop_one, occursAt_drop]
  have some_length := List.length_pos_iff.mpr nonempty
  constructor
  · intro apart
    refine ⟨List.eq_nil_iff_forall_not_mem.mpr fun position member => ?_, apart.drop _⟩
    obtain ⟨i, early, occurs, -⟩ := (mem_earlyOccurrences nonempty).mp member
    have far := apart 0 (1 + i) (occursAt_zero.mpr here) ((behind i).mp occurs) (by omega)
    omega
  · rintro ⟨none_over, apart⟩ i j first second before
    have late : ∀ k, OccursAt p text k → k = 0 ∨ p.length ≤ k := by
      intro k occurs
      by_contra inside
      push Not at inside
      have member : n + k ∈ earlyOccurrences p (p.length - 1) (n + 1) text.tail := by
        refine (mem_earlyOccurrences nonempty).mpr ⟨k - 1, by omega, ?_, by omega⟩
        rw [behind, show 1 + (k - 1) = k by omega]
        exact occurs
      rw [none_over] at member
      cases member
    have far := (late j second).resolve_left (by omega)
    rcases late i first with rfl | past
    · omega
    · have first' : OccursAt p (text.drop p.length) (i - p.length) := by
        rw [occursAt_drop, show p.length + (i - p.length) = i by omega]
        exact first
      have second' : OccursAt p (text.drop p.length) (j - p.length) := by
        rw [occursAt_drop, show p.length + (j - p.length) = j by omega]
        exact second
      have later := apart _ _ first' second' (by omega)
      omega

theorem apart_cons {a : α} (absent : p.isPrefixOf (a :: text) = false) :
    Apart p (a :: text) ↔ Apart p text := by
  constructor
  · intro apart
    exact apart.drop 1
  · intro apart i j first second before
    cases i with
    | zero =>
      rw [occursAt_zero, absent] at first
      cases first
    | succ i =>
      cases j with
      | zero => omega
      | succ j =>
        have later := apart i j first second (by omega)
        omega

end Find

end SherryAgent.Library
