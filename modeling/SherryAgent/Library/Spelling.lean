import Mathlib.Data.List.Basic

/-!
# Spellings of a mark

A text spells a mark at its start when its characters match the mark's one by one, for any notion
of matching. What an append keeps of a spelling, and why a mark whose first character does not
occur again cannot overlap another one. Nothing here names the agent.
-/

namespace SherryAgent.Library

variable {α β : Type} {same : α → β → Bool} {mark other : List β} {text x y : List α} {c : α}

/-- The text starts with a spelling of the mark. -/
def spelled (same : α → β → Bool) : (mark : List β) → (text : List α) → Bool
  | [], _ => true
  | _ :: _, [] => false
  | m :: mark, c :: text => same c m && spelled same mark text

theorem spelled_length (starts : spelled same mark text = true) : mark.length ≤ text.length := by
  induction mark generalizing text with
  | nil => simp
  | cons m mark ih =>
    cases text with
    | nil => cases starts
    | cons c text =>
      simp only [spelled, Bool.and_eq_true] at starts
      simpa using ih starts.2

theorem spelled_append (fits : mark.length ≤ x.length) :
    spelled same mark (x ++ y) = spelled same mark x := by
  induction mark generalizing x with
  | nil => rfl
  | cons m mark ih =>
    cases x with
    | nil => simp at fits
    | cons c x =>
      rw [List.cons_append, spelled, spelled, ih (by simpa using fits)]

/-- What stands in a text that ends within the spelling. -/
theorem spelled_take (starts : spelled same mark (x ++ y) = true) (short : x.length ≤ mark.length) :
    spelled same (mark.take x.length) x = true := by
  induction mark generalizing x with
  | nil => simp [spelled]
  | cons m mark ih =>
    cases x with
    | nil => rfl
    | cons c x =>
      simp only [List.cons_append, spelled, Bool.and_eq_true] at starts
      simp only [List.length_cons, List.take_succ_cons, spelled, Bool.and_eq_true]
      exact ⟨starts.1, ih starts.2 (by simpa using short)⟩

/-- A character inside the spelling matches one behind the mark's first. -/
theorem spelled_inside (starts : spelled same mark (x ++ c :: y) = true) (nonempty : x ≠ [])
    (within : x.length < mark.length) : ∃ m ∈ mark.tail, same c m = true := by
  induction mark generalizing x with
  | nil => simp at within
  | cons m mark ih =>
    cases x with
    | nil => exact absurd rfl nonempty
    | cons d x =>
      simp only [List.cons_append, spelled, Bool.and_eq_true] at starts
      rw [List.length_cons, List.length_cons, Nat.add_lt_add_iff_right] at within
      rw [List.tail_cons]
      cases x with
      | nil =>
        cases mark with
        | nil => simp at within
        | cons n mark =>
          simp only [List.nil_append, spelled, Bool.and_eq_true] at starts
          exact ⟨n, List.mem_cons_self, starts.2.1⟩
      | cons e x =>
        obtain ⟨n, member, matched⟩ := ih starts.2 (List.cons_ne_nil e x) within
        exact ⟨n, List.mem_of_mem_tail member, matched⟩

/-- When a character matches one character only, two marks spelled at one place are comparable. -/
theorem spelled_unique (functional : ∀ c m n, same c m = true → same c n = true → m = n)
    (starts : spelled same mark text = true) (also : spelled same other text = true)
    (shorter : mark.length ≤ other.length) : mark <+: other := by
  induction mark generalizing other text with
  | nil => exact List.nil_prefix
  | cons m mark ih =>
    cases other with
    | nil => simp at shorter
    | cons n other =>
      cases text with
      | nil => cases starts
      | cons c text =>
        simp only [spelled, Bool.and_eq_true] at starts also
        rw [functional c m n starts.1 also.1, List.prefix_cons_inj]
        exact ih starts.2 also.2 (by simpa using shorter)

end SherryAgent.Library
