import Mathlib.Algebra.GroupWithZero.Nat
import Mathlib.Algebra.BigOperators.Group.List.Basic

/-!
# Texts made of separated parts

The positions of the parts in `[x].intercalate parts`. Nothing here names the agent.

* `slice_intercalate` — a stretch of parts, cut out by the lengths before and up to it.
* `splitOn_append` — splitting a text that arrives in two pieces: the last part of the first piece
  goes on in the second.
-/

namespace SherryAgent.Library.Separated

variable {α : Type} (x : α) {parts front middle back : List (List α)}

/-- The length of the parts, each with one separator. -/
def extent (parts : List (List α)) : Nat := (parts.map (·.length + 1)).sum

@[simp] theorem extent_nil : extent ([] : List (List α)) = 0 := rfl

@[simp] theorem extent_cons (part : List α) (parts : List (List α)) :
    extent (part :: parts) = part.length + 1 + extent parts := by
  simp [extent]

@[simp] theorem extent_append (front back : List (List α)) :
    extent (front ++ back) = extent front + extent back := by
  simp [extent]

theorem extent_pos (some_part : parts ≠ []) : 0 < extent parts := by
  cases parts with
  | nil => exact absurd rfl some_part
  | cons part rest =>
    rw [extent_cons]
    omega

theorem length_intercalate (some_part : parts ≠ []) :
    ([x].intercalate parts).length + 1 = extent parts := by
  induction parts with
  | nil => exact absurd rfl some_part
  | cons part rest ih =>
    by_cases last : rest = []
    · simp [last, List.intercalate_singleton]
    · have later := ih last
      rw [List.intercalate_cons_of_ne_nil last, List.length_append, List.length_append,
        List.length_singleton, extent_cons]
      omega

theorem intercalate_append (some_front : front ≠ []) (some_back : back ≠ []) :
    [x].intercalate (front ++ back) =
      [x].intercalate front ++ x :: [x].intercalate back := by
  induction front with
  | nil => exact absurd rfl some_front
  | cons part rest ih =>
    by_cases last : rest = []
    · simp [last, List.intercalate_cons_of_ne_nil some_back, List.intercalate_singleton]
    · have more : rest ++ back ≠ [] := by simp [last]
      rw [List.cons_append, List.intercalate_cons_of_ne_nil more, ih last,
        List.intercalate_cons_of_ne_nil last]
      simp

/-- What stands before the middle parts takes their extent, separators included. -/
theorem drop_intercalate (front : List (List α)) (some_back : back ≠ []) :
    ([x].intercalate (front ++ back)).drop (extent front) = [x].intercalate back := by
  by_cases nothing : front = []
  · simp [nothing]
  · have sized := length_intercalate x nothing
    have one : extent front - ([x].intercalate front).length = 1 := by omega
    rw [intercalate_append x nothing some_back, List.drop_append, one,
      List.drop_eq_nil_of_le (by omega), List.nil_append, List.drop_one, List.tail_cons]

theorem take_intercalate (some_front : front ≠ []) (back : List (List α)) :
    ([x].intercalate (front ++ back)).take (extent front - 1) = [x].intercalate front := by
  have sized := length_intercalate x some_front
  have cut : extent front - 1 = ([x].intercalate front).length := by omega
  rw [cut]
  by_cases nothing : back = []
  · simp [nothing]
  · rw [intercalate_append x some_front nothing, List.take_left]

/-- A stretch of parts, cut out by the lengths before and up to it. -/
theorem slice_intercalate (front : List (List α)) (some_middle : middle ≠ [])
    (back : List (List α)) :
    (([x].intercalate (front ++ middle ++ back)).take (extent (front ++ middle) - 1)).drop
      (extent front) = [x].intercalate middle := by
  rw [take_intercalate x (by simp [some_middle]), drop_intercalate x front some_middle]

/-! ## Splitting -/

section Splitting

variable {x : α} [DecidableEq α]

theorem not_mem_of_mem_splitOn {text part : List α} (member : part ∈ text.splitOn x) :
    x ∉ part := by
  induction text generalizing part with
  | nil =>
    rw [List.splitOn_nil, List.mem_singleton] at member
    simp [member]
  | cons y rest ih =>
    rw [List.splitOn_cons_eq_if_modifyHead] at member
    split at member
    · cases member with
      | head => simp
      | tail _ later => exact ih later
    · rename_i other
      cases parts : rest.splitOn x with
      | nil => exact absurd parts (List.splitOn_ne_nil x rest)
      | cons first later =>
        rw [parts, List.modifyHead_cons, List.mem_cons] at member
        cases member with
        | inl same =>
          have clean : x ∉ first := ih (by simp [parts])
          have apart : x ≠ y := fun equal => other (by simp [equal])
          simp [same, clean, apart]
        | inr member => exact ih (by simp [parts, member])

theorem splitOn_append_of_not_mem {front : List α} (clean : x ∉ front) (back : List α) :
    (front ++ back).splitOn x = (back.splitOn x).modifyHead (front ++ ·) := by
  induction front with
  | nil =>
    cases parts : back.splitOn x with
    | nil => exact absurd parts (List.splitOn_ne_nil x back)
    | cons first later => simp [parts]
  | cons y rest ih =>
    rw [List.mem_cons, not_or] at clean
    have other : ¬(y == x) = true := fun same => clean.1 (eq_of_beq same).symm
    rw [List.cons_append, List.splitOn_cons_eq_if_modifyHead, if_neg other, ih clean.2,
      List.modifyHead_modifyHead]
    rfl

omit [DecidableEq α] in
theorem getLastD_append_of_ne_nil {front back : List α} (fallback : α) (some_back : back ≠ []) :
    (front ++ back).getLastD fallback = back.getLastD fallback := by
  rw [List.getLastD_eq_getLast?, List.getLast?_append_of_ne_nil _ some_back,
    ← List.getLastD_eq_getLast?]

theorem splitOn_append (front back : List α) :
    (front ++ back).splitOn x =
      (front.splitOn x).dropLast ++ ((front.splitOn x).getLastD [] ++ back).splitOn x := by
  induction front with
  | nil => simp
  | cons y rest ih =>
    cases parts : rest.splitOn x with
    | nil => exact absurd parts (List.splitOn_ne_nil x rest)
    | cons first later =>
      rw [parts] at ih
      rw [List.cons_append, List.splitOn_cons_eq_if_modifyHead, List.splitOn_cons_eq_if_modifyHead,
        parts, ih]
      split
      · simp
      · rename_i other
        cases later with
        | nil => simp [List.splitOn_cons_eq_if_modifyHead, other]
        | cons second later => simp

end Splitting

end SherryAgent.Library.Separated
