import Mathlib.Data.List.Forall2
import Mathlib.Logic.Function.Iterate

/-!
# Repeated passes over a list

A pass leaves each item as it is or settles an open one for good, so it can change the list
only as often as there are open items. Nothing here names the agent.
-/

namespace SherryAgent.Library.Passes

variable {α : Type} {pass : List α → List α} {isOpen : α → Bool} {items items' : List α}

/-- The item stays, or is open and is settled. -/
def Settles (isOpen : α → Bool) (before after : α) : Prop :=
  after = before ∨ (isOpen before = true ∧ isOpen after = false)

/-- A pass that changes something leaves fewer open items. -/
theorem countP_lt_of_ne (settles : List.Forall₂ (Settles isOpen) items items') :
    items'.countP isOpen ≤ items.countP isOpen ∧
      (items' ≠ items → items'.countP isOpen < items.countP isOpen) := by
  induction settles with
  | nil => exact ⟨Nat.le_refl _, fun different => absurd rfl different⟩
  | @cons before after rest rest' head _ ih =>
    simp only [List.countP_cons]
    rcases head with same | ⟨wasOpen, settled⟩
    · subst same
      refine ⟨by omega, ?_⟩
      intro different
      have shorter := ih.2 fun equal => different (by rw [equal])
      omega
    · simp only [wasOpen, settled, if_true, Bool.false_eq_true, if_false]
      refine ⟨by omega, ?_⟩
      intro _
      omega

/-- Passes reach a list that stays, after at most one pass for each open item. -/
theorem exists_fixpoint (settles : ∀ items, List.Forall₂ (Settles isOpen) items (pass items))
    (items : List α) :
    ∃ count ≤ items.countP isOpen, pass (pass^[count] items) = pass^[count] items := by
  generalize bound : items.countP isOpen = open_
  induction open_ using Nat.strongRecOn generalizing items with
  | ind size ih =>
    by_cases same : pass items = items
    · exact ⟨0, Nat.zero_le _, same⟩
    · have fewer := (countP_lt_of_ne (settles items)).2 same
      rw [bound] at fewer
      obtain ⟨count, within, fixed⟩ := ih _ fewer (pass items) rfl
      exact ⟨count + 1, by omega, fixed⟩

/-- What every pass keeps, any number of passes keeps. -/
theorem iterate_invariant {Inv : List α → Prop} (keeps : ∀ items, Inv items → Inv (pass items))
    (start : Inv items) (count : Nat) : Inv (pass^[count] items) := by
  induction count with
  | zero => exact start
  | succ count ih =>
    rw [Function.iterate_succ_apply']
    exact keeps _ ih

end SherryAgent.Library.Passes
