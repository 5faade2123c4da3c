import Mathlib

/-!
# Ledgers

What the items of a list cost, what an edit of the list gains, and what is reported for it. Nothing
here names the agent.
-/

namespace SherryAgent.Library.Ledger

variable {α ω : Type}

/-- What the items cost. -/
def total (cost : α → Nat) (items : List α) : Nat := (items.map cost).sum

/-- Reports that cover each gain are in all no more than the gains only if each is its gain. -/
theorem reported_le_iff {gain reported : ω → Int} {entries : List ω}
    (covers : ∀ entry ∈ entries, gain entry ≤ reported entry) :
    (entries.map reported).sum ≤ (entries.map gain).sum ↔
      ∀ entry ∈ entries, reported entry ≤ gain entry := by
  induction entries with
  | nil => simp
  | cons entry entries ih =>
    rw [List.forall_mem_cons] at covers
    have above := List.sum_le_sum covers.2
    have rest := ih covers.2
    simp only [List.map_cons, List.sum_cons, List.forall_mem_cons]
    constructor
    · intro less
      exact ⟨by have first := covers.1; omega, rest.mp (by have first := covers.1; omega)⟩
    · intro each
      have later := rest.mpr each.2
      have first := each.1
      omega

theorem total_append (cost : α → Nat) (first second : List α) :
    total cost (first ++ second) = total cost first + total cost second := by
  unfold total
  rw [List.map_append, List.sum_append]

theorem gain_map (cost : α → Nat) (edit : α → α) (items : List α) :
    (total cost items : Int) - total cost (items.map edit) =
      (items.map fun item => (cost item : Int) - cost (edit item)).sum := by
  induction items with
  | nil => rfl
  | cons item items ih =>
    unfold total at ih ⊢
    simp only [List.map_cons, List.sum_cons]
    omega

/-- Only the items in front are edited. -/
theorem gain_front (cost : α → Nat) (edit : α → α) (items : List α) (stop : Nat) :
    (total cost items : Int) - total cost ((items.take stop).map edit ++ items.drop stop) =
      ((items.take stop).map fun item => (cost item : Int) - cost (edit item)).sum := by
  have whole : total cost items = total cost (items.take stop) + total cost (items.drop stop) := by
    rw [← total_append, List.take_append_drop]
  rw [← gain_map, total_append, whole]
  omega

/-- What an edit gains at an index. -/
def gainAt (cost : α → Nat) (edit : Nat → α → α) (items : List α) (index : Nat) : Int :=
  (items[index]?.map fun item => (cost item : Int) - cost (edit index item)).getD 0

theorem gain_mapIdx (cost : α → Nat) (edit : Nat → α → α) (items : List α) :
    (total cost items : Int) - total cost (items.mapIdx edit) =
      ∑ index ∈ Finset.range items.length, gainAt cost edit items index := by
  induction items generalizing edit with
  | nil => rfl
  | cons item items ih =>
    have later := ih fun index => edit (index + 1)
    unfold total at later ⊢
    rw [List.length_cons, Finset.sum_range_succ', List.mapIdx_cons]
    have shifted : ∀ index, gainAt cost edit (item :: items) (index + 1) =
        gainAt cost (fun index => edit (index + 1)) items index := fun index => rfl
    simp only [shifted, List.map_cons, List.sum_cons]
    rw [← later]
    simp only [gainAt, List.getElem?_cons_zero, Option.map_some, Option.getD_some]
    omega

/-- An edit at distinct places gains what it gains at each. -/
theorem gain_places (cost : α → Nat) (edit : Nat → α → α) {items : List α} {entries : List ω}
    (place : ω → Nat) (gain : ω → Int) (distinct : (entries.map place).Nodup)
    (held : ∀ entry ∈ entries, ∃ item, items[place entry]? = some item ∧
      gain entry = (cost item : Int) - cost (edit (place entry) item))
    (others : ∀ index item, items[index]? = some item → index ∉ entries.map place →
      edit index item = item) :
    (total cost items : Int) - total cost (items.mapIdx edit) = (entries.map gain).sum := by
  have inside : (entries.map place).toFinset ⊆ Finset.range items.length := by
    intro index mem
    obtain ⟨entry, entry_mem, rfl⟩ := List.mem_map.mp (List.mem_toFinset.mp mem)
    obtain ⟨item, stands, -⟩ := held entry entry_mem
    exact Finset.mem_range.mpr (List.getElem?_eq_some_iff.mp stands).1
  have nothing : ∀ index ∈ Finset.range items.length, index ∉ (entries.map place).toFinset →
      gainAt cost edit items index = 0 := by
    intro index _ other
    unfold gainAt
    cases stands : items[index]? with
    | none => rfl
    | some item =>
      rw [Option.map_some, Option.getD_some,
        others index item stands fun mem => other (List.mem_toFinset.mpr mem), sub_self]
  rw [gain_mapIdx, ← Finset.sum_subset inside nothing, List.sum_toFinset _ distinct, List.map_map]
  congr 1
  apply List.map_congr_left
  intro entry mem
  obtain ⟨item, stands, same⟩ := held entry mem
  simp [Function.comp, gainAt, stands, same]

/-! ## Places -/

/-- Entries found in different items stand at different places. -/
theorem nodup_places {found : α × Nat → Option ω} {place : ω → Nat}
    (at_index : ∀ item entry, found item = some entry → place entry = item.2) (items : List α) :
    ((items.zipIdx.filterMap found).map place).Nodup := by
  have indices : (items.zipIdx.map (·.2)).Nodup := by
    rw [List.zipIdx_map_snd]
    exact List.nodup_range'
  have apart := List.pairwise_map.mp indices
  unfold List.Nodup
  rw [List.pairwise_map, List.pairwise_filterMap]
  apply apart.imp
  intro first second distinct entry entry_found other other_found
  rw [at_index first entry entry_found, at_index second other other_found]
  exact distinct

theorem find_place {place : ω → Nat} {entries : List ω} (distinct : (entries.map place).Nodup)
    {entry : ω} (mem : entry ∈ entries) :
    (entries.find? fun other => place other == place entry) = some entry := by
  induction entries with
  | nil => cases mem
  | cons first entries ih =>
    rw [List.map_cons, List.nodup_cons] at distinct
    cases List.mem_cons.mp mem with
    | inl same =>
      subst same
      exact List.find?_cons_of_pos (by simp)
    | inr later =>
      have apart : place first ≠ place entry := by
        intro same
        exact distinct.1 (same ▸ List.mem_map_of_mem later)
      rw [List.find?_cons_of_neg (by simpa using apart)]
      exact ih distinct.2 later

end SherryAgent.Library.Ledger
