/-!
# A linear chain with cuts

The places of a chain are numbered from zero, each the parent of the next. A cut hides what is older
than its place. Nothing here names the agent.
-/

namespace SherryAgent.Library

/-- The places from the tip down to the nearest cut. -/
def chainFrom (cuts : List Nat) : Nat → List Nat
  | 0 => [0]
  | n + 1 => (n + 1) :: if n + 1 ∈ cuts then [] else chainFrom cuts n

variable {cuts : List Nat} {tip place other k : Nat}

theorem chainFrom_succ (open_tip : tip + 1 ∉ cuts) :
    chainFrom cuts (tip + 1) = (tip + 1) :: chainFrom cuts tip := by
  rw [chainFrom, if_neg open_tip]

theorem le_of_mem_chainFrom (mem : place ∈ chainFrom cuts tip) : place ≤ tip := by
  induction tip with
  | zero => simp_all [chainFrom]
  | succ tip ih =>
    rw [chainFrom, List.mem_cons] at mem
    cases mem with
    | inl same => omega
    | inr older =>
      split at older
      · cases older
      · have := ih older
        omega

/-- A place that is not the tip has an open tip above it. -/
theorem mem_chainFrom_succ (mem : place ∈ chainFrom cuts (tip + 1)) (older : place ≠ tip + 1) :
    tip + 1 ∉ cuts ∧ place ∈ chainFrom cuts tip := by
  rw [chainFrom, List.mem_cons] at mem
  cases mem with
  | inl same => exact absurd same older
  | inr found =>
    split at found
    · cases found
    · rename_i open_tip
      exact ⟨open_tip, found⟩

theorem tip_mem_chainFrom : tip ∈ chainFrom cuts tip := by
  cases tip <;> simp [chainFrom]

theorem getElem?_chainFrom (found : (chainFrom cuts tip)[k]? = some place) : place + k = tip := by
  induction tip generalizing k with
  | zero =>
    cases k with
    | zero => simp_all [chainFrom]
    | succ k => simp [chainFrom] at found
  | succ tip ih =>
    rw [chainFrom] at found
    cases k with
    | zero => simp_all
    | succ k =>
      rw [List.getElem?_cons_succ] at found
      split at found
      · cases found
      · have := ih found
        omega

/-- How far a place of the chain is behind the tip. -/
theorem idxOf_chainFrom (mem : place ∈ chainFrom cuts tip) :
    (chainFrom cuts tip).idxOf place + place = tip := by
  have found : (chainFrom cuts tip)[(chainFrom cuts tip).idxOf place]? = some place := by
    rw [List.getElem?_eq_getElem (List.idxOf_lt_length_of_mem mem), List.getElem_idxOf]
  have := getElem?_chainFrom found
  omega

/-- The places that one reaches from the tip and not from a place behind it. -/
theorem length_behind (mem : place ∈ chainFrom cuts tip) :
    ((chainFrom cuts tip).filter (· ∉ chainFrom cuts place)).length + place = tip := by
  induction tip with
  | zero =>
    have same : place = 0 := Nat.le_zero.mp (le_of_mem_chainFrom mem)
    subst same
    simp [chainFrom]
  | succ tip ih =>
    by_cases same : place = tip + 1
    · subst same
      rw [List.filter_eq_nil_iff.mpr (by simp)]
      simp
    · obtain ⟨open_tip, older⟩ := mem_chainFrom_succ mem same
      have above : tip + 1 ∉ chainFrom cuts place := by
        intro inside
        have := le_of_mem_chainFrom inside
        have := le_of_mem_chainFrom older
        omega
      have := ih older
      rw [chainFrom_succ open_tip, List.filter_cons_of_pos (by simpa using above),
        List.length_cons]
      omega

/-- A cut at a place of the chain leaves what is not older. -/
theorem mem_chainFrom_cut (mem : place ∈ chainFrom cuts tip) (found : other ∈ chainFrom cuts tip)
    (newer : place ≤ other) : other ∈ chainFrom (place :: cuts) tip := by
  induction tip with
  | zero => simp_all [chainFrom]
  | succ tip ih =>
    by_cases same : other = tip + 1
    · rw [same]
      exact tip_mem_chainFrom
    · obtain ⟨open_tip, older⟩ := mem_chainFrom_succ found same
      have behind := le_of_mem_chainFrom older
      obtain ⟨_, inside⟩ := mem_chainFrom_succ mem (by omega)
      rw [chainFrom_succ (by simp only [List.mem_cons, open_tip, or_false]; omega)]
      exact List.mem_cons_of_mem _ (ih inside older)

theorem length_chainFrom_cut (mem : place ∈ chainFrom cuts tip) :
    (chainFrom (place :: cuts) tip).length + place = tip + 1 := by
  induction tip with
  | zero =>
    have same : place = 0 := Nat.le_zero.mp (le_of_mem_chainFrom mem)
    simp [chainFrom, same]
  | succ tip ih =>
    by_cases same : place = tip + 1
    · simp [chainFrom, same, Nat.add_comm]
    · obtain ⟨open_tip, older⟩ := mem_chainFrom_succ mem same
      have := ih older
      rw [chainFrom_succ (by simp only [List.mem_cons, open_tip, or_false]; omega),
        List.length_cons]
      omega

/-- The last place of a chain is cut or the first of all. -/
theorem length_chainFrom_of_last (mem : place ∈ chainFrom cuts tip)
    (last : place = 0 ∨ place ∈ cuts) : (chainFrom cuts tip).length + place = tip + 1 := by
  induction tip with
  | zero =>
    have same : place = 0 := Nat.le_zero.mp (le_of_mem_chainFrom mem)
    simp [chainFrom, same]
  | succ tip ih =>
    by_cases same : place = tip + 1
    · have cut : tip + 1 ∈ cuts := by
        rw [same] at last
        exact last.resolve_left (Nat.succ_ne_zero tip)
      simp [chainFrom, same, cut, Nat.add_comm]
    · obtain ⟨open_tip, older⟩ := mem_chainFrom_succ mem same
      have := ih older
      rw [chainFrom_succ open_tip, List.length_cons]
      omega

end SherryAgent.Library
