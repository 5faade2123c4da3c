import Mathlib.Data.List.Forall2

/-!
# Records in a list, addressed by a key

Two readings of "the record with this key": the first match, as a scan finds
it, and the last match, as a dictionary built by iterating over the list holds
it. They differ only when a key occurs twice. Both come with an in-place update
of that one record.
-/

namespace SherryAgent.Library.KeyedList

variable {α β : Type}

/-- Update the first record satisfying `p`. -/
def modifyFirst (p : α → Bool) (f : α → α) : List α → List α
  | [] => []
  | a :: rest => if p a then f a :: rest else a :: modifyFirst p f rest

/-- The last record satisfying `p`. -/
def findLast? (p : α → Bool) : List α → Option α
  | [] => none
  | a :: rest => (findLast? p rest).or (if p a then some a else none)

/-- Update the last record satisfying `p`. -/
def modifyLast (p : α → Bool) (f : α → α) : List α → List α
  | [] => []
  | a :: rest =>
    if rest.any p then a :: modifyLast p f rest
    else if p a then f a :: rest else a :: rest

theorem findLast?_eq_none {p : α → Bool} {l : List α} :
    findLast? p l = none ↔ ∀ a ∈ l, p a = false := by
  induction l with
  | nil => simp [findLast?]
  | cons a rest ih => simp [findLast?, Option.or_eq_none_iff, ih, and_comm]

theorem findLast?_mem {p : α → Bool} {l : List α} {a : α} (found : findLast? p l = some a) :
    a ∈ l ∧ p a = true := by
  induction l with
  | nil => simp [findLast?] at found
  | cons b rest ih =>
    rw [findLast?, Option.or_eq_some_iff] at found
    rcases found with later | ⟨-, here⟩
    · exact ⟨List.mem_cons_of_mem _ (ih later).1, (ih later).2⟩
    · by_cases hit : p b = true
      · rw [if_pos hit, Option.some.injEq] at here
        subst here
        exact ⟨List.mem_cons_self, hit⟩
      · simp [hit] at here

theorem findLast?_isSome {p : α → Bool} {l : List α} {a : α} (member : a ∈ l) (hit : p a = true) :
    ∃ b, findLast? p l = some b := by
  cases found : findLast? p l with
  | none => rw [findLast?_eq_none.mp found a member] at hit; cases hit
  | some b => exact ⟨b, rfl⟩

theorem any_eq_isSome (p : α → Bool) (l : List α) : l.any p = (findLast? p l).isSome := by
  induction l with
  | nil => rfl
  | cons a rest ih =>
    rw [List.any_cons, findLast?, ih]
    cases findLast? p rest <;> cases p a <;> rfl

/-- Where the updated list's records come from. -/
theorem mem_modifyFirst {p : α → Bool} {f : α → α} {l : List α} {b : α}
    (member : b ∈ modifyFirst p f l) :
    b ∈ l ∨ ∃ a, l.find? p = some a ∧ b = f a := by
  induction l with
  | nil => simp [modifyFirst] at member
  | cons a rest ih =>
    rw [modifyFirst] at member
    by_cases hit : p a = true
    · rw [if_pos hit] at member
      rcases List.mem_cons.mp member with here | later
      · exact .inr ⟨a, by simp [hit], here⟩
      · exact .inl (List.mem_cons_of_mem _ later)
    · rw [if_neg hit] at member
      rcases List.mem_cons.mp member with here | later
      · exact .inl (by simp [here])
      · rcases ih later with old | ⟨c, found, eq⟩
        · exact .inl (List.mem_cons_of_mem _ old)
        · exact .inr ⟨c, by simp [hit, found], eq⟩

/-- The replaced record is there in its new form. -/
theorem apply_mem_modifyFirst {p : α → Bool} {f : α → α} {l : List α} {b : α}
    (first : l.find? p = some b) : f b ∈ modifyFirst p f l := by
  induction l with
  | nil => simp at first
  | cons a rest ih =>
    rw [modifyFirst]
    by_cases hit : p a = true
    · obtain rfl : a = b := by simpa [hit] using first
      simp [hit]
    · rw [if_neg hit]
      exact List.mem_cons_of_mem _ (ih (by simpa [hit] using first))

theorem apply_mem_modifyLast {p : α → Bool} {f : α → α} {l : List α} {b : α}
    (last : findLast? p l = some b) : f b ∈ modifyLast p f l := by
  induction l with
  | nil => simp [findLast?] at last
  | cons a rest ih =>
    rw [modifyLast]
    by_cases later : rest.any p = true
    · rw [if_pos later]
      rw [any_eq_isSome, Option.isSome_iff_exists] at later
      obtain ⟨c, found⟩ := later
      exact List.mem_cons_of_mem _ (ih (by simpa [findLast?, found] using last))
    · rw [if_neg later]
      have none_later : findLast? p rest = none := by
        rw [any_eq_isSome] at later
        simpa using later
      by_cases hit : p a = true
      · obtain rfl : a = b := by simpa [findLast?, none_later, hit] using last
        simp [hit]
      · simp [findLast?, none_later, hit] at last

theorem findLast?_append_singleton (p : α → Bool) (l : List α) (a : α) :
    findLast? p (l ++ [a]) = if p a then some a else findLast? p l := by
  induction l with
  | nil => simp [findLast?]
  | cons b rest ih =>
    rw [List.cons_append, findLast?, ih, findLast?]
    by_cases hit : p a = true <;> simp [hit]

/-- Only the first match is replaced. -/
theorem mem_modifyFirst_of_not_first {p : α → Bool} {f : α → α} {l : List α} {b : α}
    (member : b ∈ l) (other : l.find? p ≠ some b) : b ∈ modifyFirst p f l := by
  induction l with
  | nil => simp at member
  | cons a rest ih =>
    rw [modifyFirst]
    by_cases hit : p a = true
    · rw [if_pos hit]
      rcases List.mem_cons.mp member with here | later
      · subst here
        simp [hit] at other
      · exact List.mem_cons_of_mem _ later
    · rw [if_neg hit]
      rcases List.mem_cons.mp member with here | later
      · simp [here]
      · exact List.mem_cons_of_mem _ (ih later (by simpa [hit] using other))

/-- Only the last match is replaced. -/
theorem mem_modifyLast_of_not_last {p : α → Bool} {f : α → α} {l : List α} {b : α}
    (member : b ∈ l) (other : findLast? p l ≠ some b) : b ∈ modifyLast p f l := by
  induction l with
  | nil => simp at member
  | cons a rest ih =>
    rw [modifyLast]
    by_cases later : rest.any p = true
    · rw [if_pos later]
      rw [any_eq_isSome, Option.isSome_iff_exists] at later
      obtain ⟨c, found⟩ := later
      rcases List.mem_cons.mp member with here | tail
      · simp [here]
      · exact List.mem_cons_of_mem _ (ih tail (by simpa [findLast?, found] using other))
    · rw [if_neg later]
      have none_later : findLast? p rest = none := by
        rw [any_eq_isSome] at later
        simpa using later
      by_cases hit : p a = true
      · rw [if_pos hit]
        rcases List.mem_cons.mp member with here | tail
        · subst here
          simp [findLast?, none_later, hit] at other
        · exact List.mem_cons_of_mem _ tail
      · rw [if_neg hit]
        exact member

/-- The first matches of two lists that are related position by position. -/
theorem find?_forall₂ {R : α → α → Prop} {p : α → Bool} (same : ∀ a b, R a b → p b = p a)
    {l l' : List α} (related : List.Forall₂ R l l') :
    Option.Rel R (l.find? p) (l'.find? p) := by
  induction related with
  | nil => exact .none
  | @cons a b _ _ head _ ih =>
    rw [List.find?_cons, List.find?_cons, same a b head]
    cases p a with
    | true => exact .some head
    | false => exact ih

theorem findLast?_forall₂ {R : α → α → Prop} {p : α → Bool} (same : ∀ a b, R a b → p b = p a)
    {l l' : List α} (related : List.Forall₂ R l l') :
    Option.Rel R (findLast? p l) (findLast? p l') := by
  induction related with
  | nil => exact .none
  | @cons a b rest rest' head _ ih =>
    rw [findLast?, findLast?, same a b head]
    revert ih
    generalize findLast? p rest = found, findLast? p rest' = found'
    intro ih
    cases ih with
    | some later => exact .some later
    | none =>
      cases p a with
      | true => exact .some head
      | false => exact .none

theorem exists_of_forall₂ {α β : Type} {R : α → β → Prop} {l : List α} {l' : List β}
    (related : List.Forall₂ R l l') {b : β} (member : b ∈ l') : ∃ a ∈ l, R a b := by
  induction related with
  | nil => cases member
  | @cons a b' _ _ head _ ih =>
    rcases List.mem_cons.mp member with rfl | tail
    · exact ⟨a, by simp, head⟩
    · obtain ⟨other, inside, found⟩ := ih tail
      exact ⟨other, by simp [inside], found⟩

theorem forall₂_comp {R S T : α → α → Prop} (comp : ∀ a b c, R a b → S b c → T a c)
    {l l' l'' : List α} (first : List.Forall₂ R l l') (second : List.Forall₂ S l' l'') :
    List.Forall₂ T l l'' := by
  induction first generalizing l'' with
  | nil =>
    cases second
    exact .nil
  | cons head _ ih =>
    cases second with
    | cons head' tail' => exact .cons (comp _ _ _ head head') (ih tail')

/-- An update relates the list to itself position by position. -/
theorem modifyFirst_forall₂ {R : α → α → Prop} {p : α → Bool} {f : α → α} {l : List α}
    (refl : ∀ a, R a a) (changed : ∀ a, l.find? p = some a → R a (f a)) :
    List.Forall₂ R l (modifyFirst p f l) := by
  induction l with
  | nil => exact .nil
  | cons a rest ih =>
    rw [modifyFirst]
    by_cases hit : p a = true
    · rw [if_pos hit]
      exact .cons (changed a (by simp [hit])) (List.forall₂_same.mpr fun b _ => refl b)
    · rw [if_neg hit]
      exact .cons (refl a) (ih fun b found => changed b (by simpa [hit] using found))

theorem modifyLast_forall₂ {R : α → α → Prop} {p : α → Bool} {f : α → α}
    (refl : ∀ a, R a a) (changed : ∀ a, R a (f a)) (l : List α) :
    List.Forall₂ R l (modifyLast p f l) := by
  induction l with
  | nil => exact .nil
  | cons a rest ih =>
    rw [modifyLast]
    split
    · exact .cons (refl a) ih
    · split
      · exact .cons (changed a) (List.forall₂_same.mpr fun b _ => refl b)
      · exact List.forall₂_same.mpr fun b _ => refl b

/-- The first match after its own update. -/
theorem find?_modifyFirst_self {p : α → Bool} {f : α → α} {l : List α}
    (still : ∀ a, l.find? p = some a → p (f a) = true) :
    (modifyFirst p f l).find? p = (l.find? p).map f := by
  induction l with
  | nil => rfl
  | cons a rest ih =>
    rw [modifyFirst]
    by_cases hit : p a = true
    · have kept := still a (by simp [hit])
      simp [hit, kept]
    · have later := ih fun b found => still b (by simpa [hit] using found)
      simp [hit, later]

/-- The first match after an update of other records. -/
theorem find?_modifyFirst_of_ne {p q : α → Bool} {f : α → α} {l : List α}
    (other : ∀ a, l.find? q = some a → p a = false ∧ p (f a) = false) :
    (modifyFirst q f l).find? p = l.find? p := by
  induction l with
  | nil => rfl
  | cons a rest ih =>
    rw [modifyFirst]
    by_cases hit : q a = true
    · obtain ⟨miss, miss'⟩ := other a (by simp [hit])
      simp [hit, miss, miss']
    · have later := ih fun b found => other b (by simpa [hit] using found)
      simp [hit, List.find?_cons, later]

theorem find?_modifyLast_of_ne {p q : α → Bool} {f : α → α} {l : List α}
    (other : ∀ a ∈ l, q a = true → p a = false ∧ p (f a) = false) :
    (modifyLast q f l).find? p = l.find? p := by
  induction l with
  | nil => rfl
  | cons a rest ih =>
    have later := ih fun b member => other b (by simp [member])
    rw [modifyLast]
    split
    · simp [List.find?_cons, later]
    · split
      · rename_i hit
        obtain ⟨miss, miss'⟩ := other a (by simp) hit
        simp [miss, miss']
      · rfl

section Keys

variable {κ : Type} [DecidableEq κ] (key : α → κ)

/-- Reading by key after an update by key. -/
theorem findLast?_modifyLast {f : α → α} (same : ∀ a, key (f a) = key a) (k k' : κ) (l : List α) :
    findLast? (key · == k') (modifyLast (key · == k) f l) =
      if k' = k then (findLast? (key · == k) l).map f else findLast? (key · == k') l := by
  induction l with
  | nil => simp [modifyLast, findLast?]
  | cons a rest ih =>
    rw [modifyLast]
    by_cases later : (rest.any (key · == k)) = true
    · rw [if_pos later, findLast?, ih]
      rw [any_eq_isSome, Option.isSome_iff_exists] at later
      obtain ⟨c, found⟩ := later
      split
      · simp [findLast?, found]
      · rw [findLast?]
    · rw [if_neg later]
      have none_later : findLast? (key · == k) rest = none := by
        rw [any_eq_isSome] at later
        simpa using later
      by_cases hit : key a = k
      · by_cases wanted : k' = k
        · subst wanted
          simp [findLast?, none_later, hit, same]
        · have miss : ¬ key a = k' := fun eq => wanted (eq.symm.trans hit)
          simp [findLast?, hit, wanted, same, Ne.symm wanted]
      · by_cases wanted : k' = k
        · subst wanted
          simp [findLast?, none_later, hit]
        · simp [hit, wanted]

/-- With distinct keys an update by key is the update of all records with the key. -/
theorem modifyFirst_eq_map {f : α → α} {l : List α} (distinct : (l.map key).Nodup) (k : κ) :
    modifyFirst (key · == k) f l = l.map fun a => if key a = k then f a else a := by
  induction l with
  | nil => rfl
  | cons a rest ih =>
    obtain ⟨apart, later⟩ := List.nodup_cons.mp distinct
    rw [modifyFirst]
    by_cases hit : key a = k
    · have others : ∀ b ∈ rest, (if key b = k then f b else b) = b := by
        intro b member
        rw [if_neg]
        rintro same
        exact apart (hit.trans same.symm ▸ List.mem_map_of_mem member)
      simp [hit, List.map_congr_left others]
    · simp [hit, ih later]

theorem modifyLast_eq_map {f : α → α} {l : List α} (distinct : (l.map key).Nodup) (k : κ) :
    modifyLast (key · == k) f l = l.map fun a => if key a = k then f a else a := by
  induction l with
  | nil => rfl
  | cons a rest ih =>
    obtain ⟨apart, later⟩ := List.nodup_cons.mp distinct
    rw [modifyLast, List.map_cons, ih later]
    by_cases hit : key a = k
    · have absent : ∀ b ∈ rest, key b ≠ k := fun b member same =>
        apart (hit.trans same.symm ▸ List.mem_map_of_mem member)
      have others : ∀ b ∈ rest, (if key b = k then f b else b) = b := fun b member =>
        if_neg (absent b member)
      have unmatched : rest.any (key · == k) = false := by simpa using absent
      simp [hit, unmatched, List.map_congr_left others]
    · split
      · simp
      · rename_i unmatched
        have absent : ∀ b ∈ rest, key b ≠ k := by simpa using unmatched
        have others : ∀ b ∈ rest, (if key b = k then f b else b) = b := fun b member =>
          if_neg (absent b member)
        simp [hit, List.map_congr_left others]

end Keys

/-- The updated list keeps any projection the update keeps. -/
theorem map_modifyFirst {p : α → Bool} {f : α → α} {g : α → β} {l : List α}
    (same : ∀ a, l.find? p = some a → g (f a) = g a) : (modifyFirst p f l).map g = l.map g := by
  induction l with
  | nil => rfl
  | cons a rest ih =>
    rw [modifyFirst]
    by_cases hit : p a = true
    · simp [hit, same a (by simp [hit])]
    · have later := ih fun b found => same b (by simpa [hit] using found)
      simp [hit, later]

theorem map_modifyLast {p : α → Bool} {f : α → α} {g : α → β} (same : ∀ a, g (f a) = g a)
    (l : List α) : (modifyLast p f l).map g = l.map g := by
  induction l with
  | nil => rfl
  | cons a rest ih =>
    rw [modifyLast]
    split
    · simp [ih]
    · split <;> simp [same]

/-- First occurrences are pairwise distinct. -/
theorem nodup_eraseDups [DecidableEq α] (l : List α) : l.eraseDups.Nodup := by
  match l with
  | [] => simp
  | a :: rest =>
    have shorter : (rest.filter fun b => !b == a).length < (a :: rest).length :=
      Nat.lt_succ_of_le (List.length_filter_le _ _)
    rw [List.eraseDups_cons, List.nodup_cons]
    exact ⟨by simp [List.mem_eraseDups], nodup_eraseDups _⟩
termination_by l.length
decreasing_by exact shorter

end SherryAgent.Library.KeyedList
