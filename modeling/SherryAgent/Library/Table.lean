import Mathlib.Data.List.Basic
import Mathlib.Data.List.Nodup
import Mathlib.Data.List.Sort

/-!
# Tables of rows

A relational table as the list of its rows in insertion order, and the
statements `UPDATE ... WHERE`, `DELETE ... WHERE` and
`SELECT ... WHERE ... ORDER BY ... LIMIT` on it.
-/

namespace SherryAgent.Library.Table

variable {α κ : Type}

/-- `UPDATE ... WHERE`. -/
def updateWhere (p : α → Bool) (f : α → α) (rows : List α) : List α :=
  rows.map fun row => if p row then f row else row

/-- `DELETE ... WHERE`. -/
def deleteWhere (p : α → Bool) (rows : List α) : List α :=
  rows.filter fun row => !p row

/-- `SELECT ... WHERE ... ORDER BY ... LIMIT`; the sort is stable. -/
def selectWhere (p : α → Bool) (le : α → α → Bool) (limit : Nat) (rows : List α) : List α :=
  ((rows.filter p).insertionSort fun a b => le a b = true).take limit

variable {p : α → Bool} {f : α → α} {rows : List α} {row : α}

/-- A row after an update is an updated row, or one the update left alone. -/
theorem mem_updateWhere :
    row ∈ updateWhere p f rows ↔
      (∃ old ∈ rows, p old = true ∧ row = f old) ∨ (row ∈ rows ∧ p row = false) := by
  rw [updateWhere, List.mem_map]
  constructor
  · rintro ⟨old, member, rfl⟩
    cases hit : p old with
    | true => exact .inl ⟨old, member, hit, by simp⟩
    | false => exact .inr ⟨by simpa using member, by simpa using hit⟩
  · rintro (⟨old, member, hit, rfl⟩ | ⟨member, miss⟩)
    · exact ⟨old, member, by simp [hit]⟩
    · exact ⟨row, member, by simp [miss]⟩

theorem mem_updateWhere_of_mem (member : row ∈ rows) :
    (if p row then f row else row) ∈ updateWhere p f rows :=
  List.mem_map_of_mem member

/-- An update keeps every key it does not write. -/
theorem map_updateWhere (key : α → κ) (same : ∀ row, p row = true → key (f row) = key row) :
    (updateWhere p f rows).map key = rows.map key := by
  rw [updateWhere, List.map_map]
  refine List.map_congr_left fun row _ => ?_
  cases hit : p row with
  | true => simp [hit, same row hit]
  | false => simp [hit]

/-- A lookup by columns the update does not write. -/
theorem find?_updateWhere (q : α → Bool) (same : ∀ row, p row = true → q (f row) = q row) :
    (updateWhere p f rows).find? q = (rows.find? q).map fun row => if p row then f row else row := by
  rw [updateWhere, List.find?_map]
  congr 2
  funext row
  cases hit : p row with
  | true => simp [hit, same row hit]
  | false => simp [hit]

/-- A lookup of rows the delete spares. -/
theorem find?_deleteWhere (q : α → Bool) (spares : ∀ row ∈ rows, q row = true → p row = false) :
    (deleteWhere p rows).find? q = rows.find? q := by
  rw [deleteWhere, List.find?_filter]
  induction rows with
  | nil => rfl
  | cons first rest ih =>
    have later := ih fun row member => spares row (List.mem_cons_of_mem _ member)
    have here := spares first List.mem_cons_self
    cases hit : q first with
    | true => simp [hit, here hit]
    | false => simpa [hit] using later

theorem mem_deleteWhere : row ∈ deleteWhere p rows ↔ row ∈ rows ∧ p row = false := by
  simp [deleteWhere]

theorem mem_of_mem_selectWhere {le : α → α → Bool} {limit : Nat}
    (member : row ∈ selectWhere p le limit rows) : row ∈ rows ∧ p row = true := by
  have sorted := List.mem_of_mem_take member
  rw [List.mem_insertionSort] at sorted
  simpa using sorted

/-- A query answers rows with distinct keys when the table has them. -/
theorem nodup_selectWhere {key : α → κ} {le : α → α → Bool} {limit : Nat}
    (distinct : (rows.map key).Nodup) : ((selectWhere p le limit rows).map key).Nodup := by
  have sorted := (List.perm_insertionSort (fun a b => le a b = true) (rows.filter p)).map key
  have among : ((rows.filter p).map key).Nodup := distinct.sublist (List.filter_sublist.map key)
  exact (sorted.nodup_iff.mpr among).sublist ((List.take_sublist _ _).map key)

/-- Rows with distinct keys are told apart by their keys. -/
theorem eq_of_key_eq {key : α → κ} (distinct : (rows.map key).Nodup) {other : α}
    (member : row ∈ rows) (member' : other ∈ rows) (same : key row = key other) : row = other :=
  List.inj_on_of_nodup_map distinct member member' same

/-- How many selected rows the order puts at or before the row. -/
def rank (p : α → Bool) (le : α → α → Bool) (rows : List α) (row : α) : Nat :=
  rows.countP fun other => p other && le other row

theorem rank_pos {le : α → α → Bool} (member : row ∈ rows) (selected : p row = true)
    (itself : le row row = true) : 0 < rank p le rows row :=
  List.countP_pos_iff.mpr ⟨row, member, by rw [selected, itself]; rfl⟩

/-- The rows at or before a row, by whether they meet one more condition. -/
theorem rank_split (q : α → Bool) {le : α → α → Bool} (rows : List α) :
    rank p le rows row = rank (fun other => p other && q other) le rows row +
      rank (fun other => p other && !q other) le rows row := by
  unfold rank
  induction rows with
  | nil => rfl
  | cons first rest ih =>
    rw [List.countP_cons, List.countP_cons, List.countP_cons, ih]
    cases held : p first <;> cases also : q first <;> simp [held, also] <;> omega

/-- In a sorted list without repetition the first rows are those of the smallest rank. -/
theorem mem_take_of_sorted {le : α → α → Bool} {rows : List α}
    (sorted : rows.Pairwise fun a b => le a b = true) (refl : ∀ a, le a a = true)
    (anti : ∀ a ∈ rows, ∀ b ∈ rows, le a b = true → le b a = true → a = b)
    (distinct : rows.Nodup) (limit : Nat) (member : row ∈ rows) :
    row ∈ rows.take limit ↔ rows.countP (fun other => le other row) ≤ limit := by
  induction rows generalizing limit with
  | nil => cases member
  | cons first rest ih =>
    obtain ⟨below, sorted'⟩ := List.pairwise_cons.mp sorted
    obtain ⟨fresh, distinct'⟩ := List.nodup_cons.mp distinct
    rw [List.countP_cons]
    rcases List.mem_cons.mp member with rfl | inside
    · have none_before : rest.countP (fun other => le other row) = 0 := by
        rw [List.countP_eq_zero]
        intro other member' before
        have same := anti other (List.mem_cons_of_mem _ member') row member before
          (below other member')
        exact fresh (same ▸ member')
      cases limit with
      | zero => simp [refl]
      | succ limit => simp [none_before, refl]
    · have other : row ≠ first := fun same => fresh (same ▸ inside)
      cases limit with
      | zero => simp [below row inside]
      | succ limit =>
        have later := ih sorted' (fun a ha b hb => anti a (List.mem_cons_of_mem _ ha) b
          (List.mem_cons_of_mem _ hb)) distinct' limit inside
        simp [other, below row inside, later]

/-- `ORDER BY key LIMIT n` selects the rows of rank at most `n`. -/
theorem mem_selectWhere_iff [LinearOrder κ] {le : α → α → Bool} {key : α → κ} {limit : Nat}
    (order : ∀ a b, le a b = true ↔ key a ≤ key b) (distinct : (rows.map key).Nodup) :
    row ∈ selectWhere p le limit rows ↔
      row ∈ rows ∧ p row = true ∧ rank p le rows row ≤ limit := by
  have : Std.Total fun a b => le a b = true :=
    ⟨fun a b => by simpa only [order] using le_total (key a) (key b)⟩
  have : IsTrans α fun a b => le a b = true :=
    ⟨fun a b c => by simpa only [order] using le_trans⟩
  have sorted := List.pairwise_insertionSort (fun a b => le a b = true) (rows.filter p)
  have perm := List.perm_insertionSort (fun a b => le a b = true) (rows.filter p)
  have counted : ((rows.filter p).insertionSort fun a b => le a b = true).countP
      (fun other => le other row) = rank p le rows row := by
    rw [perm.countP_eq, List.countP_filter, rank]
    simp only [Bool.and_comm]
  have members : ∀ a, a ∈ (rows.filter p).insertionSort (fun a b => le a b = true) ↔
      a ∈ rows ∧ p a = true := fun a => by rw [List.mem_insertionSort, List.mem_filter]
  have early : ∀ member : row ∈ (rows.filter p).insertionSort (fun a b => le a b = true), _ :=
    mem_take_of_sorted sorted (fun a => (order a a).mpr le_rfl)
      (fun a ha b hb ab ba => eq_of_key_eq distinct ((members a).mp ha).1 ((members b).mp hb).1
        (le_antisymm ((order a b).mp ab) ((order b a).mp ba)))
      (perm.nodup_iff.mpr (distinct.of_map.filter p)) limit
  rw [← counted, ← and_assoc, ← members, selectWhere]
  constructor
  · intro chosen
    have member := List.mem_of_mem_take chosen
    exact ⟨member, (early member).mp chosen⟩
  · rintro ⟨member, first⟩
    exact (early member).mpr first

/-- A selection that comes back empty had nothing to select. -/
theorem selectWhere_eq_nil {le : α → α → Bool} {limit : Nat}
    (empty : selectWhere p le (limit + 1) rows = []) : ∀ row ∈ rows, p row = false := by
  intro row member
  rw [selectWhere, List.take_eq_nil_iff] at empty
  have none_left := empty.resolve_left (Nat.succ_ne_zero limit)
  have missing : row ∉ rows.filter p := by
    rw [← List.mem_insertionSort (fun a b => le a b = true), none_left]
    exact List.not_mem_nil
  rw [List.mem_filter, not_and] at missing
  exact Bool.eq_false_iff.mpr (missing member)

/-- The first row selected comes before every other. -/
theorem first_before [LinearOrder κ] {le : α → α → Bool} {key : α → κ} {other : α}
    (order : ∀ a b, le a b = true ↔ key a ≤ key b) (first : row ∈ selectWhere p le 1 rows)
    (member : other ∈ rows) (selected : p other = true) : le row other = true := by
  have : Std.Total fun a b => le a b = true :=
    ⟨fun a b => by simpa only [order] using le_total (key a) (key b)⟩
  have : IsTrans α fun a b => le a b = true :=
    ⟨fun a b c => by simpa only [order] using le_trans⟩
  have sorted := List.pairwise_insertionSort (fun a b => le a b = true) (rows.filter p)
  have inside : other ∈ (rows.filter p).insertionSort fun a b => le a b = true := by
    rw [List.mem_insertionSort, List.mem_filter]
    exact ⟨member, selected⟩
  rw [selectWhere] at first
  cases listed : (rows.filter p).insertionSort fun a b => le a b = true with
  | nil => simp [listed] at first
  | cons head rest =>
    rw [listed] at first inside sorted
    obtain rfl : row = head := by simpa using first
    rcases List.mem_cons.mp inside with rfl | later
    · exact (order _ _).mpr le_rfl
    · exact (List.pairwise_cons.mp sorted).1 other later

theorem updateWhere_eq_self (miss : ∀ row ∈ rows, p row = false) : updateWhere p f rows = rows := by
  have same : ∀ row ∈ rows, (if p row then f row else row) = row := fun row member => by
    simp [miss row member]
  rw [updateWhere, List.map_congr_left same, List.map_id']

/-- Once an update takes a selected row out, the rows after it are one place nearer. -/
theorem rank_updateWhere {q : α → Bool} {le : α → α → Bool} {chosen : α} (distinct : rows.Nodup)
    (member : chosen ∈ rows) (hit : ∀ row ∈ rows, q row = true ↔ row = chosen)
    (selected : p chosen = true) (leaves : p (f chosen) = false) (before : le chosen row = true) :
    rank p le (updateWhere q f rows) row + 1 = rank p le rows row := by
  obtain ⟨front, back, rfl⟩ := List.append_of_mem member
  rw [List.nodup_middle, List.nodup_cons, List.mem_append, not_or] at distinct
  have miss_front : ∀ other ∈ front, q other = false := by
    intro other inside
    rw [Bool.eq_false_iff, Ne, hit other (by simp [inside])]
    rintro rfl
    exact distinct.1.1 inside
  have miss_back : ∀ other ∈ back, q other = false := by
    intro other inside
    rw [Bool.eq_false_iff, Ne, hit other (by simp [inside])]
    rintro rfl
    exact distinct.1.2 inside
  have taken : q chosen = true := (hit chosen member).mpr rfl
  have updated : updateWhere q f (front ++ chosen :: back) = front ++ f chosen :: back := by
    rw [updateWhere, List.map_append, List.map_cons, ← updateWhere, ← updateWhere,
      updateWhere_eq_self miss_front, updateWhere_eq_self miss_back, if_pos taken]
  rw [updated]
  simp [rank, List.countP_append, selected, leaves, before]
  omega

/-- The last row of a sorted list that meets a condition. -/
theorem find?_reverse_of_sorted {le : α → α → Bool} {rows : List α} {row : α}
    (sorted : rows.Pairwise fun a b => le a b = true) (refl : ∀ a, le a a = true)
    (anti : ∀ a ∈ rows, ∀ b ∈ rows, le a b = true → le b a = true → a = b) :
    rows.reverse.find? p = some row ↔
      row ∈ rows ∧ p row = true ∧ ∀ other ∈ rows, p other = true → le other row = true := by
  have last : ∀ found, rows.reverse.find? p = some found →
      found ∈ rows ∧ p found = true ∧ ∀ other ∈ rows, p other = true → le other found = true := by
    intro found lookup
    obtain ⟨holds, later, earlier, split_at, skipped⟩ := List.find?_eq_some_iff_append.mp lookup
    have whole : rows = earlier.reverse ++ found :: later.reverse := by
      rw [← List.reverse_reverse rows, split_at]
      simp
    refine ⟨by simp [whole], holds, ?_⟩
    intro other member selected
    rw [whole, List.mem_append, List.mem_cons, List.mem_reverse, List.mem_reverse] at member
    rw [whole, List.pairwise_append] at sorted
    rcases member with before | rfl | after
    · exact sorted.2.2 other (List.mem_reverse.mpr before) found List.mem_cons_self
    · exact refl _
    · have missed := skipped other after
      simp [selected] at missed
  constructor
  · exact last row
  · intro ⟨member, holds, greatest⟩
    cases lookup : rows.reverse.find? p with
    | none => exact absurd holds (List.find?_eq_none.mp lookup row (List.mem_reverse.mpr member))
    | some found =>
      obtain ⟨found_member, found_holds, found_greatest⟩ := last found lookup
      exact congrArg some (anti found found_member row member
        (greatest found found_member found_holds) (found_greatest row member holds))

end SherryAgent.Library.Table
