import SherryAgent.Contracts.Texts
import SherryAgent.Source.Summarization.SummaryDoc

/-!
# The caps of the summary document

- `capSummaryDoc_capSummaryDoc`: a second application changes nothing
- `caps_enforced_iff`: the item budgets hold exactly when no kept item was over its budget
- `long_item_exceeds`: an item that is clipped is over its budget because of the notice
-/

namespace SherryAgent.Guarantees.SummaryCaps

open SherryAgent.Source SherryAgent.Source.Summarization
open SherryAgent.Source.FileTools (isCjkCodepoint)
open SherryAgent.Contracts.Texts (contains_iff)

variable {text : List Char} {field : ListField}

/-- Every list field is within its cap, and every item within the budget of its field. -/
structure Enforced (doc : SummaryDoc) : Prop where
  counts : ∀ field maxItems, fieldCaps field = some maxItems →
    (doc.items field).length ≤ maxItems
  costs : ∀ field budget, itemTokenBudgets field = some budget →
    ∀ item ∈ doc.items field, estimateTextTokens item ≤ budget

/-! ## Quarters of a token -/

/-- The exact cost of a text. -/
def quarters (text : List Char) : Nat := (text.map charQuarters).sum

theorem quarters_append (first second : List Char) :
    quarters (first ++ second) = quarters first + quarters second := by
  simp [quarters]

theorem length_le_quarters (text : List Char) : text.length ≤ quarters text := by
  induction text with
  | nil => simp [quarters]
  | cons c rest ih =>
    have cost : 1 ≤ charQuarters c := by
      unfold charQuarters
      split <;> omega
    simp only [quarters, List.map_cons, List.sum_cons, List.length_cons] at ih ⊢
    omega

theorem quarters_reverse (text : List Char) : quarters text.reverse = quarters text := by
  simp [quarters, List.sum_reverse]

theorem quarters_eq (text : List Char) :
    quarters text = 2 * (text.countP fun c => isCjkCodepoint c.toNat) +
      (text.length - text.countP fun c => isCjkCodepoint c.toNat) := by
  induction text with
  | nil => rfl
  | cons c rest ih =>
    have bound := @List.countP_le_length _ (fun c => isCjkCodepoint c.toNat) rest
    simp only [quarters, List.map_cons, List.sum_cons, List.length_cons, List.countP_cons] at ih ⊢
    rw [ih]
    by_cases cjk : isCjkCodepoint c.toNat = true
    · simp only [charQuarters, cjk, if_true]
      omega
    · simp only [charQuarters, cjk, if_false, Bool.false_eq_true]
      omega

/-- The estimate rounds the CJK part and the rest down. -/
theorem estimate_bounds (item : String) :
    4 * estimateTextTokens item ≤ quarters item.toList ∧
      quarters item.toList ≤ 4 * estimateTextTokens item + 5 := by
  rw [quarters_eq]
  simp only [estimateTextTokens, countCjk, charsPerToken, charsPerTokenCjk]
  omega

/-- The slice costs its target, where the text does. -/
theorem charsForTokens_cost (target : Nat) (text : List Char) (enough : target ≤ quarters text) :
    target ≤ quarters (text.take (charsForTokens target text)) := by
  induction text generalizing target with
  | nil =>
    simp [quarters] at enough
    omega
  | cons c rest ih =>
    cases target with
    | zero => omega
    | succ target =>
      have rest_enough : target + 1 - charQuarters c ≤ quarters rest := by
        simp only [quarters, List.map_cons, List.sum_cons] at enough ⊢
        omega
      have taken := ih _ rest_enough
      simp only [charsForTokens, List.take_succ_cons, quarters, List.map_cons,
        List.sum_cons] at taken ⊢
      omega

/-! ## A clipped item -/

/-- The two slices cost what they were cut for. -/
theorem clipText_cost {headQuarters tailQuarters : Nat}
    (enough : headQuarters + tailQuarters ≤ quarters text) :
    headQuarters + tailQuarters ≤
      quarters (clipText headQuarters tailQuarters text).head +
        quarters (clipText headQuarters tailQuarters text).tail := by
  have head := charsForTokens_cost headQuarters text (by omega)
  have tail := charsForTokens_cost tailQuarters text.reverse (by rw [quarters_reverse]; omega)
  rw [List.take_reverse, quarters_reverse] at tail
  simp only [clipText]
  by_cases fits : charsForTokens tailQuarters text.reverse ≤
      text.length - charsForTokens headQuarters text
  · rw [Nat.min_eq_left fits]
    omega
  · rw [Nat.min_eq_right (by omega)]
    by_cases inside : charsForTokens headQuarters text ≤ text.length
    · have rest : text.length - (text.length - charsForTokens headQuarters text) =
          charsForTokens headQuarters text := by omega
      have whole := quarters_append (text.take (charsForTokens headQuarters text))
        (text.drop (charsForTokens headQuarters text))
      rw [List.take_append_drop] at whole
      rw [rest]
      omega
    · have all : text.take (charsForTokens headQuarters text) = text :=
        List.take_of_length_le (by omega)
      rw [all]
      omega

theorem omissionNotice_length (omitted : Nat) : 24 ≤ (omissionNotice omitted).toList.length := by
  simp only [omissionNotice, omissionMarker, String.toList_append, List.length_append]
  have front : "...[truncated ".toList.length = 14 := by decide
  have back : " chars]...".toList.length = 10 := by decide
  omega

/-- The notice takes an item that is clipped over its budget. -/
theorem truncateItem_exceeds {budget : Nat} (known : budget = 100 ∨ budget = 75) {item : String}
    (long : budget < estimateTextTokens item) :
    budget < estimateTextTokens (truncateItem budget item) := by
  have bounds := estimate_bounds item
  have slices : 4 * budget * 3 / 5 + 4 * budget * 2 / 5 ≤
      quarters (clipText (4 * budget * 3 / 5) (4 * budget * 2 / 5) item.toList).head +
        quarters (clipText (4 * budget * 3 / 5) (4 * budget * 2 / 5) item.toList).tail :=
    clipText_cost (by omega)
  have clipped := estimate_bounds (truncateItem budget item)
  simp only [truncateItem, truncateByTokens] at clipped ⊢
  rw [if_neg (by omega)] at clipped ⊢
  simp only [String.toList_append, String.toList_ofList, quarters_append] at clipped
  have notice := omissionNotice_length
    (clipText (4 * budget * 3 / 5) (4 * budget * 2 / 5) item.toList).omitted
  have notice_cost := length_le_quarters (omissionNotice
    (clipText (4 * budget * 3 / 5) (4 * budget * 2 / 5) item.toList).omitted).toList
  omega

theorem itemTokenBudgets_known {budget : Nat} (budgeted : itemTokenBudgets field = some budget) :
    budget = 100 ∨ budget = 75 := by
  cases field <;>
    simp only [itemTokenBudgets, summaryItemTokens, summaryItemTokensShort, Option.some.injEq,
      reduceCtorEq] at budgeted <;> omega

/-- A budget holds for an item behind its cap only where it held before. -/
theorem capItemLength_within {budget : Nat} (known : budget = 100 ∨ budget = 75) (item : String) :
    estimateTextTokens (capItemLength budget item) ≤ budget ↔ estimateTextTokens item ≤ budget := by
  unfold capItemLength
  split
  · rfl
  · by_cases short : estimateTextTokens item ≤ budget
    · simp [truncateItem, truncateByTokens, short]
    · have exceeds := truncateItem_exceeds known (by omega : budget < estimateTextTokens item)
      omega

/-! ## A second application -/

theorem contains_notice (head tail : List Char) (omitted : Nat) :
    PyText.contains omissionMarker
      (String.ofList head ++ omissionNotice omitted ++ String.ofList tail) = true := by
  rw [contains_iff]
  exact ⟨head, (toString omitted).toList ++ " chars]...".toList ++ tail, by
    simp [omissionNotice, String.toList_append]⟩

theorem capItemLength_capItemLength (budget : Nat) (item : String) :
    capItemLength budget (capItemLength budget item) = capItemLength budget item := by
  by_cases marked : PyText.contains omissionMarker item = true
  · simp [capItemLength, marked]
  · by_cases short : budget = 0 ∨ estimateTextTokens item ≤ budget
    · simp [capItemLength, truncateItem, truncateByTokens, short]
    · have clipped : PyText.contains omissionMarker (capItemLength budget item) = true := by
        rw [capItemLength, if_neg marked, truncateItem, truncateByTokens, if_neg short]
        exact contains_notice _ _ _
      conv_lhs => rw [capItemLength, if_pos clipped]

theorem length_capItems (items : List String) {maxItems : Nat} (positive : 0 < maxItems) :
    (capItems items maxItems).length ≤ maxItems := by
  unfold capItems
  split
  · omega
  · rw [List.length_drop]
    omega

theorem fieldCaps_positive {maxItems : Nat} (capped : fieldCaps field = some maxItems) :
    0 < maxItems := by
  cases field <;> simp only [fieldCaps, Option.some.injEq, reduceCtorEq] at capped <;> omega

theorem keptItems_length (field : ListField) (items : List String) {maxItems : Nat}
    (capped : fieldCaps field = some maxItems) : (keptItems field items).length ≤ maxItems := by
  simp only [keptItems, capped]
  exact length_capItems items (fieldCaps_positive capped)

theorem keptItems_of_short {items : List String}
    (short : ∀ maxItems, fieldCaps field = some maxItems → items.length ≤ maxItems) :
    keptItems field items = items := by
  unfold keptItems
  split
  · rename_i maxItems capped
    rw [capItems, if_pos (.inr (short maxItems capped))]
  · rfl

theorem capField_length (field : ListField) (items : List String) :
    (capField field items).length = (keptItems field items).length := by
  unfold capField
  split
  · simp [capItemLengths]
  · rfl

theorem capField_capField (field : ListField) (items : List String) :
    capField field (capField field items) = capField field items := by
  have kept : keptItems field (capField field items) = capField field items :=
    keptItems_of_short fun maxItems capped => by
      rw [capField_length]
      exact keptItems_length field items capped
  cases budgeted : itemTokenBudgets field with
  | none =>
    conv_lhs => rw [capField]
    simp only [budgeted, kept]
  | some budget =>
    conv_lhs => rw [capField]
    simp only [budgeted, kept]
    simp only [capField, budgeted, capItemLengths, List.map_map]
    apply List.map_congr_left
    intro item _
    exact capItemLength_capItemLength budget item

theorem capSummaryDoc_capSummaryDoc (doc : SummaryDoc) :
    capSummaryDoc (capSummaryDoc doc) = capSummaryDoc doc := by
  simp only [capSummaryDoc]
  congr 1
  funext field
  exact capField_capField field (doc.items field)

/-! ## The caps -/

theorem capSummaryDoc_counts (doc : SummaryDoc) {maxItems : Nat}
    (capped : fieldCaps field = some maxItems) :
    ((capSummaryDoc doc).items field).length ≤ maxItems := by
  change (capField field (doc.items field)).length ≤ maxItems
  rw [capField_length]
  exact keptItems_length field (doc.items field) capped

theorem mem_capSummaryDoc {doc : SummaryDoc} {budget : Nat} {item : String}
    (budgeted : itemTokenBudgets field = some budget) :
    item ∈ (capSummaryDoc doc).items field ↔
      ∃ kept ∈ keptItems field (doc.items field), capItemLength budget kept = item := by
  change item ∈ capField field (doc.items field) ↔ _
  simp only [capField, budgeted, capItemLengths, List.mem_map]

/-- The document is stable and the counts hold always; the budgets hold exactly when every item
that the count keeps was within its budget. -/
theorem caps_enforced_iff (doc : SummaryDoc) :
    (Enforced (capSummaryDoc doc) ∧ capSummaryDoc (capSummaryDoc doc) = capSummaryDoc doc) ↔
      ∀ field budget, itemTokenBudgets field = some budget →
        ∀ item ∈ keptItems field (doc.items field), estimateTextTokens item ≤ budget := by
  constructor
  · rintro ⟨enforced, -⟩ field budget budgeted item member
    have known := itemTokenBudgets_known budgeted
    apply (capItemLength_within known item).mp
    apply enforced.costs field budget budgeted
    exact (mem_capSummaryDoc budgeted).mpr ⟨item, member, rfl⟩
  · intro within
    refine ⟨⟨fun field maxItems capped => capSummaryDoc_counts doc capped, ?_⟩,
      capSummaryDoc_capSummaryDoc doc⟩
    intro field budget budgeted item member
    obtain ⟨kept, inside, rfl⟩ := (mem_capSummaryDoc budgeted).mp member
    have known := itemTokenBudgets_known budgeted
    exact (capItemLength_within known kept).mpr (within field budget budgeted kept inside)

/-! ## A long item -/

/-- A document with one completed step. -/
def completedDoc (item : String) : SummaryDoc :=
  { items := fun field => if field = .completed then [item] else [] }

theorem mem_completedDoc (item : String) :
    capItemLength 100 item ∈ (capSummaryDoc (completedDoc item)).items .completed := by
  rw [mem_capSummaryDoc rfl]
  exact ⟨item, List.mem_singleton_self item, rfl⟩

theorem estimate_letters (n : Nat) :
    estimateTextTokens (String.ofList (List.replicate n 'a')) = n / 4 := by
  have plain : isCjkCodepoint 97 = false := by decide
  simp [estimateTextTokens, countCjk, List.countP_replicate, plain, charsPerToken,
    charsPerTokenCjk]

/-- A step of 404 letters is one token over the budget, and over it still when it is clipped. -/
theorem long_item_exceeds :
    ¬Enforced (capSummaryDoc (completedDoc (String.ofList (List.replicate 404 'a')))) := by
  intro enforced
  have within := enforced.costs .completed 100 rfl _ (mem_completedDoc _)
  rw [capItemLength_within (.inl rfl), estimate_letters] at within
  omega

end SherryAgent.Guarantees.SummaryCaps
