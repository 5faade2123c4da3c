import SherryAgent.Source.Summarization.Estimate

/-!
# The caps of the summary document

`agent/middlewares/summarization/summary_doc.py`. A list field is read by its name, as `getattr`
does it; the numbers are those of `config/features/agent_side/summarization.py`.
-/

namespace SherryAgent.Source.Summarization

open SherryAgent.Source

/-- `_LIST_FIELDS`. -/
inductive ListField where
  | constraints
  | completed
  | inProgress
  | blocked
  | keyDecisions
  | failedBranches
  | successSteps
  | nextSteps
  | criticalContext
  | relevantFiles
  | activePlanNotes
  | evictedRefs
  deriving DecidableEq

structure SummaryDoc where
  latestUserRequest : String := ""
  goal : String := ""
  items : ListField → List String

/-- `_FIELD_CAPS`. -/
def fieldCaps : ListField → Option Nat
  | .completed => some 5
  | .keyDecisions => some 5
  | .failedBranches => some 5
  | .successSteps => some 5
  | .criticalContext => some 3
  | .activePlanNotes => some 20
  | .evictedRefs => some 20
  | _ => none

def summaryItemTokens : Nat := 100
def summaryItemTokensShort : Nat := 75

/-- `_ITEM_TOKEN_BUDGETS`. -/
def itemTokenBudgets : ListField → Option Nat
  | .completed => some summaryItemTokens
  | .keyDecisions => some summaryItemTokens
  | .failedBranches => some summaryItemTokens
  | .successSteps => some summaryItemTokens
  | .criticalContext => some summaryItemTokens
  | .constraints => some summaryItemTokensShort
  | .inProgress => some summaryItemTokensShort
  | .blocked => some summaryItemTokensShort
  | .nextSteps => some summaryItemTokensShort
  | .activePlanNotes => some summaryItemTokensShort
  | .relevantFiles => none
  | .evictedRefs => none

/-- The kept tail of `cap_items`. -/
def capItems (items : List String) (maxItems : Nat) : List String :=
  if maxItems = 0 ∨ items.length ≤ maxItems then items else items.drop (items.length - maxItems)

/-- `truncate_by_tokens(item, max_tokens)` with its default ratios, 0.6 and 0.4. -/
def truncateItem (maxTokens : Nat) (item : String) : String :=
  truncateByTokens maxTokens (4 * maxTokens * 3 / 5) (4 * maxTokens * 2 / 5) item

/-- `cap_item_lengths` for one item. -/
def capItemLength (maxTokens : Nat) (item : String) : String :=
  if PyText.contains omissionMarker item then item else truncateItem maxTokens item

/-- `cap_item_lengths`. -/
def capItemLengths (items : List String) (maxTokens : Nat) : List String :=
  items.map (capItemLength maxTokens)

/-- The items of a field that its item-count cap keeps. -/
def keptItems (field : ListField) (items : List String) : List String :=
  match fieldCaps field with
  | some maxItems => capItems items maxItems
  | none => items

/-- A field after `cap_summary_doc`; it is updated only where this is another list. -/
def capField (field : ListField) (items : List String) : List String :=
  match itemTokenBudgets field with
  | some budget => capItemLengths (keptItems field items) budget
  | none => keptItems field items

/-- `cap_summary_doc`. -/
def capSummaryDoc (doc : SummaryDoc) : SummaryDoc :=
  { doc with items := fun field => capField field (doc.items field) }

end SherryAgent.Source.Summarization
