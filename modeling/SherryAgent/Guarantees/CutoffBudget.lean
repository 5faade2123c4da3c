import SherryAgent.Contracts.Cutoff

/-!
# The compression cutoff and the preserve budget

- `cutoff_paid`: the walk over the turns fills the budget, and what moves the cut afterwards only
  lengthens the tail
- `clamp_exceeds`: the clamp to the last user message keeps a tail that is over the budget
-/

namespace SherryAgent.Guarantees.CutoffBudget

open SherryAgent.Source SherryAgent.Source.Transcript SherryAgent.Source.Summarization
open SherryAgent.Contracts.Cutoff

variable {str : Json → String} {usageMetadata : AiMessage → Json} {budget : Int}
  {messages : List Message}

/-- No assistant message carries the usage that its provider reported. -/
def Unreported (usageMetadata : AiMessage → Json) (messages : List Message) : Prop :=
  ∀ message, .ai message ∈ messages → reportedTokens (usageMetadata message) = none

/-- The tail is within the budget or one turn that cannot be split, and one message more is
over it. -/
structure Filled (str : Json → String) (usageMetadata : AiMessage → Json) (budget : Int)
    (messages : List Message) (cut : Nat) : Prop where
  fits : (localTokens estimateTextTokens str (messages.drop cut) : Int) ≤ budget ∨
    ∃ turn, (splitIntoTurns messages).getLast? = some turn ∧ turn.startIdx = cut ∧
      splitTurn (estimateTokens str usageMetadata) turn budget = none
  maximal : 0 < cut → budget < localTokens estimateTextTokens str (messages.drop (cut - 1))

/-- How the cutoff is chosen: the cut that the budget gives, or an earlier one where that cut
leaves an orphan or is behind the last user message of a turn that is kept whole. -/
structure Chosen (str : Json → String) (usageMetadata : AiMessage → Json) (budget : Int)
    (compressLastTurn : Bool) (messages : List Message) (cut : Nat) : Prop where
  paid : Paid (estimateTokens str usageMetadata) budget messages cut
  earlier :
    determineCutoff (estimateTokens str usageMetadata) budget compressLastTurn messages ≤ cut
  stays : orphanIds messages cut = [] →
    (∀ lastUser, compressLastTurn = false → lastUserIdx messages = some lastUser →
      cut ≤ lastUser) →
    determineCutoff (estimateTokens str usageMetadata) budget compressLastTurn messages = cut
  summed : Unreported usageMetadata messages → ∀ other,
    tailCost (estimateTokens str usageMetadata) messages other =
      localTokens estimateTextTokens str (messages.drop other)

theorem extractReportedTokens_none (unreported : Unreported usageMetadata messages) :
    extractReportedTokens usageMetadata messages = none := by
  unfold extractReportedTokens
  rw [Option.bind_eq_none_iff]
  intro message found
  obtain ⟨entry, member, is_ai⟩ := List.exists_of_findSome?_eq_some found
  rw [List.mem_reverse] at member
  cases entry with
  | plain => cases is_ai
  | tool => cases is_ai
  | ai entry =>
    obtain rfl := Option.some.inj is_ai
    exact unreported entry member

/-- Without reported usage the estimate of every part is a sum over its messages. -/
theorem estimateTokens_local (unreported : Unreported usageMetadata messages)
    (part : List Message) (inside : ∀ message ∈ part, message ∈ messages) :
    estimateTokens str usageMetadata part = localTokens estimateTextTokens str part := by
  have none_reported : extractReportedTokens usageMetadata part = none :=
    extractReportedTokens_none fun message member => unreported message (inside _ member)
  simp only [estimateTokens, estimateMessagesTokens, none_reported, Option.getD_none]

/-- The cutoff under every positive budget. -/
theorem cutoff_paid (str : Json → String) (usageMetadata : AiMessage → Json) (budget : Int)
    (compressLastTurn : Bool) (messages : List Message) (positive : 0 < budget) :
    Chosen str usageMetadata budget compressLastTurn messages
      (budgetCut (estimateTokens str usageMetadata) budget messages) := by
  constructor
  · exact budgetCut_paid _ messages positive
  · exact determineCutoff_le _ budget compressLastTurn messages
  · exact determineCutoff_stays
  · intro unreported other
    exact tailCost_sum (estimateMsgTokens estimateTextTokens str) (estimateTokens_local unreported)
      other

/-! ## Two transcripts -/

def asked (text : String) : Message := .plain { role := .human, content := .text text }

def replied (text : String) : Message := .ai { content := .text text }

def noUsage (_ : AiMessage) : Json := .null

/-- The estimate without reported usage. -/
def estimate (messages : List Message) : Nat := estimateTokens Json.pyStr noUsage messages

/-- Two turns of three tokens each. -/
def twoTurns : List Message :=
  [asked "what", replied "this one", asked "why?", replied "because."]

/-- One turn of twenty tokens, half of them in its last message. -/
def oneTurn : List Message :=
  [asked "?", replied "the first of two replies to the question",
    replied "the second of two replies to a question."]

/-- A budget for one turn keeps the second one. -/
theorem second_turn_paid : budgetCut estimate 4 twoTurns = 2 ∧
    Chosen Json.pyStr noUsage 4 false twoTurns (budgetCut estimate 4 twoTurns) :=
  ⟨by decide, cutoff_paid Json.pyStr noUsage 4 false twoTurns (by decide)⟩

/-- The last turn is over the budget and could be split, but the clamp keeps it whole. -/
theorem clamp_exceeds :
    ¬Filled Json.pyStr noUsage 15 oneTurn (determineCutoff estimate 15 false oneTurn) := by
  have clamped : determineCutoff estimate 15 false oneTurn = 0 := by decide
  rw [clamped]
  intro filled
  rcases filled.fits with fits | ⟨turn, last, -, whole⟩
  · have cost : localTokens estimateTextTokens Json.pyStr (oneTurn.drop 0) = 20 := by decide
    omega
  · have turns : (splitIntoTurns oneTurn).getLast? = some (turnAt oneTurn 0 3) := rfl
    have split : splitTurn (estimateTokens Json.pyStr noUsage) (turnAt oneTurn 0 3) 15 = some 2 := by
      decide
    obtain rfl := Option.some.inj (turns.symm.trans last)
    rw [split] at whole
    cases whole

end SherryAgent.Guarantees.CutoffBudget
