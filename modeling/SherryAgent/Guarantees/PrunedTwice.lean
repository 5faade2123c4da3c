import SherryAgent.Contracts.Prune
import SherryAgent.Source.Summarization.Estimate

/-!
# A second prune

- `second_prune_iff`: the pass leaves its own output alone exactly when the results behind the
  window, or their summaries, are worth too little or still fit
- `summary_pruned_again`: the status is written where the pass does not look for it, so a summary
  is pruned like the output it stands for
-/

namespace SherryAgent.Guarantees.PrunedTwice

open SherryAgent.Source SherryAgent.Source.Transcript SherryAgent.Source.Summarization
open SherryAgent.Contracts.Prune

variable {config : PruneConfig} {messages : List Message}

/-- The pass prunes nothing in the list and reports nothing. -/
structure Settled (config : PruneConfig) (messages : List Message) : Prop where
  nothing : keepsAll config (toPrune config messages) = true
  reported : pruneToolOutputs config messages = (messages, 0)

/-! ## The condition -/

/-- What the one-line summary of a result costs. -/
def summaryEst (config : PruneConfig) (messages : List Message) (entry : Nat × ToolMessage) : Nat :=
  config.estimateText (summarizeToolResult config.isDigit
    (findToolName messages entry.1 entry.2.toolCallId)
    (contentText config.str entry.2.content).toList)

def summaryTokens (config : PruneConfig) (messages : List Message)
    (entries : List (Nat × ToolMessage)) : Nat :=
  (entries.map (summaryEst config messages)).sum

/-- Behind the window there is nothing or too little to prune; or every summary of what is there
fits, with the newer ones, or is worth too little, with the older ones. -/
def Cheap (config : PruneConfig) (messages : List Message)
    (inside outside : List (Nat × ToolMessage)) : Prop :=
  outside = [] ∨ (prunedTokens config outside : Int) < config.minReductionTokens ∨
    ∀ newer entry older, outside = newer ++ entry :: older →
      (prunedTokens config inside + summaryTokens config messages (newer ++ [entry]) : Int) ≤
          config.protectTokens ∨
        (summaryTokens config messages (entry :: older) : Int) < config.minReductionTokens

/-- The window is what `protect_tokens` holds of the counted results, newest first. -/
def LittleBehind (config : PruneConfig) (messages : List Message) : Prop :=
  ∀ inside outside, countedResults config messages = inside ++ outside →
    Window config 0 inside outside → Cheap config messages inside outside

/-! ## The second pass -/

/-- The pruned results as they stand afterwards. -/
def summaries (config : PruneConfig) (messages : List Message)
    (entries : List (Nat × ToolMessage)) : List (Nat × ToolMessage) :=
  entries.map fun entry => (entry.1, prunedResult config messages entry.1 entry.2)

theorem settled_iff :
    Settled config messages ↔ keepsAll config (toPrune config messages) = true := by
  constructor
  · exact fun settled => settled.nothing
  · intro nothing
    exact ⟨nothing, by rw [pruneToolOutputs, if_pos nothing]⟩

theorem prunedTokens_summaries (entries : List (Nat × ToolMessage)) :
    prunedTokens config (summaries config messages entries) =
      summaryTokens config messages entries := by
  rw [prunedTokens, summaries, List.map_map]
  rfl

theorem toPrune_window {inside outside : List (Nat × ToolMessage)}
    (whole : countedResults config messages = inside ++ outside)
    (window : Window config 0 inside outside) : toPrune config messages = outside := by
  rw [toPrune, whole, beyondWindow_window window]

/-- The second pass counts the window as before and the summaries behind it. -/
theorem toPrune_pruned {inside outside : List (Nat × ToolMessage)}
    (whole : countedResults config messages = inside ++ outside)
    (window : Window config 0 inside outside) :
    toPrune config (messages.mapIdx (pruneMessage config messages (outside.map (·.1)))) =
      beyondWindow config (prunedTokens config inside) (summaries config messages outside) := by
  have indices := nodup_counted config messages
  rw [whole, List.map_append, List.nodup_append] at indices
  have stay : inside.map (marked config messages (outside.map (·.1))) = inside := by
    conv_rhs => rw [← List.map_id inside]
    apply List.map_congr_left
    intro entry member
    have absent : entry.1 ∉ outside.map (·.1) := fun behind =>
      indices.2.2 entry.1 (List.mem_map.mpr ⟨entry, member, rfl⟩) entry.1 behind rfl
    simp only [marked, if_neg absent, id_eq]
  have replaced : outside.map (marked config messages (outside.map (·.1))) =
      summaries config messages outside := by
    apply List.map_congr_left
    intro entry member
    have behind : entry.1 ∈ outside.map (·.1) := List.mem_map.mpr ⟨entry, member, rfl⟩
    simp only [marked, if_pos behind]
  rw [toPrune, countedResults_pruned, whole, List.map_append, stay, replaced,
    beyondWindow_inside window.fits, Nat.zero_add]

/-- The second pass leaves the summaries alone exactly when each of them fits or is worth too
little. -/
theorem keepsAll_summaries (inside outside : List (Nat × ToolMessage)) :
    keepsAll config (beyondWindow config (prunedTokens config inside)
        (summaries config messages outside)) = true ↔
      ∀ newer entry older, outside = newer ++ entry :: older →
        (prunedTokens config inside + summaryTokens config messages (newer ++ [entry]) : Int) ≤
            config.protectTokens ∨
          (summaryTokens config messages (entry :: older) : Int) < config.minReductionTokens := by
  rw [keepsAll_beyondWindow]
  constructor
  · intro each newer entry older whole
    have split := each (summaries config messages newer) _ (summaries config messages older)
      (by rw [whole, summaries, List.map_append, List.map_cons]; rfl)
    simpa only [← prunedTokens_summaries, summaries, List.map_append, List.map_cons, List.map_nil]
      using split
  · intro each newer entry older whole
    obtain ⟨front, back, rfl, rfl, behind⟩ := List.map_eq_append_iff.mp whole
    obtain ⟨result, rest, rfl, rfl, rfl⟩ := List.map_eq_cons_iff.mp behind
    have split := each front result rest rfl
    simpa only [← prunedTokens_summaries, summaries, List.map_append, List.map_cons, List.map_nil]
      using split

theorem second_prune_window {inside outside : List (Nat × ToolMessage)}
    (whole : countedResults config messages = inside ++ outside)
    (window : Window config 0 inside outside) :
    Settled config (pruneToolOutputs config messages).1 ↔
      Cheap config messages inside outside := by
  have pruned := toPrune_window whole window
  have first_keeps := @keepsAll_iff config outside
  by_cases first : keepsAll config outside = true
  · rw [pruneToolOutputs, pruned, if_pos first, settled_iff, pruned]
    refine ⟨fun _ => ?_, fun _ => first⟩
    rcases first_keeps.mp first with little | nothing
    · exact .inr (.inl little)
    · exact .inl nothing
  · rw [pruneToolOutputs, pruned, if_neg first, settled_iff, toPrune_pruned whole window,
      keepsAll_summaries]
    refine ⟨fun each => .inr (.inr each), ?_⟩
    rintro (nothing | little | each)
    · exact absurd (first_keeps.mpr (.inr nothing)) first
    · exact absurd (first_keeps.mpr (.inl little)) first
    · exact each

/-- The pass is idempotent exactly where little lies behind the window. -/
theorem second_prune_iff (config : PruneConfig) (messages : List Message) :
    Settled config (pruneToolOutputs config messages).1 ↔ LittleBehind config messages := by
  obtain ⟨inside, outside, whole, window⟩ :=
    @exists_window config 0 (countedResults config messages)
  rw [second_prune_window whole window]
  constructor
  · intro cheap newer older split other
    have same : older = outside := by
      rw [← toPrune_window split other, toPrune_window whole window]
    subst same
    obtain rfl := List.append_cancel_right (whole.symm.trans split)
    exact cheap
  · intro behind
    exact behind inside outside whole window

/-! ## One search result -/

def searchConfig : PruneConfig :=
  { protectTokens := 0, minReductionTokens := 1, protectedTools := []
    estimateText := estimateTextTokens, str := Json.pyStr, isDigit := fun c => c.isDigit }

/-- A search whose result is 40 characters long. -/
def searched : List Message :=
  [.ai { toolCalls := [.obj [("name", .str "grep"), ("args", .obj []), ("id", .str "a")]] },
    .tool { content := .text "src/a.py:1: import os\nsrc/b.py:1: import", toolCallId := "a" }]

/-- The summary of the result is pruned by the next pass. -/
theorem summary_pruned_again :
    ¬Settled searchConfig (pruneToolOutputs searchConfig searched).1 := by
  rw [settled_iff]
  decide

end SherryAgent.Guarantees.PrunedTwice
