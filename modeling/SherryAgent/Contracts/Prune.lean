import Mathlib.Data.List.Nodup
import SherryAgent.Contracts.Dicts
import SherryAgent.Source.Summarization.Prune

/-!
# A pruned transcript

- `countedResults_pruned`: the loop counts the same results in a pruned transcript
- `exists_window`, `beyondWindow_window`: what is pruned is everything behind the newest results
  that `protect_tokens` holds
- `keepsAll_beyondWindow`: when what lies behind is left alone, in sums over it
-/

namespace SherryAgent.Contracts.Prune

open SherryAgent.Source SherryAgent.Source.Transcript SherryAgent.Source.Summarization
open SherryAgent.Contracts.Dicts

variable {config : PruneConfig} {messages : List Message} {pruned : List Nat}

/-! ## One message -/

theorem isSummaryMessage_pruneMessage (index : Nat) (message : Message) :
    isSummaryMessage (pruneMessage config messages pruned index message) =
      isSummaryMessage message := by
  cases message with
  | plain => rfl
  | ai => rfl
  | tool result =>
    by_cases chosen : index ∈ pruned
    · simp only [pruneMessage, if_pos chosen, isSummaryMessage, additionalKwargs, prunedResult]
      rw [get_setField (by decide), get_setField (by decide)]
    · simp only [pruneMessage, if_neg chosen]

/-- A search that reads only what the edits leave alone. -/
theorem findSome_mapIdx {β : Type} {read : Message → Option β} {edit : Nat → Message → Message}
    (same : ∀ index message, read (edit index message) = read message) (stop : Nat) :
    ((messages.mapIdx edit).take stop).reverse.findSome? read =
      (messages.take stop).reverse.findSome? read := by
  have reads : (messages.mapIdx edit).map read = messages.map read := by
    apply List.ext_getElem?
    intro index
    rw [List.getElem?_map, List.getElem?_mapIdx, List.getElem?_map]
    cases messages[index]? with
    | none => rfl
    | some message => simp only [Option.map_some, same]
  have both := congrArg (fun entries => (entries.take stop).reverse.findSome? id) reads
  simp only [← List.map_take, ← List.map_reverse, List.findSome?_map] at both
  exact both

/-- The calls of a pruned transcript are found as before. -/
theorem findToolName_pruned (index : Nat) (tcId : String) :
    findToolName (messages.mapIdx (pruneMessage config messages pruned)) index tcId =
      findToolName messages index tcId := by
  unfold findToolName findToolCall
  split
  · rfl
  · rw [findSome_mapIdx]
    intro index message
    cases message with
    | plain => rfl
    | ai => rfl
    | tool result =>
      by_cases chosen : index ∈ pruned
      · simp only [pruneMessage, if_pos chosen]
      · simp only [pruneMessage, if_neg chosen]

/-! ## What the loop counts -/

/-- A counted result as it stands in the pruned transcript. -/
def marked (config : PruneConfig) (messages : List Message) (pruned : List Nat)
    (entry : Nat × ToolMessage) : Nat × ToolMessage :=
  (entry.1, if entry.1 ∈ pruned then prunedResult config messages entry.1 entry.2 else entry.2)

theorem zipIdx_mapIdx (edit : Nat → Message → Message) :
    (messages.mapIdx edit).zipIdx =
      messages.zipIdx.map fun entry => (edit entry.2 entry.1, entry.2) := by
  apply List.ext_getElem?
  intro index
  rw [List.getElem?_zipIdx, List.getElem?_mapIdx, List.getElem?_map, List.getElem?_zipIdx]
  cases messages[index]? with
  | none => rfl
  | some message => simp

theorem countedResult_pruned (entry : Message × Nat) :
    countedResult config (messages.mapIdx (pruneMessage config messages pruned))
        (pruneMessage config messages pruned entry.2 entry.1, entry.2) =
      (countedResult config messages entry).map (marked config messages pruned) := by
  obtain ⟨message, index⟩ := entry
  cases message with
  | plain => rfl
  | ai => rfl
  | tool result =>
    by_cases chosen : index ∈ pruned
    · simp only [pruneMessage, if_pos chosen, countedResult, findToolName_pruned, prunedResult]
      split
      · rfl
      · split
        · rfl
        · simp [marked, chosen, prunedResult]
    · simp only [pruneMessage, if_neg chosen, countedResult, findToolName_pruned]
      split
      · rfl
      · split
        · rfl
        · simp [marked, chosen]

/-- The loop counts the same results in a pruned transcript. -/
theorem countedResults_pruned :
    countedResults config (messages.mapIdx (pruneMessage config messages pruned)) =
      (countedResults config messages).map (marked config messages pruned) := by
  unfold countedResults
  rw [zipIdx_mapIdx, ← List.map_reverse, List.takeWhile_map, List.filterMap_map, List.map_filterMap]
  have stops : ((fun entry : Message × Nat => !isSummaryMessage entry.1) ∘
      fun entry : Message × Nat =>
        (pruneMessage config messages pruned entry.2 entry.1, entry.2)) =
      fun entry : Message × Nat => !isSummaryMessage entry.1 := by
    funext entry
    simp only [Function.comp_apply, isSummaryMessage_pruneMessage]
  rw [stops]
  apply List.filterMap_congr
  intro entry _
  exact countedResult_pruned entry

theorem countedResult_index {entry : Message × Nat} {counted : Nat × ToolMessage}
    (found : countedResult config messages entry = some counted) : counted.1 = entry.2 := by
  unfold countedResult at found
  split at found
  · split at found
    · cases found
    · split at found
      · cases found
      · cases found
        rfl
  · cases found

theorem sublist_indices (entries : List (Message × Nat)) :
    ((entries.filterMap (countedResult config messages)).map (·.1)).Sublist
      (entries.map (·.2)) := by
  induction entries with
  | nil => simp
  | cons entry rest ih =>
    cases found : countedResult config messages entry with
    | none =>
      rw [List.filterMap_cons_none found, List.map_cons]
      exact ih.cons _
    | some counted =>
      rw [List.filterMap_cons_some found, List.map_cons, List.map_cons,
        countedResult_index found]
      exact ih.cons_cons _

theorem nodup_counted (config : PruneConfig) (messages : List Message) :
    ((countedResults config messages).map (·.1)).Nodup := by
  have indices : (messages.zipIdx.reverse.map (·.2)).Nodup := by
    rw [List.map_reverse, List.nodup_reverse, List.zipIdx_map_snd]
    exact List.nodup_range'
  apply List.Nodup.sublist _ indices
  apply (sublist_indices _).trans
  exact (List.takeWhile_sublist _).map _

/-! ## The window -/

/-- The newest results, as many as `protect_tokens` holds behind a total, and the older ones. -/
structure Window (config : PruneConfig) (total : Nat) (inside outside : List (Nat × ToolMessage)) :
    Prop where
  fits : inside = [] ∨ (total + prunedTokens config inside : Int) ≤ config.protectTokens
  full : ∀ entry older, outside = entry :: older →
    config.protectTokens < (total + prunedTokens config (inside ++ [entry]) : Int)

@[simp]
theorem prunedTokens_nil : prunedTokens config [] = 0 := rfl

@[simp]
theorem prunedTokens_cons (entry : Nat × ToolMessage) (entries : List (Nat × ToolMessage)) :
    prunedTokens config (entry :: entries) =
      tokenEst config entry.2 + prunedTokens config entries :=
  rfl

@[simp]
theorem prunedTokens_append (newer older : List (Nat × ToolMessage)) :
    prunedTokens config (newer ++ older) =
      prunedTokens config newer + prunedTokens config older := by
  simp [prunedTokens]

/-- Once the total is over the window, everything older is. -/
theorem beyondWindow_all {total : Nat} (full : config.protectTokens < total)
    (entries : List (Nat × ToolMessage)) : beyondWindow config total entries = entries := by
  induction entries generalizing total with
  | nil => rfl
  | cons entry older ih =>
    rw [beyondWindow, if_neg (by omega), ih (by omega)]

theorem beyondWindow_full {total : Nat} {entry : Nat × ToolMessage}
    (full : config.protectTokens < (total + tokenEst config entry.2 : Int))
    (older : List (Nat × ToolMessage)) :
    beyondWindow config total (entry :: older) = entry :: older := by
  rw [beyondWindow, if_neg (by omega), beyondWindow_all (by omega)]

theorem exists_window (total : Nat) (entries : List (Nat × ToolMessage)) :
    ∃ inside outside, entries = inside ++ outside ∧ Window config total inside outside := by
  induction entries generalizing total with
  | nil => exact ⟨[], [], rfl, .inl rfl, fun _ _ outside => by cases outside⟩
  | cons entry older ih =>
    by_cases fits : (total + tokenEst config entry.2 : Int) ≤ config.protectTokens
    · obtain ⟨inside, outside, rfl, window⟩ := ih (total + tokenEst config entry.2)
      refine ⟨entry :: inside, outside, rfl, .inr ?_, ?_⟩
      · rcases window.fits with rfl | held
        · simpa using fits
        · rw [prunedTokens_cons]
          omega
      · intro next rest behind
        have full := window.full next rest behind
        rw [List.cons_append, prunedTokens_cons]
        omega
    · refine ⟨[], entry :: older, rfl, .inl rfl, ?_⟩
      intro next rest behind
      cases behind
      simpa using fits

/-- The loop goes through the window, and on from what it costs. -/
theorem beyondWindow_inside {total : Nat} {inside : List (Nat × ToolMessage)}
    (fits : inside = [] ∨ (total + prunedTokens config inside : Int) ≤ config.protectTokens)
    (others : List (Nat × ToolMessage)) :
    beyondWindow config total (inside ++ others) =
      beyondWindow config (total + prunedTokens config inside) others := by
  induction inside generalizing total with
  | nil => rfl
  | cons entry inside ih =>
    have held : (total + prunedTokens config (entry :: inside) : Int) ≤ config.protectTokens :=
      fits.resolve_left (List.cons_ne_nil _ _)
    rw [prunedTokens_cons] at held ⊢
    rw [List.cons_append, beyondWindow, if_pos (by omega), ih (.inr (by omega)), Nat.add_assoc]

/-- Behind the window nothing fits. -/
theorem beyondWindow_window {total : Nat} {inside outside : List (Nat × ToolMessage)}
    (window : Window config total inside outside) :
    beyondWindow config total (inside ++ outside) = outside := by
  rw [beyondWindow_inside window.fits]
  cases outside with
  | nil => rfl
  | cons entry older =>
    have full := window.full entry older rfl
    rw [prunedTokens_append, prunedTokens_cons, prunedTokens_nil] at full
    exact beyondWindow_full (by omega) older

/-- What does not fit lies behind the window, with everything older. -/
theorem suffix_of_not_held {total : Nat} {inside outside newer older : List (Nat × ToolMessage)}
    {entry : Nat × ToolMessage} (window : Window config total inside outside)
    (whole : inside ++ outside = newer ++ entry :: older)
    (held : ¬(total + prunedTokens config (newer ++ [entry]) : Int) ≤ config.protectTokens) :
    ∃ between, outside = between ++ entry :: older := by
  rcases List.append_eq_append_iff.mp whole with ⟨between, -, behind⟩ | ⟨between, split, behind⟩
  · exact ⟨between, behind⟩
  · cases between with
    | nil => exact ⟨[], behind.symm⟩
    | cons first rest =>
      cases behind
      have fits := window.fits.resolve_left (by simp [split])
      simp only [split, prunedTokens_append, prunedTokens_cons, prunedTokens_nil] at fits held
      omega

theorem toPrune_split (config : PruneConfig) (messages : List Message) :
    ∃ inside, countedResults config messages = inside ++ toPrune config messages := by
  obtain ⟨inside, outside, whole, window⟩ :=
    @exists_window config 0 (countedResults config messages)
  have behind : toPrune config messages = outside := by
    rw [toPrune, whole, beyondWindow_window window]
  exact ⟨inside, by rw [behind, whole]⟩

theorem keepsAll_iff (entries : List (Nat × ToolMessage)) :
    keepsAll config entries = true ↔
      (prunedTokens config entries : Int) < config.minReductionTokens ∨ entries = [] := by
  simp [keepsAll]

/-- What lies behind is left alone when every result of it either fits, with the newer ones, or is
worth less than `min_reduction_tokens`, with the older ones. -/
theorem keepsAll_beyondWindow (total : Nat) (entries : List (Nat × ToolMessage)) :
    keepsAll config (beyondWindow config total entries) = true ↔
      ∀ newer entry older, entries = newer ++ entry :: older →
        (total + prunedTokens config (newer ++ [entry]) : Int) ≤ config.protectTokens ∨
          (prunedTokens config (entry :: older) : Int) < config.minReductionTokens := by
  obtain ⟨inside, outside, rfl, window⟩ := @exists_window config total entries
  rw [beyondWindow_window window, keepsAll_iff]
  constructor
  · intro little newer entry older whole
    by_cases held : (total + prunedTokens config (newer ++ [entry]) : Int) ≤ config.protectTokens
    · exact .inl held
    · obtain ⟨between, rfl⟩ := suffix_of_not_held window whole held
      rw [prunedTokens_append] at little
      have worth := little.resolve_right (by simp)
      exact .inr (by omega)
  · intro each
    cases outside with
    | nil => exact .inr rfl
    | cons entry older =>
      have full := window.full entry older rfl
      exact .inl ((each inside entry older rfl).resolve_left (by omega))

end SherryAgent.Contracts.Prune
