import Mathlib.Algebra.BigOperators.Ring.Finset
import SherryAgent.Contracts.Dicts
import SherryAgent.Contracts.Prune
import SherryAgent.Library.Ledger
import SherryAgent.Source.Summarization.Calls
import SherryAgent.Source.Summarization.Dedup
import SherryAgent.Source.Summarization.TargetTruncation

/-!
# The savings that the reduction passes report

- `savings_real_iff`: a pass never raises the estimate and reports no more than it saves exactly when
  no text that it writes is estimated higher than the text in its place; the prune reports what it
  takes out without what it puts in, so its texts must be estimated at nothing
- `placeholder_grows`: a short output is replaced by a longer placeholder
-/

namespace SherryAgent.Guarantees.ReportedSavings

open SherryAgent.Source SherryAgent.Source.Transcript SherryAgent.Source.Summarization
open SherryAgent.Contracts.Dicts SherryAgent.Contracts.Prune
open SherryAgent.Library.Ledger

/-! ## The estimate -/

/-- A token estimate of texts that grows with their length. -/
structure TextEstimate where
  tokens : String → Nat
  monotone : ∀ short long : String, short.toList.length ≤ long.toList.length →
    tokens short ≤ tokens long

/-- What a tool call adds, by its name and its arguments. -/
def callCost (estimate : TextEstimate) (call : Json) : Nat :=
  estimate.tokens (callName call) + estimate.tokens (callArgs call).dumps

/-- The estimate of a message, whose content counts as its text. -/
def messageCost (estimate : TextEstimate) : Message → Nat
  | .plain message => estimate.tokens (contentStr message.content)
  | .ai message =>
    estimate.tokens (contentStr message.content) + total (callCost estimate) message.toolCalls
  | .tool message =>
    estimate.tokens (contentStr message.content) +
      if message.toolCallId = "" then 0 else estimate.tokens message.toolCallId

/-! ## The passes -/

/-- What the passes use of the interpreter. -/
structure Interpreter where
  md5 : Json → String
  isDigit : Char → Bool

inductive Pass where
  | dedup (protectedTools : List String)
  | prune (protectTokens minReductionTokens : Int) (protectedTools : List String)
  | truncateOutputs (config : TargetConfig)
  | truncateArgs (config : ArgsConfig)
  | microcompact (config : MicroConfig)

def pruneConfig (interpreter : Interpreter) (estimate : TextEstimate)
    (protectTokens minReductionTokens : Int) (protectedTools : List String) : PruneConfig :=
  { protectTokens, minReductionTokens, protectedTools, estimateText := estimate.tokens
    str := Json.pyStr, isDigit := interpreter.isDigit }

/-- The messages that a pass returns, and the saving that it reports. -/
def Pass.run (interpreter : Interpreter) (estimate : TextEstimate) (messages : List Message) :
    Pass → List Message × Int
  | .dedup protectedTools =>
    dedupToolOutputs interpreter.md5 estimate.tokens protectedTools messages
  | .prune protectTokens minReductionTokens protectedTools =>
    let result := pruneToolOutputs
      (pruneConfig interpreter estimate protectTokens minReductionTokens protectedTools) messages
    (result.1, result.2)
  | .truncateOutputs config => targetTruncateToolOutputs estimate.tokens config messages
  | .truncateArgs config => truncateToolArgs estimate.tokens config messages
  | .microcompact config => maybeLocalMicrocompact (messageCost estimate) config messages

/-- The estimate does not grow, and the report is between nothing and what is saved. -/
structure Real (estimate : TextEstimate) (before : List Message) (result : List Message × Int) :
    Prop where
  shrinks : total (messageCost estimate) result.1 ≤ total (messageCost estimate) before
  reports : 0 ≤ result.2
  within : result.2 ≤
    (total (messageCost estimate) before : Int) - total (messageCost estimate) result.1

/-- No text is replaced by one that is estimated higher; a pruned one is replaced by nothing. -/
def Pass.Accounts (interpreter : Interpreter) (estimate : TextEstimate) (messages : List Message) :
    Pass → Prop
  | .dedup protectedTools =>
    let calls := recordedCalls interpreter.md5 (dedupProtected protectedTools) messages
    ∀ result, Message.tool result ∈ messages → ∀ placeholder,
      placeholderFor calls (.tool result) = some placeholder →
      estimate.tokens placeholder ≤ estimate.tokens (contentStr result.content)
  | .prune protectTokens minReductionTokens protectedTools =>
    let config := pruneConfig interpreter estimate protectTokens minReductionTokens protectedTools
    keepsAll config (toPrune config messages) = true ∨ ∀ entry ∈ toPrune config messages,
      estimate.tokens (contentStr (prunedResult config messages entry.1 entry.2).content) = 0
  | .truncateOutputs config =>
    ∀ written ∈ truncateLoop estimate.tokens config 0 (candidatesOf config messages),
      estimate.tokens written.2 ≤ estimate.tokens written.1.content
  | .truncateArgs config =>
    ∀ message, Message.ai message ∈ messages.take (keepUntil config messages) →
      ∀ call ∈ message.toolCalls, rewrites config call = true →
        estimate.tokens (truncatedArgs config call).dumps ≤ estimate.tokens (callArgs call).dumps
  | .microcompact config =>
    microcompactDiscards (messageCost estimate) config messages = true ∨
      ∀ result, Message.tool result ∈ microcompactOlder config messages →
        compacts config (.tool result) = true →
        estimate.tokens clearedMarker ≤ estimate.tokens (contentStr result.content)

variable {estimate : TextEstimate} {messages : List Message} {ω : Type}

theorem real_iff {after : List Message} {saved : Int} {entries : List ω}
    {gain reported : ω → Int}
    (gained : (total (messageCost estimate) messages : Int) - total (messageCost estimate) after =
      (entries.map gain).sum)
    (counted : saved = (entries.map reported).sum)
    (covers : ∀ entry ∈ entries, gain entry ≤ reported entry)
    (positive : ∀ entry ∈ entries, 0 ≤ reported entry) :
    Real estimate messages (after, saved) ↔ ∀ entry ∈ entries, reported entry ≤ gain entry := by
  have reports : 0 ≤ saved := by
    rw [counted]
    apply List.sum_nonneg
    intro amount mem
    obtain ⟨entry, entry_mem, rfl⟩ := List.mem_map.mp mem
    exact positive entry entry_mem
  rw [← reported_le_iff covers, ← gained, ← counted]
  constructor
  · intro real
    exact real.within
  · intro within
    have shrinks : total (messageCost estimate) after ≤ total (messageCost estimate) messages := by
      omega
    exact ⟨shrinks, reports, within⟩

theorem real_unchanged : Real estimate messages (messages, 0) :=
  ⟨Nat.le_refl _, Int.le_refl _, by simp⟩

theorem cost_result {result other : ToolMessage} (same_call : other.toolCallId = result.toolCallId) :
    (messageCost estimate (.tool result) : Int) - messageCost estimate (.tool other) =
      (estimate.tokens (contentStr result.content) : Int) -
        estimate.tokens (contentStr other.content) := by
  simp only [messageCost, same_call]
  omega

theorem cost_withContent (text : String) (result : ToolMessage) :
    (messageCost estimate (.tool result) : Int) -
        messageCost estimate (withContent text (.tool result)) =
      (estimate.tokens (contentStr result.content) : Int) - estimate.tokens text :=
  cost_result rfl

/-! ## Deduplication -/

theorem dedup_entry {calls : List (String × String)} (result : ToolMessage) :
    let gain := (messageCost estimate (.tool result) : Int) -
      messageCost estimate (dedupMessage calls (.tool result))
    let reported := dedupReduced estimate.tokens calls (.tool result)
    gain ≤ reported ∧ 0 ≤ reported ∧ (reported ≤ gain ↔ ∀ placeholder,
      placeholderFor calls (.tool result) = some placeholder →
      estimate.tokens placeholder ≤ estimate.tokens (contentStr result.content)) := by
  cases written : placeholderFor calls (.tool result) with
  | none => simp [dedupMessage, dedupReduced, written]
  | some placeholder =>
    simp only [dedupMessage, dedupReduced, written]
    rw [cost_withContent]
    by_cases longer : placeholder.length < (contentStr result.content).length
    · have more := estimate.monotone placeholder (contentStr result.content)
        (by rw [String.length_toList, String.length_toList]; omega)
      rw [if_pos longer]
      simp only [Option.some.injEq, forall_eq']
      omega
    · have more := estimate.monotone (contentStr result.content) placeholder
        (by rw [String.length_toList, String.length_toList]; omega)
      rw [if_neg longer]
      simp only [Option.some.injEq, forall_eq']
      omega

theorem dedup_real_iff (interpreter : Interpreter) (protectedTools : List String) :
    Real estimate messages (dedupToolOutputs interpreter.md5 estimate.tokens protectedTools
      messages) ↔ Pass.Accounts interpreter estimate messages (.dedup protectedTools) := by
  unfold dedupToolOutputs Pass.Accounts
  dsimp only
  generalize recordedCalls interpreter.md5 (dedupProtected protectedTools) messages = calls
  have other : ∀ message, (∀ result, message ≠ Message.tool result) →
      dedupMessage calls message = message ∧ dedupReduced estimate.tokens calls message = 0 := by
    intro message not_tool
    cases message with
    | tool result => exact absurd rfl (not_tool result)
    | _ => exact ⟨rfl, rfl⟩
  rw [real_iff (gain_map _ _ _) rfl]
  · constructor
    · intro each result mem
      exact (dedup_entry result).2.2.mp (each _ mem)
    · intro accounts message mem
      cases message with
      | tool result => exact (dedup_entry result).2.2.mpr (accounts result mem)
      | _ => simp [dedupMessage, placeholderFor, dedupReduced]
  · intro message _
    cases message with
    | tool result => exact (dedup_entry result).1
    | _ => simp [dedupMessage, placeholderFor, dedupReduced]
  · intro message _
    cases message with
    | tool result => exact (dedup_entry result).2.1
    | _ => exact Int.le_refl _

/-! ## Pruning -/

variable {config : PruneConfig}

theorem counted_stands {entry : Nat × ToolMessage} (mem : entry ∈ countedResults config messages) :
    messages[entry.1]? = some (.tool entry.2) := by
  obtain ⟨item, item_mem, found⟩ := List.mem_filterMap.mp mem
  have listed := List.mem_reverse.mp ((List.takeWhile_sublist _).subset item_mem)
  have stands := List.mem_zipIdx_iff_getElem?.mp listed
  have place := countedResult_index found
  obtain ⟨message, index⟩ := item
  unfold countedResult at found
  split at found
  · next result same =>
    split at found
    · cases found
    · split at found
      · cases found
      · cases found
        rw [← same]
        exact stands
  · cases found

theorem mem_counted {entry : Nat × ToolMessage} (mem : entry ∈ toPrune config messages) :
    entry ∈ countedResults config messages := by
  obtain ⟨kept, whole⟩ := toPrune_split config messages
  rw [whole]
  exact List.mem_append_right _ mem

theorem nodup_toPrune (config : PruneConfig) (messages : List Message) :
    ((toPrune config messages).map (·.1)).Nodup := by
  obtain ⟨kept, whole⟩ := toPrune_split config messages
  have distinct := nodup_counted config messages
  rw [whole, List.map_append] at distinct
  exact (List.nodup_append.mp distinct).2.1

theorem contentText_pyStr (content : Content) :
    contentText Json.pyStr content = contentStr content := by
  cases content with
  | text => rfl
  | blocks => rfl

theorem prune_real_iff (interpreter : Interpreter) (protectTokens minReductionTokens : Int)
    (protectedTools : List String) :
    Real estimate messages
        (Pass.run interpreter estimate messages (.prune protectTokens minReductionTokens
          protectedTools)) ↔
      Pass.Accounts interpreter estimate messages
        (.prune protectTokens minReductionTokens protectedTools) := by
  simp only [Pass.run, Pass.Accounts, pruneToolOutputs]
  have costs : ∀ result, tokenEst
      (pruneConfig interpreter estimate protectTokens minReductionTokens protectedTools) result =
        estimate.tokens (contentStr result.content) := by
    intro result
    exact congrArg estimate.tokens (contentText_pyStr result.content)
  generalize pruneConfig interpreter estimate protectTokens minReductionTokens protectedTools =
    config at costs ⊢
  by_cases keeps : keepsAll config (toPrune config messages) = true
  · rw [if_pos keeps]
    exact ⟨fun _ => .inl keeps, fun _ => real_unchanged⟩
  · rw [if_neg keeps, or_iff_right keeps]
    let gain := fun entry : Nat × ToolMessage =>
      (estimate.tokens (contentStr entry.2.content) : Int) -
        estimate.tokens (contentStr (prunedResult config messages entry.1 entry.2).content)
    have gained := gain_places (messageCost estimate)
      (pruneMessage config messages ((toPrune config messages).map (·.1))) (·.1) gain
      (nodup_toPrune config messages)
      (by
        intro entry mem
        refine ⟨_, counted_stands (mem_counted mem), ?_⟩
        rw [pruneMessage, if_pos (List.mem_map_of_mem mem)]
        exact (@cost_result estimate entry.2 (prunedResult config messages entry.1 entry.2)
          rfl).symm)
      (by
        intro index message _ other
        cases message with
        | tool result => exact if_neg other
        | _ => rfl)
    have counted : (prunedTokens config (toPrune config messages) : Int) =
        ((toPrune config messages).map fun entry =>
          (estimate.tokens (contentStr entry.2.content) : Int)).sum := by
      unfold prunedTokens
      rw [Nat.cast_list_sum, List.map_map]
      congr 1
      apply List.map_congr_left
      intro entry _
      exact congrArg Nat.cast (costs entry.2)
    rw [real_iff gained counted]
    · apply forall₂_congr
      intro entry _
      simp only [gain]
      omega
    · intro entry _
      simp only [gain]
      omega
    · intro entry _
      exact Int.natCast_nonneg _

/-! ## Truncation of outputs -/

theorem candidate_stands {config : TargetConfig} {candidate : Candidate}
    (mem : candidate ∈ candidatesOf config messages) :
    ∃ result, messages[candidate.idx]? = some (.tool result) ∧
      candidate.content = contentStr result.content := by
  obtain ⟨item, item_mem, found⟩ := List.mem_filterMap.mp (List.mem_mergeSort.mp mem)
  have stands := List.mem_zipIdx_iff_getElem?.mp item_mem
  obtain ⟨message, index⟩ := item
  unfold candidateOf at found
  split at found
  · next result same =>
    dsimp only at found
    split at found
    · cases found
    · split at found
      · cases found
      · cases found
        exact ⟨result, stands.trans (congrArg some same), rfl⟩
  · cases found

theorem candidateOf_idx {config : TargetConfig} {item : Message × Nat} {candidate : Candidate}
    (found : candidateOf config messages item = some candidate) : candidate.idx = item.2 := by
  unfold candidateOf at found
  split at found
  · dsimp only at found
    split at found
    · cases found
    · split at found
      · cases found
      · cases found
        rfl
  · cases found

theorem nodup_candidates (config : TargetConfig) (messages : List Message) :
    ((candidatesOf config messages).map (·.idx)).Nodup := by
  unfold candidatesOf
  rw [((List.mergeSort_perm _ _).map _).nodup_iff]
  exact nodup_places (fun _ _ => candidateOf_idx) messages

theorem truncateLoop_sublist {config : TargetConfig} (totalReduced : Int)
    (candidates : List Candidate) :
    ((truncateLoop estimate.tokens config totalReduced candidates).map (·.1)).Sublist
      candidates := by
  induction candidates generalizing totalReduced with
  | nil => exact List.Sublist.slnil
  | cons candidate rest ih =>
    unfold truncateLoop
    split
    · exact List.nil_sublist _
    · split
      · exact (ih totalReduced).cons _
      · exact (ih _).cons_cons _

theorem outputs_real_iff (interpreter : Interpreter) (config : TargetConfig) :
    Real estimate messages (targetTruncateToolOutputs estimate.tokens config messages) ↔
      Pass.Accounts interpreter estimate messages (.truncateOutputs config) := by
  unfold targetTruncateToolOutputs Pass.Accounts
  dsimp only
  have taken := @truncateLoop_sublist estimate config 0 (candidatesOf config messages)
  generalize truncateLoop estimate.tokens config 0 (candidatesOf config messages) = written
    at taken ⊢
  have distinct : (written.map fun entry => entry.1.idx).Nodup := by
    have places := (nodup_candidates config messages).sublist (taken.map (·.idx))
    rw [List.map_map] at places
    exact places
  let gain := fun entry : Candidate × String =>
    (estimate.tokens entry.1.content : Int) - estimate.tokens entry.2
  have gained := gain_places (messageCost estimate) (writeBack written) (fun entry => entry.1.idx)
    gain distinct
    (by
      intro entry mem
      obtain ⟨result, stands, same⟩ :=
        candidate_stands (taken.subset (List.mem_map_of_mem (f := (·.1)) mem))
      refine ⟨_, stands, ?_⟩
      have found := find_place distinct mem
      simp only [writeBack, found]
      rw [cost_withContent, ← same])
    (by
      intro index message _ other
      have absent : (written.find? fun entry => entry.1.idx == index) = none := by
        rw [List.find?_eq_none]
        intro entry mem here
        exact other (List.mem_map.mpr ⟨entry, mem, beq_iff_eq.mp here⟩)
      simp only [writeBack, absent])
  rw [real_iff gained rfl]
  · apply forall₂_congr
    intro entry _
    simp only [gain, truncatedSaving]
    omega
  · intro entry _
    simp only [gain, truncatedSaving]
    omega
  · intro entry _
    exact Int.le_max_right _ _

/-! ## Truncation of arguments -/

theorem cost_truncateCall (config : ArgsConfig) (call : Json) :
    (callCost estimate call : Int) - callCost estimate (truncateCall config call) =
      if rewrites config call then
        (estimate.tokens (callArgs call).dumps : Int) -
          estimate.tokens (truncatedArgs config call).dumps
      else 0 := by
  unfold truncateCall callCost
  split
  · rw [callName_withArgs, callArgs_withArgs]
    omega
  · omega

theorem args_entry (config : ArgsConfig) (message : AiMessage) :
    let gain := (messageCost estimate (.ai message) : Int) -
      messageCost estimate (truncateCalls config (.ai message))
    let reported := messageFreed estimate.tokens config (.ai message)
    gain ≤ reported ∧ 0 ≤ reported ∧ (reported ≤ gain ↔ ∀ call ∈ message.toolCalls,
      rewrites config call = true →
        estimate.tokens (truncatedArgs config call).dumps ≤
          estimate.tokens (callArgs call).dumps) := by
  have gained := gain_map (callCost estimate) (truncateCall config) message.toolCalls
  have same : (messageCost estimate (.ai message) : Int) -
      messageCost estimate (truncateCalls config (.ai message)) =
        (message.toolCalls.map fun call =>
          (callCost estimate call : Int) - callCost estimate (truncateCall config call)).sum := by
    rw [← gained]
    simp only [messageCost, truncateCalls]
    omega
  have covers : ∀ call ∈ message.toolCalls,
      (callCost estimate call : Int) - callCost estimate (truncateCall config call) ≤
        freedTokens estimate.tokens config call := by
    intro call _
    rw [cost_truncateCall]
    unfold freedTokens
    split <;> omega
  dsimp only
  rw [same]
  refine ⟨List.sum_le_sum covers, ?_, ?_⟩
  · apply List.sum_nonneg
    intro amount mem
    obtain ⟨call, -, rfl⟩ := List.mem_map.mp mem
    unfold freedTokens
    split <;> omega
  · unfold messageFreed
    rw [reported_le_iff covers]
    apply forall₂_congr
    intro call _
    rw [cost_truncateCall]
    unfold freedTokens
    split
    · simp only [*, true_implies]
      omega
    · simp [*]

theorem args_real_iff (interpreter : Interpreter) (config : ArgsConfig) :
    Real estimate messages (truncateToolArgs estimate.tokens config messages) ↔
      Pass.Accounts interpreter estimate messages (.truncateArgs config) := by
  unfold truncateToolArgs Pass.Accounts
  dsimp only
  have gained : (total (messageCost estimate) messages : Int) -
      total (messageCost estimate) ((messages.take (keepUntil config messages)).map
        (truncateCalls config) ++ messages.drop (keepUntil config messages)) = _ :=
    gain_front (messageCost estimate) (truncateCalls config) messages (keepUntil config messages)
  rw [real_iff gained rfl]
  · constructor
    · intro each message mem
      exact (args_entry config message).2.2.mp (each _ mem)
    · intro accounts message mem
      cases message with
      | ai message => exact (args_entry config message).2.2.mpr (accounts message mem)
      | _ => simp [truncateCalls, messageFreed]
  · intro message _
    cases message with
    | ai message => exact (args_entry config message).1
    | _ => simp [truncateCalls, messageFreed]
  · intro message _
    cases message with
    | ai message => exact (args_entry config message).2.1
    | _ => exact Int.le_refl _

/-! ## Microcompaction -/

theorem micro_entry (config : MicroConfig) (result : ToolMessage) :
    let gain := (messageCost estimate (.tool result) : Int) -
      messageCost estimate (compactMessage config (.tool result))
    let reported := compactSaving (messageCost estimate) config (.tool result)
    gain ≤ reported ∧ 0 ≤ reported ∧ (reported ≤ gain ↔
      (compacts config (.tool result) = true →
        estimate.tokens clearedMarker ≤ estimate.tokens (contentStr result.content))) := by
  unfold compactMessage compactSaving
  dsimp only
  split
  · have written := @cost_withContent estimate clearedMarker result
    simp only [*, true_implies]
    omega
  · simp [*]

theorem micro_real_iff (interpreter : Interpreter) (config : MicroConfig) :
    Real estimate messages (maybeLocalMicrocompact (messageCost estimate) config messages) ↔
      Pass.Accounts interpreter estimate messages (.microcompact config) := by
  unfold maybeLocalMicrocompact Pass.Accounts
  by_cases discards : microcompactDiscards (messageCost estimate) config messages = true
  · rw [if_pos discards]
    exact ⟨fun _ => .inl discards, fun _ => real_unchanged⟩
  · rw [if_neg discards]
    dsimp only
    rw [or_iff_right discards]
    unfold microcompactSaved
    have gained : (total (messageCost estimate) messages : Int) -
        total (messageCost estimate) ((microcompactOlder config messages).map
          (compactMessage config) ++ messages.drop (messages.length - config.keepRecent)) =
        ((microcompactOlder config messages).map fun message =>
          (messageCost estimate message : Int) -
            messageCost estimate (compactMessage config message)).sum :=
      gain_front (messageCost estimate) (compactMessage config) messages
        (messages.length - config.keepRecent)
    rw [real_iff gained rfl]
    · constructor
      · intro each result mem
        exact (micro_entry config result).2.2.mp (each _ mem)
      · intro accounts message mem
        cases message with
        | tool result => exact (micro_entry config result).2.2.mpr (accounts result mem)
        | _ => simp [compactMessage, compactSaving, compacts]
    · intro message _
      cases message with
      | tool result => exact (micro_entry config result).1
      | _ => simp [compactMessage, compactSaving, compacts]
    · intro message _
      cases message with
      | tool result => exact (micro_entry config result).2.1
      | _ => simp [compactSaving, compacts]

/-! ## All passes -/

/-- A pass reports what it saves exactly when it accounts for the texts that it writes. -/
theorem savings_real_iff (interpreter : Interpreter) (estimate : TextEstimate)
    (messages : List Message) (pass : Pass) :
    Real estimate messages (pass.run interpreter estimate messages) ↔
      pass.Accounts interpreter estimate messages := by
  cases pass with
  | dedup protectedTools => exact dedup_real_iff interpreter protectedTools
  | prune protectTokens minReductionTokens protectedTools =>
    exact prune_real_iff interpreter protectTokens minReductionTokens protectedTools
  | truncateOutputs config => exact outputs_real_iff interpreter config
  | truncateArgs config => exact args_real_iff interpreter config
  | microcompact config => exact micro_real_iff interpreter config

/-! ## A short output -/

def lengths : TextEstimate := ⟨fun text => text.toList.length, fun _ _ shorter => shorter⟩

def echo (id : String) : Message :=
  .ai { toolCalls := [.obj [("id", .str id), ("name", .str "echo"), ("args", .obj [])]] }

def echoed (id : String) : Message := .tool { content := .text "ok", toolCallId := id }

def constantDigest : Interpreter := ⟨fun _ => "digest", Char.isDigit⟩

theorem placeholder_of_echo :
    placeholderFor (recordedCalls constantDigest.md5 (dedupProtected [])
      [echo "a", echoed "a", echo "b"]) (echoed "a") =
      some (duplicatePlaceholder "echo::digest") := by
  decide +kernel

/-- Two identical calls whose output is two characters: the older output becomes longer. -/
theorem placeholder_grows : ¬∀ (interpreter : Interpreter) (estimate : TextEstimate)
    (messages : List Message) (pass : Pass),
    Real estimate messages (pass.run interpreter estimate messages) := by
  intro every
  have real := every constantDigest lengths [echo "a", echoed "a", echo "b"] (.dedup [])
  have accounts := (dedup_real_iff constantDigest []).mp real
  have short := accounts { content := .text "ok", toolCallId := "a" } (.tail _ (.head _)) _
    placeholder_of_echo
  unfold duplicatePlaceholder lengths at short
  simp [contentStr] at short

end SherryAgent.Guarantees.ReportedSavings
