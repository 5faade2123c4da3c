import SherryAgent.Contracts.Agent.MarkerSteps

/-!
# What a healing writes

Where the marker is not in the list yet, the placeholders and the marker are appended:
every call of the last assistant is answered before the marker. Restoring a marker
changes its contents only.
-/

namespace SherryAgent.Contracts.Agent

open SherryAgent.Source.Agent SherryAgent.Source.Transcript SherryAgent.Contracts.Transcript

variable {thread : String} {tail : Prop} {messages : List Message}

/-! ## The reducer -/

/-- Messages with new ids are appended. -/
theorem addMessages_fresh {added : List Message}
    (fresh : ∀ message ∈ added, ∀ old ∈ messages, messageId old ≠ messageId message)
    (distinct : added.Pairwise fun one other => messageId one ≠ messageId other) :
    addMessages messages added = messages ++ added := by
  induction added generalizing messages with
  | nil => rw [List.append_nil]; rfl
  | cons message added ih =>
    obtain ⟨here, later⟩ := List.pairwise_cons.mp distinct
    have absent : messages.any (messageId · == messageId message) = false := by
      rw [List.any_eq_false]
      intro old member same
      exact fresh message List.mem_cons_self old member (eq_of_beq same)
    have pushed : upsert messages message = messages ++ [message] := by
      rw [upsert, absent, if_neg Bool.false_ne_true]
    rw [addMessages, List.foldl_cons, pushed]
    have rest : addMessages (messages ++ [message]) added = messages ++ [message] ++ added := by
      refine ih ?_ later
      intro other member old inside
      rcases List.mem_append.mp inside with old_one | new_one
      · exact fresh other (List.mem_cons_of_mem _ member) old old_one
      · rw [List.mem_singleton.mp new_one]
        exact here other member
    rw [addMessages] at rest
    rw [rest, List.append_assoc, List.singleton_append]

/-! ## The calls of the last assistant -/

theorem putName_keys (names : List (String × Option String)) (id : String) (name : Option String) :
    (putName names id name).map (·.1) =
      if id ∈ names.map (·.1) then names.map (·.1) else names.map (·.1) ++ [id] := by
  have known : names.any (·.1 == id) = true ↔ id ∈ names.map (·.1) := by
    simp only [List.any_eq_true, beq_iff_eq, List.mem_map]
  rw [putName]
  split
  · rename_i present
    rw [if_pos (known.mp present), List.map_map]
    refine List.map_congr_left fun entry _ => ?_
    dsimp only [Function.comp_apply]
    split
    · rename_i same
      exact (eq_of_beq same).symm
    · rfl
  · rename_i absent
    rw [if_neg fun member => absent (known.mpr member), List.map_append]
    rfl

theorem callNames_nodup (assistant : AiMessage) : ((callNames assistant).map (·.1)).Nodup := by
  have step : ∀ (calls : List Source.Json) (names : List (String × Option String)),
      (names.map (·.1)).Nodup → ((calls.foldl takeCall names).map (·.1)).Nodup := by
    intro calls
    induction calls with
    | nil => exact fun _ nodup => nodup
    | cons call calls ih =>
      intro names nodup
      refine ih _ ?_
      unfold takeCall
      split
      · rw [putName_keys]
        split
        · exact nodup
        · rename_i absent
          exact List.nodup_append.mpr ⟨nodup, List.nodup_singleton _, fun one member other single same =>
            absent (List.mem_singleton.mp single ▸ same ▸ member)⟩
      · exact nodup
  exact step assistant.toolCalls [] List.nodup_nil

theorem trailingAi_cons (message : Message) (rest : List Message) :
    trailingAi (message :: rest) = (trailingAi rest).or
      (match message with | .ai assistant => some (assistant, rest) | _ => none) := by
  cases message <;> simp only [trailingAi] <;> cases trailingAi rest <;> rfl

theorem trailingAi_append (first rest : List Message) :
    trailingAi (first ++ rest) = (trailingAi rest).or
      ((trailingAi first).map fun found => (found.1, found.2 ++ rest)) := by
  induction first with
  | nil => simp [trailingAi]
  | cons message first ih =>
    rw [List.cons_append, trailingAi_cons, ih, trailingAi_cons]
    cases trailingAi rest with
    | some found => rfl
    | none =>
      cases trailingAi first with
      | some found => rfl
      | none => cases message <;> rfl

theorem trailingAi_tools (results : List ToolMessage) : trailingAi (results.map .tool) = none := by
  induction results with
  | nil => rfl
  | cons result results ih =>
    rw [List.map_cons, trailingAi_cons, ih]
    rfl

/-- Every call of the last assistant is answered behind it. -/
def Closed (messages : List Message) : Prop :=
  ∀ assistant later, trailingAi messages = some (assistant, later) →
    ∀ call ∈ callNames assistant, later.any (answers call.1) = true

/-- The marker is in the list, and the calls before it are answered. -/
def ClosedAt (thread : String) (n : Nat) (messages : List Message) : Prop :=
  (∃ message ∈ messages, IsMarker thread n message) ∧
    ∀ first message rest, messages = first ++ message :: rest → IsMarker thread n message →
      Closed first

theorem closed_heal (messages : List Message) (marker : String) (now : Int) :
    Closed (messages ++ (healTrailingToolCalls messages marker now).map .tool) := by
  intro assistant later found call member
  rw [trailingAi_append, trailingAi_tools, Option.none_or] at found
  obtain ⟨⟨last, after⟩, trailing, same⟩ := Option.map_eq_some_iff.mp found
  cases same
  rw [List.any_append, Bool.or_eq_true]
  by_cases answered : after.any (answers call.1) = true
  · exact .inl answered
  · have made : { makeMissingToolResult call.1 call.2 now with id := some (healId marker call.1) } ∈
        healTrailingToolCalls messages marker now := by
      rw [healTrailingToolCalls, trailing]
      exact List.mem_filterMap.mpr ⟨call, member, if_neg answered⟩
    exact .inr (List.any_eq_true.mpr ⟨_, List.mem_map_of_mem made, beq_self_eq_true call.1⟩)

/-! ## The healing -/

theorem heal_placeholder {n : Nat} {now : Int} {result : ToolMessage}
    (member : result ∈ healTrailingToolCalls messages (markerId thread n) now) :
    IsPlaceholder thread n (.tool result) := by
  unfold healTrailingToolCalls at member
  split at member
  · cases member
  · obtain ⟨call, -, made⟩ := List.mem_filterMap.mp member
    dsimp only at made
    split at made
    · cases made
    · cases made
      exact ⟨call.1, rfl⟩

theorem heal_distinct (messages : List Message) (n : Nat) (now : Int) :
    ((healTrailingToolCalls messages (markerId thread n) now).map Message.tool).Pairwise
      fun one other => messageId one ≠ messageId other := by
  rw [List.pairwise_map]
  unfold healTrailingToolCalls
  split
  · exact .nil
  · rename_i trailing later found
    have nodup := List.pairwise_map.mp (callNames_nodup trailing)
    refine List.pairwise_filterMap.mpr (nodup.imp fun {one other} different => ?_)
    intro made here made' there same
    dsimp only at here there
    split at here
    · cases here
    · split at there
      · cases there
      · cases here
        cases there
        exact different (healId_inj.mp (Option.some.inj same))

/-- Where the marker is missing, the placeholders and the marker are appended. -/
theorem heal_appends (partialText : String) (reason : InterruptReason) (now : Int)
    (coherent : Coherent thread tail 0 messages)
    (absent : hasId (markerId thread (humanCount messages)) messages = false) :
    healWithGraph thread partialText reason now messages =
      ({ markerId := markerId thread (humanCount messages), wroteCheckpointer := true
         healedCalls := (healTrailingToolCalls messages
           (markerId thread (humanCount messages)) now).length
         turnSeq := humanCount messages },
        messages ++ ((healTrailingToolCalls messages (markerId thread (humanCount messages)) now).map
          .tool ++ [.ai (interruptMarker (markerId thread (humanCount messages)) partialText
            reason)])) := by
  have unmarked : ∀ old ∈ messages, ¬IsMarker thread (humanCount messages) old := by
    intro old member marker
    rw [hasId_iff.mpr ⟨old, member, marker⟩] at absent
    cases absent
  have no_placeholder : ∀ old ∈ messages, ¬IsPlaceholder thread (humanCount messages) old := by
    intro old member placeholder
    obtain ⟨first, rest, same⟩ := List.append_of_mem member
    obtain ⟨-, next, found, marker⟩ := (same ▸ coherent).at.closing _ placeholder
    have inside : Message.ai next ∈ messages :=
      same ▸ List.mem_append_right _ (List.mem_cons_of_mem _ (nextAi_mem found))
    exact unmarked _ inside marker
  unfold healWithGraph
  dsimp only
  rw [absent, if_neg Bool.false_ne_true, addMessages_fresh]
  · intro message member old inside same
    rcases List.mem_append.mp member with placeholder | marker
    · obtain ⟨result, made, rfl⟩ := List.mem_map.mp placeholder
      obtain ⟨call, named⟩ := heal_placeholder made
      exact no_placeholder old inside ⟨call, same.trans named⟩
    · rw [List.mem_singleton.mp marker] at same
      exact unmarked old inside same
  · refine List.pairwise_append.mpr ⟨heal_distinct messages _ now, List.pairwise_singleton _ _, ?_⟩
    intro one placeholder other marker same
    obtain ⟨result, made, rfl⟩ := List.mem_map.mp placeholder
    rw [List.mem_singleton.mp marker] at same
    exact (heal_placeholder made).not_marker same

theorem coherent_heal (partialText : String) (reason : InterruptReason) (now : Int)
    (coherent : Coherent thread tail 0 messages) :
    Coherent thread True 0 (messages ++
      ((healTrailingToolCalls messages (markerId thread (humanCount messages)) now).map .tool ++
        [.ai (interruptMarker (markerId thread (humanCount messages)) partialText reason)])) := by
  generalize made : healTrailingToolCalls messages (markerId thread (humanCount messages)) now = results
  have placeholders : ∀ result ∈ results, IsPlaceholder thread (humanCount messages) (.tool result) :=
    fun result member => heal_placeholder (made ▸ member)
  have noAi : nextAi (results.map Message.tool) = none := nextAi_eq_none.mpr fun message member => by
    obtain ⟨result, -, rfl⟩ := List.mem_map.mp member
    rfl
  have marker : IsMarker thread (humanCount messages)
      (.ai (interruptMarker (markerId thread (humanCount messages)) partialText reason)) := rfl
  have number : ∀ n, IsMarker thread n
      (.ai (interruptMarker (markerId thread (humanCount messages)) partialText reason)) →
        humanCount messages = n := fun n other => marker.unique other
  refine Coherent.append coherent ((coherent_span_iff noAi rfl).mpr ⟨⟨?_, ?_, ?_, ?_⟩, ?_⟩) ?_
  · intro message member n other
    obtain ⟨result, inside, rfl⟩ := List.mem_map.mp member
    exact (placeholders result inside).not_marker other
  · intro message member n _
    obtain ⟨result, -, rfl⟩ := List.mem_map.mp member
    rfl
  · intro first message after n same _
    have none_human := humanCount_tools results
    rw [same, humanCount_append, humanCount_cons] at none_human
    omega
  · intro message member n placeholder
    obtain ⟨result, inside, rfl⟩ := List.mem_map.mp member
    obtain ⟨call, named⟩ := placeholder
    obtain ⟨other, own⟩ := placeholders result inside
    have same := healId_marker (Option.some.inj (named.symm.trans own))
    exact ⟨_, rfl, same ▸ marker⟩
  · rw [humanCount_tools, Nat.add_zero, Nat.zero_add]
    refine ⟨⟨number, fun _ _ => ⟨rfl, _, rfl, rfl⟩, fun _ _ => .inr trivial,
      fun n placeholder => ?_, fun n placeholder => ?_⟩, trivial⟩
    · exact absurd marker placeholder.not_marker
    · exact absurd marker placeholder.not_marker
  · intro _
    have same := append_of_nextAi [.ai (interruptMarker
      (markerId thread (humanCount messages)) partialText reason)] noAi
    refine .inr ?_
    rw [same.2]
    exact ⟨_, marker⟩

/-! ## Restoring a marker -/

theorem alike_restore {n : Nat} {message : Message} (content : String)
    (marker : IsMarker thread n message) (callless : isSystemReminder message = false ∧
      ∃ ai, message = .ai ai ∧ ai.toolCalls = []) :
    Alike thread message (.ai { id := some (markerId thread n), content := .text content }) := by
  obtain ⟨-, assistant, rfl, empty⟩ := callless
  have same : assistant.id = some (markerId thread n) := marker
  refine ⟨rfl, rfl, rfl, rfl, fun _ => rfl, fun _ _ _ => ⟨_, rfl, rfl⟩, fun k => ?_, fun k => ?_⟩
  · rw [IsMarker, IsMarker, messageId, messageId, same]
  · rw [IsPlaceholder, IsPlaceholder, messageId, messageId, same]

theorem restore_alike {n : Nat} {content : String} {out : List Message}
    (coherent : Coherent thread tail 0 messages)
    (restored : restoreInterruptMarker (markerId thread n) content messages = some out) :
    List.Forall₂ (Alike thread) messages out ∧
      ((∀ message ∈ messages, bearsId message = true) → ∀ message ∈ out, bearsId message = true) := by
  unfold restoreInterruptMarker at restored
  split at restored
  · rename_i present
    cases restored
    have put : addMessages messages [.ai { id := some (markerId thread n), content := .text content }] =
        messages.map fun other => if messageId other == some (markerId thread n) then
          .ai { id := some (markerId thread n), content := .text content } else other :=
      if_pos present
    rw [put]
    constructor
    · refine List.forall₂_map_right_iff.mpr (List.forall₂_same.mpr fun message member => ?_)
      split
      · rename_i same
        have marker : IsMarker thread n message := eq_of_beq same
        obtain ⟨first, rest, whole⟩ := List.append_of_mem member
        exact alike_restore content marker ((whole ▸ coherent).at.callless n marker)
      · exact .refl message
    · intro named message member
      obtain ⟨old, inside, rfl⟩ := List.mem_map.mp member
      split
      · rename_i same
        have old_named := named old inside
        rwa [bearsId, eq_of_beq same] at old_named
      · exact named old inside
  · cases restored

end SherryAgent.Contracts.Agent
