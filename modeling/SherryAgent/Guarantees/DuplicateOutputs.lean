import SherryAgent.Source.Summarization.Dedup

/-!
# What the deduplication of tool outputs loses

- `nothing_lost_iff`: exactly when every cleared result has an intact later copy
- `unanswered_newest`: the newest call has no result, and the only copy is cleared
-/

namespace SherryAgent.Guarantees.DuplicateOutputs

open SherryAgent.Source SherryAgent.Source.Transcript SherryAgent.Source.Summarization

variable {messages : List Message} {calls : List (String × String)} {id : String} {i j k : Nat}

/-- The tool name and the arguments of the call that the result at the index answers. -/
def answeredCall (messages : List Message) (i : Nat) : Option (String × Json) :=
  match messages[i]? with
  | some (.tool result) => (findToolCall messages i result.toolCallId).map fun call =>
      (callName call, sortKeys (callArgs call))
  | _ => none

/-- Two results answer calls with the same tool name and arguments. -/
def SameCall (messages : List Message) (i j : Nat) : Prop :=
  ∃ call, answeredCall messages i = some call ∧ answeredCall messages j = some call

/-- No later result answers a call with the same tool name and arguments. -/
def LastOfCall (messages : List Message) (i : Nat) : Prop :=
  ∀ j, i < j → ¬SameCall messages i j

/-- The message at the index is a tool result for the id. -/
def ResultFor (messages : List Message) (i : Nat) (id : String) : Prop :=
  ∃ result : ToolMessage, messages[i]? = some (.tool result) ∧ result.toolCallId = id

/-- The signature of the last call under the id was called more than once, and the id is not the
newest one of any such signature. -/
def Stale (calls : List (String × String)) (id : String) : Prop :=
  ∃ sig, tcIdToSig calls id = some sig ∧ hasDupes calls sig = true ∧ id ∉ keepTcIds calls

/-- The pass writes a placeholder into the message. -/
def Clears (calls : List (String × String)) (message : Message) : Prop :=
  ∃ placeholder, placeholderFor calls message = some placeholder

def ClearsAt (calls : List (String × String)) (messages : List Message) (i : Nat) : Prop :=
  ∃ message, messages[i]? = some message ∧ Clears calls message

/-- Whenever the pass clears a result, its output has an intact result of a call with the same
tool name and arguments later in the list. -/
def NothingLost (md5 : Json → String) (estimateText : String → Nat) (protectedTools : List String)
    (messages : List Message) : Prop :=
  let calls := recordedCalls md5 (dedupProtected protectedTools) messages
  ∀ i, ClearsAt calls messages i → ∃ j, i < j ∧ SameCall messages i j ∧
    (dedupToolOutputs md5 estimateText protectedTools messages).1[j]? = messages[j]? ∧
    ¬ClearsAt calls messages j

/-! ## One message -/

theorem clears_tool (result : ToolMessage) :
    Clears calls (.tool result) ↔ Stale calls result.toolCallId := by
  unfold Clears Stale placeholderFor
  cases known : tcIdToSig calls result.toolCallId with
  | none => simp [known]
  | some sig =>
    by_cases repeated : hasDupes calls sig = true
    · by_cases kept : result.toolCallId ∈ keepTcIds calls
      · simp [known, kept]
      · simp [known, repeated, kept]
    · simp [known, repeated]

theorem tool_of_clears {message : Message} (clears : Clears calls message) :
    ∃ result, message = .tool result := by
  obtain ⟨placeholder, written⟩ := clears
  cases message with
  | plain => cases written
  | ai => cases written
  | tool result => exact ⟨result, rfl⟩

/-- A cleared result keeps everything but its content. -/
theorem dedupMessage_of_clears {result : ToolMessage} (clears : Clears calls (.tool result)) :
    ∃ sig, tcIdToSig calls result.toolCallId = some sig ∧
      dedupMessage calls (.tool result) =
        .tool { result with content := .text (duplicatePlaceholder sig) } := by
  obtain ⟨sig, known, repeated, older⟩ := (clears_tool result).mp clears
  have written : placeholderFor calls (.tool result) = some (duplicatePlaceholder sig) := by
    simp [placeholderFor, known, repeated, older]
  exact ⟨sig, known, by simp [dedupMessage, written, withContent]⟩

theorem dedupMessage_of_not_clears {message : Message} (intact : ¬Clears calls message) :
    dedupMessage calls message = message := by
  unfold dedupMessage
  split
  · rename_i placeholder written
    exact absurd ⟨placeholder, written⟩ intact
  · rfl

theorem clearsAt_iff : ClearsAt calls messages i ↔ ∃ id, ResultFor messages i id ∧ Stale calls id := by
  constructor
  · rintro ⟨message, stands, clears⟩
    obtain ⟨result, rfl⟩ := tool_of_clears clears
    exact ⟨result.toolCallId, ⟨result, stands, rfl⟩, (clears_tool result).mp clears⟩
  · rintro ⟨id, ⟨result, stands, rfl⟩, stale⟩
    exact ⟨.tool result, stands, (clears_tool result).mpr stale⟩

theorem output_of_not_clearsAt {md5 : Json → String} {estimateText : String → Nat}
    {protectedTools : List String}
    (intact : ¬ClearsAt (recordedCalls md5 (dedupProtected protectedTools) messages) messages j) :
    (dedupToolOutputs md5 estimateText protectedTools messages).1[j]? = messages[j]? := by
  unfold dedupToolOutputs
  rw [List.getElem?_map]
  cases stands : messages[j]? with
  | none => rfl
  | some message =>
    have left : ¬Clears (recordedCalls md5 (dedupProtected protectedTools) messages) message :=
      fun clears => intact ⟨message, stands, clears⟩
    rw [Option.map_some, dedupMessage_of_not_clears left]

/-! ## The last result of a call -/

theorem SameCall.trans (first : SameCall messages i j) (second : SameCall messages j k) :
    SameCall messages i k := by
  obtain ⟨call, at_i, at_j⟩ := first
  obtain ⟨other, same, at_k⟩ := second
  rw [at_j] at same
  obtain rfl := Option.some.inj same
  exact ⟨call, at_i, at_k⟩

theorem lt_of_sameCall (same : SameCall messages i j) : j < messages.length := by
  obtain ⟨call, -, at_j⟩ := same
  by_cases inside : j < messages.length
  · exact inside
  · have beyond : messages[j]? = none := List.getElem?_eq_none (by omega)
    simp [answeredCall, beyond] at at_j

theorem resultFor_of_sameCall (same : SameCall messages i j) : ∃ id, ResultFor messages j id := by
  obtain ⟨call, -, at_j⟩ := same
  unfold answeredCall at at_j
  cases stands : messages[j]? with
  | none => simp [stands] at at_j
  | some message =>
    cases message with
    | plain => simp [stands] at at_j
    | ai => simp [stands] at at_j
    | tool result => exact ⟨result.toolCallId, result, stands, rfl⟩

/-- Behind a result that is not the last one of its call stands the last one. The induction is on
the number of messages behind it. -/
theorem exists_last (same : SameCall messages i j) (later : i < j) :
    ∃ k, i < k ∧ SameCall messages i k ∧ LastOfCall messages k := by
  have bound := lt_of_sameCall same
  obtain ⟨rest, counted⟩ : ∃ rest, messages.length - j = rest := ⟨_, rfl⟩
  induction rest using Nat.strongRecOn generalizing j with
  | ind rest ih =>
    by_cases last : LastOfCall messages j
    · exact ⟨j, later, same, last⟩
    · unfold LastOfCall at last
      simp only [not_forall, Classical.not_not] at last
      obtain ⟨k, behind, again⟩ := last
      have inside := lt_of_sameCall again
      exact ih (messages.length - k) (by omega) (same.trans again) (by omega) inside rfl

/-- Nothing is lost exactly when the last result of every call stands under an id that is not
stale: its signature was called once, or it is the newest id of a repeated signature. -/
theorem nothing_lost_iff (md5 : Json → String) (estimateText : String → Nat)
    (protectedTools : List String) (messages : List Message) :
    NothingLost md5 estimateText protectedTools messages ↔
      ∀ i id, ResultFor messages i id → LastOfCall messages i →
        ¬Stale (recordedCalls md5 (dedupProtected protectedTools) messages) id := by
  constructor
  · intro kept i id result last stale
    obtain ⟨j, later, same, -⟩ := kept i (clearsAt_iff.mpr ⟨id, result, stale⟩)
    exact last j later same
  · intro newest i cleared
    have copied : ∃ j, i < j ∧ SameCall messages i j := by
      obtain ⟨id, result, stale⟩ := clearsAt_iff.mp cleared
      by_cases last : LastOfCall messages i
      · exact absurd stale (newest i id result last)
      · unfold LastOfCall at last
        simpa only [not_forall, Classical.not_not, exists_prop] using last
    obtain ⟨j, later, same⟩ := copied
    obtain ⟨k, behind, again, last⟩ := exists_last same later
    have intact :
        ¬ClearsAt (recordedCalls md5 (dedupProtected protectedTools) messages) messages k := by
      rw [clearsAt_iff]
      rintro ⟨id, result, stale⟩
      exact newest k id result last stale
    exact ⟨k, behind, again, output_of_not_clearsAt intact, intact⟩

/-- A `read` of one file under the id. -/
def readCall (id : String) : Message :=
  .ai { toolCalls := [.obj [("name", .str "read"), ("args", .obj [("path", .str "a.py")]),
    ("id", .str id)]] }

/-- The second read was interrupted before its result. -/
def interruptedRead : List Message :=
  [readCall "a", .tool { content := .text "text of the file", toolCallId := "a" }, readCall "b"]

theorem unanswered_newest :
    ¬NothingLost (fun _ => "8dc6c55eff44a3f409e397ecbd3f4731") String.length [] interruptedRead := by
  intro kept
  have stale : Stale (recordedCalls (fun _ => "8dc6c55eff44a3f409e397ecbd3f4731")
      (dedupProtected []) interruptedRead) "a" :=
    ⟨"read::8dc6c55eff44a3f409e397ecbd3f4731", by decide, by decide, by decide⟩
  obtain ⟨j, later, same, -⟩ := kept 1 (clearsAt_iff.mpr ⟨"a", ⟨_, rfl, rfl⟩, stale⟩)
  have inside : j < 3 := lt_of_sameCall same
  obtain ⟨id, result, stands, -⟩ := resultFor_of_sameCall same
  obtain rfl : j = 2 := by omega
  cases stands

end SherryAgent.Guarantees.DuplicateOutputs
