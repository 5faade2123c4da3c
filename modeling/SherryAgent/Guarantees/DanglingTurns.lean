import SherryAgent.Contracts.Agent.Healing
import SherryAgent.Source.Server.EditMessage

/-!
# Dangling turns at boot

- `detector_healer_agree`: the scan finds a dangling call exactly when the healing writes a placeholder
  and no human message follows the last assistant; the healing answers the last assistant's calls
- `human_closes_span`: a human message behind a call without a result
-/

namespace SherryAgent.Guarantees.DanglingTurns

open SherryAgent.Source SherryAgent.Source.Agent SherryAgent.Source.Server
open SherryAgent.Source.Transcript SherryAgent.Contracts.Agent

variable {messages newer older front later : List Message} {trailing : AiMessage}
  {answered : List String} {id marker : String} {now : Int}

/-- Where the scan's answered ids and its search are wider than the last assistant's turn: an id of
that assistant has a result before it only, or it has no calls and the scan comes to the calls of an
older one. -/
inductive Slip (messages : List Message) : Prop where
  | reused {front later : List Message} {trailing : AiMessage} {id : String}
      (split_here : messages = front ++ .ai trailing :: later) (last : trailingAi later = none)
      (call : id ∈ callIds trailing) (before : front.any (answers id) = true)
      (missing : later.any (answers id) = false) : Slip messages
  | silent {front later between : List Message} {trailing earlier : AiMessage} {id : String}
      (split_here : messages = front ++ .ai earlier :: (between ++ .ai trailing :: later))
      (last : trailingAi later = none) (text : trailing.toolCalls = [])
      (no_human : ∀ message ∈ between ++ later, isHuman message = false)
      (no_calls : ∀ assistant, .ai assistant ∈ between → assistant.toolCalls = [])
      (call : id ∈ callIds earlier) (missing : messages.any (answers id) = false) : Slip messages

/-- What the healing writes: the placeholders and the marker. -/
def written (messages : List Message) (marker : String) (now : Int) (partialText : String)
    (reason : InterruptReason) : List Message :=
  (healTrailingToolCalls messages marker now).map .tool ++
    [.ai (interruptMarker marker partialText reason)]

/-- The healed transcript. -/
def healed (messages : List Message) (marker : String) (now : Int) (partialText : String)
    (reason : InterruptReason) : List Message :=
  messages ++ written messages marker now partialText reason

/-! ## The last assistant -/

theorem trailingAi_eq_none : trailingAi messages = none ↔
    ∀ message ∈ messages, message.isAi = false := by
  induction messages with
  | nil => simp [trailingAi]
  | cons message rest ih =>
    rw [trailingAi_cons, Option.or_eq_none_iff, ih, List.forall_mem_cons, and_comm]
    apply and_congr_left
    intro _
    cases message <;> simp [Message.isAi]

theorem trailingAi_eq_some : trailingAi messages = some (trailing, later) ↔
    (∃ front, messages = front ++ .ai trailing :: later) ∧ trailingAi later = none := by
  constructor
  · intro found
    induction messages with
    | nil => cases found
    | cons message rest ih =>
      rw [trailingAi_cons, Option.or_eq_some_iff] at found
      obtain found | ⟨none_later, own⟩ := found
      · obtain ⟨⟨front, split_here⟩, last⟩ := ih found
        exact ⟨⟨message :: front, by rw [split_here, List.cons_append]⟩, last⟩
      · cases message with
        | ai message =>
          cases own
          exact ⟨⟨[], rfl⟩, none_later⟩
        | plain message => cases own
        | tool message => cases own
  · rintro ⟨⟨front, rfl⟩, last⟩
    rw [trailingAi_append, trailingAi_cons, last]
    rfl

theorem mem_foldl_takeCall (calls : List Json) (names : List (String × Option String)) :
    id ∈ (calls.foldl takeCall names).map (·.1) ↔
      id ∈ names.map (·.1) ∨ id ∈ calls.filterMap fun call => nonEmptyStr (call.get "id") := by
  induction calls generalizing names with
  | nil => simp
  | cons call calls ih =>
    rw [List.foldl_cons, ih, takeCall, List.filterMap_cons]
    cases own : nonEmptyStr (call.get "id") with
    | none => rfl
    | some callId =>
      dsimp only
      rw [putName_keys, List.mem_cons]
      split
      · rename_i known
        constructor
        · rintro (there | there)
          · exact .inl there
          · exact .inr (.inr there)
        · rintro (there | rfl | there)
          · exact .inl there
          · exact .inl known
          · exact .inr there
      · rw [List.mem_append, List.mem_singleton, or_assoc]

/-- The healing looks at the ids of the last assistant's calls. -/
theorem mem_callNames {assistant : AiMessage} :
    id ∈ (callNames assistant).map (·.1) ↔ id ∈ callIds assistant := by
  rw [callNames, mem_foldl_takeCall]
  simp [callIds]

/-- The placeholder that the healing writes for a call. -/
def placeholderFor (marker : String) (now : Int) (later : List Message)
    (call : String × Option String) : Option ToolMessage :=
  if later.any (answers call.1) then none
  else some { makeMissingToolResult call.1 call.2 now with id := some (healId marker call.1) }

theorem placeholderFor_some {call : String × Option String}
    (missing : later.any (answers call.1) = false) :
    ∃ result, placeholderFor marker now later call = some result ∧
      result.toolCallId = call.1 := by
  unfold placeholderFor
  rw [missing, if_neg Bool.false_ne_true]
  exact ⟨_, rfl, rfl⟩

theorem heal_eq (found : trailingAi messages = some (trailing, later)) :
    healTrailingToolCalls messages marker now =
      (callNames trailing).filterMap (placeholderFor marker now later) := by
  unfold healTrailingToolCalls
  rw [found]
  rfl

theorem heal_ne_nil (found : trailingAi messages = some (trailing, later)) :
    healTrailingToolCalls messages marker now ≠ [] ↔
      ∃ id ∈ callIds trailing, later.any (answers id) = false := by
  rw [heal_eq found, ne_eq, List.filterMap_eq_nil_iff]
  constructor
  · intro some_open
    by_contra every
    apply some_open
    intro call member
    have listed := mem_callNames.mp (List.mem_map_of_mem member)
    rw [placeholderFor, if_pos]
    by_contra open_call
    exact every ⟨call.1, listed, by simpa using open_call⟩
  · rintro ⟨id, listed, missing⟩ every
    obtain ⟨call, member, rfl⟩ := List.mem_map.mp (mem_callNames.mpr listed)
    obtain ⟨result, made, -⟩ := @placeholderFor_some later marker now call missing
    rw [every call member] at made
    cases made

/-! ## The scan -/

theorem mem_answeredIds : id ∈ answeredIds messages ↔ messages.any (answers id) = true := by
  unfold answeredIds
  rw [List.mem_filterMap, List.any_eq_true]
  apply exists_congr
  intro message
  cases message <;> simp [answers]

/-- Messages that are no assistants are passed over up to a human one. -/
theorem danglingFrom_skip (no_ai : ∀ message ∈ newer, message.isAi = false) :
    danglingFrom answered (newer ++ older) =
      (!newer.any isHuman && danglingFrom answered older) := by
  induction newer with
  | nil => rfl
  | cons message rest ih =>
    have tail := ih fun other member => no_ai other (List.mem_cons_of_mem _ member)
    cases message with
    | ai message => exact absurd (no_ai _ List.mem_cons_self) (by simp [Message.isAi])
    | tool message =>
      rw [List.cons_append, danglingFrom, tail, List.any_cons]
      rfl
    | plain message =>
      rw [List.cons_append, danglingFrom, tail, List.any_cons, isHuman]
      cases message.role == .human <;> rfl

/-- A message that the scan passes over: not a human one, and without calls. -/
def Passed (message : Message) : Prop :=
  isHuman message = false ∧ ∀ assistant, message = .ai assistant → assistant.toolCalls = []

/-- What the scan finds is a call without a result, with no human message and no other calls behind
its assistant. -/
theorem of_danglingFrom (found : danglingFrom answered messages = true) :
    ∃ newer earlier older, messages = newer ++ .ai earlier :: older ∧
      (∀ message ∈ newer, Passed message) ∧ ∃ id ∈ callIds earlier, id ∉ answered := by
  induction messages with
  | nil => cases found
  | cons message rest ih =>
    cases message with
    | plain message =>
      rw [danglingFrom] at found
      split at found
      · cases found
      · rename_i other
        obtain ⟨newer, earlier, older, rfl, passed, missing⟩ := ih found
        have plain_passed : Passed (.plain message) := by
          constructor
          · simpa [isHuman] using other
          · rintro assistant ⟨⟩
        exact ⟨.plain message :: newer, earlier, older, rfl,
          List.forall_mem_cons.mpr ⟨plain_passed, passed⟩, missing⟩
    | tool message =>
      obtain ⟨newer, earlier, older, rfl, passed, missing⟩ := ih found
      have tool_passed : Passed (.tool message) := by
        constructor
        · rfl
        · rintro assistant ⟨⟩
      exact ⟨.tool message :: newer, earlier, older, rfl,
        List.forall_mem_cons.mpr ⟨tool_passed, passed⟩, missing⟩
    | ai message =>
      rw [danglingFrom] at found
      split at found
      · rename_i text
        obtain ⟨newer, earlier, older, rfl, passed, missing⟩ := ih found
        have text_passed : Passed (.ai message) := by
          constructor
          · rfl
          · rintro assistant ⟨⟩
            simpa using text
        exact ⟨.ai message :: newer, earlier, older, rfl,
          List.forall_mem_cons.mpr ⟨text_passed, passed⟩, missing⟩
      · obtain ⟨id, listed, missing⟩ := List.any_eq_true.mp found
        exact ⟨[], message, rest, rfl, by simp, id, listed, by simpa using missing⟩

/-- A text-only assistant at the end: the scan finds nothing older, or slips. -/
theorem danglingFrom_silent (split_here : messages = front ++ .ai trailing :: later)
    (last : trailingAi later = none) (text : trailing.toolCalls = [])
    (no_human : ∀ message ∈ later, isHuman message = false) (clear : ¬Slip messages)
    (all_answers : ∀ id, messages.any (answers id) = true → id ∈ answered) :
    danglingFrom answered front.reverse = false := by
  by_contra dangling
  obtain ⟨newer, earlier, older, reversed, passed, id, call, missing⟩ :=
    of_danglingFrom (Bool.of_not_eq_false dangling)
  have parts : front = older.reverse ++ .ai earlier :: newer.reverse := by
    rw [← List.reverse_inj, reversed]
    simp
  have whole : messages =
      older.reverse ++ .ai earlier :: (newer.reverse ++ .ai trailing :: later) := by
    rw [split_here, parts]
    simp
  refine clear (.silent whole last text ?_ ?_ call ?_)
  · intro message member
    obtain inside | inside := List.mem_append.mp member
    · exact (passed message (List.mem_reverse.mp inside)).1
    · exact no_human message inside
  · intro assistant inside
    exact (passed _ (List.mem_reverse.mp inside)).2 assistant rfl
  · rw [Bool.eq_false_iff]
    exact fun present => missing (all_answers id present)

/-- The scan from the last assistant on. -/
theorem danglingFrom_split (split_here : messages = front ++ .ai trailing :: later)
    (last : trailingAi later = none) :
    danglingFrom answered messages.reverse =
      (!later.any isHuman && danglingFrom answered (.ai trailing :: front.reverse)) := by
  have reversed : messages.reverse = later.reverse ++ .ai trailing :: front.reverse := by
    rw [split_here]
    simp
  have no_ai : ∀ message ∈ later.reverse, message.isAi = false := fun message member =>
    trailingAi_eq_none.mp last message (List.mem_reverse.mp member)
  rw [reversed, danglingFrom_skip no_ai, List.any_reverse]

theorem dangling_iff (split_here : messages = front ++ .ai trailing :: later)
    (last : trailingAi later = none) (clear : ¬Slip messages) :
    hasDanglingToolCall messages = true ↔
      (∃ id ∈ callIds trailing, later.any (answers id) = false) ∧ later.any isHuman = false := by
  rw [hasDanglingToolCall, danglingFrom_split split_here last]
  by_cases human : later.any isHuman = true
  · simp [human]
  · have calm : later.any isHuman = false := by simpa using human
    have no_human : ∀ message ∈ later, isHuman message = false := by simpa using calm
    rw [calm, danglingFrom]
    by_cases text : trailing.toolCalls = []
    · have nothing := danglingFrom_silent split_here last text no_human clear fun id present =>
        mem_answeredIds.mpr present
      simp [text, nothing, callIds]
    · rw [if_neg (by simpa using text), Bool.not_false, Bool.true_and, List.any_eq_true]
      simp only [and_true]
      apply exists_congr
      intro id
      apply and_congr_right
      intro call
      have present : messages.any (answers id) = true ↔ later.any (answers id) = true := by
        rw [split_here, List.any_append, List.any_cons, Bool.or_eq_true, Bool.or_eq_true]
        constructor
        · rintro (before | own | after)
          · by_contra missing
            exact clear (.reused split_here last call before (by simpa using missing))
          · cases own
          · exact after
        · exact fun after => .inr (.inr after)
      rw [← Bool.not_eq_true, ← present, ← mem_answeredIds]
      simp

/-! ## The healed transcript -/

theorem hasDangling_healed (partialText : String) (reason : InterruptReason) :
    hasDanglingToolCall (healed messages marker now partialText reason) =
      danglingFrom (answeredIds (healed messages marker now partialText reason))
        messages.reverse := by
  have reversed : (healed messages marker now partialText reason).reverse =
      .ai (interruptMarker marker partialText reason) ::
        (((healTrailingToolCalls messages marker now).map Message.tool).reverse ++
          messages.reverse) := by
    simp [healed, written]
  have no_ai : ∀ message ∈ ((healTrailingToolCalls messages marker now).map Message.tool).reverse,
      message.isAi = false := by
    intro message member
    obtain ⟨result, -, rfl⟩ := List.mem_map.mp (List.mem_reverse.mp member)
    rfl
  have no_human : (((healTrailingToolCalls messages marker now).map Message.tool).reverse).any
      isHuman = false := by
    rw [List.any_eq_false]
    intro message member
    obtain ⟨result, -, rfl⟩ := List.mem_map.mp (List.mem_reverse.mp member)
    simp [isHuman]
  have text : (interruptMarker marker partialText reason).toolCalls.isEmpty = true := rfl
  rw [hasDanglingToolCall, reversed, danglingFrom, if_pos text, danglingFrom_skip no_ai, no_human]
  rfl

theorem answered_of_mem (partialText : String) (reason : InterruptReason)
    (present : messages.any (answers id) = true) :
    id ∈ answeredIds (healed messages marker now partialText reason) := by
  rw [mem_answeredIds, healed, List.any_append, present, Bool.true_or]

/-- Every call of the last assistant has a result in the healed transcript. -/
theorem answered_of_call (partialText : String) (reason : InterruptReason)
    (found : trailingAi messages = some (trailing, later)) (call : id ∈ callIds trailing) :
    id ∈ answeredIds (healed messages marker now partialText reason) := by
  have last : trailingAi (messages ++ (healTrailingToolCalls messages marker now).map .tool) =
      some (trailing, later ++ (healTrailingToolCalls messages marker now).map .tool) := by
    rw [trailingAi_append, trailingAi_tools, found]
    rfl
  obtain ⟨name, member, rfl⟩ := List.mem_map.mp (mem_callNames.mpr call)
  have closed := closed_heal messages marker now trailing _ last name member
  rw [mem_answeredIds, healed, written, ← List.append_assoc, List.any_append]
  rw [List.any_append, Bool.or_eq_true] at closed
  obtain ⟨⟨front, split_here⟩, -⟩ := trailingAi_eq_some.mp found
  obtain after | made := closed
  · rw [split_here]
    simp [after]
  · simp [made]

theorem not_dangling_healed (partialText : String) (reason : InterruptReason)
    (clear : ¬Slip messages) :
    hasDanglingToolCall (healed messages marker now partialText reason) = false := by
  rw [hasDangling_healed]
  cases found : trailingAi messages with
  | none =>
    have no_ai : ∀ message ∈ messages.reverse, message.isAi = false := fun message member =>
      trailingAi_eq_none.mp found message (List.mem_reverse.mp member)
    rw [← List.append_nil messages.reverse, danglingFrom_skip no_ai, danglingFrom, Bool.and_false]
  | some last =>
    obtain ⟨trailing, later⟩ := last
    obtain ⟨⟨front, split_here⟩, no_later⟩ := trailingAi_eq_some.mp found
    rw [danglingFrom_split split_here no_later]
    by_cases human : later.any isHuman = true
    · rw [human]
      rfl
    · have no_human : ∀ message ∈ later, isHuman message = false := by simpa using human
      rw [danglingFrom]
      split
      · rename_i text
        rw [danglingFrom_silent split_here no_later (by simpa using text) no_human clear
          fun id present => answered_of_mem partialText reason present, Bool.and_false]
      · have every : ((callIds trailing).any fun id =>
            !(answeredIds (healed messages marker now partialText reason)).contains id) = false := by
          rw [List.any_eq_false]
          intro id call
          simpa using answered_of_call partialText reason found call
        rw [every, Bool.and_false]

/-- A placeholder for a call without a result, and none for the others. -/
theorem countP_placeholders {names : List (String × Option String)}
    (nodup : (names.map (·.1)).Nodup) :
    ((names.filterMap (placeholderFor marker now later)).map Message.tool).countP (answers id) =
      if id ∈ names.map (·.1) ∧ later.any (answers id) = false then 1 else 0 := by
  induction names with
  | nil => simp
  | cons call rest ih =>
    obtain ⟨callId, name⟩ := call
    rw [List.map_cons, List.nodup_cons] at nodup
    have tail := ih nodup.2
    simp only [List.map_cons, List.mem_cons]
    by_cases answered : later.any (answers callId) = true
    · have nothing : placeholderFor marker now later (callId, name) = none := if_pos answered
      rw [List.filterMap_cons_none nothing, tail]
      by_cases same : id = callId
      · simp [same, answered]
      · exact if_congr (by simp [same]) rfl rfl
    · have missing : later.any (answers callId) = false := by simpa using answered
      obtain ⟨result, made, own⟩ := @placeholderFor_some later marker now (callId, name) missing
      rw [List.filterMap_cons_some made, List.map_cons, List.countP_cons, tail, answers, own]
      by_cases same : id = callId
      · subst same
        simp [nodup.1, missing]
      · have other : (callId == id) = false := beq_eq_false_iff_ne.mpr fun equal => same equal.symm
        rw [other]
        exact if_congr (by simp [same]) rfl rfl

/-- A call of the last assistant that has at most one result has exactly one in the healed
transcript. -/
theorem answered_once (partialText : String) (reason : InterruptReason)
    (found : trailingAi messages = some (trailing, later)) (call : id ∈ callIds trailing)
    (few : later.countP (answers id) ≤ 1) :
    (later ++ written messages marker now partialText reason).countP (answers id) = 1 := by
  have made := @countP_placeholders later id marker now _ (callNames_nodup trailing)
  rw [← heal_eq found] at made
  have none_of_marker :
      answers id (.ai (interruptMarker marker partialText reason)) = false := rfl
  rw [written, List.countP_append, List.countP_append, made, List.countP_singleton, none_of_marker]
  simp only [mem_callNames.mpr call, true_and]
  by_cases answered : later.any (answers id) = true
  · have some_result : 0 < later.countP (answers id) := by
      rw [List.countP_pos_iff]
      exact List.any_eq_true.mp answered
    simp [answered]
    omega
  · have missing : later.any (answers id) = false := by simpa using answered
    have nothing : later.countP (answers id) = 0 := by
      rw [List.countP_eq_zero]
      exact List.any_eq_false.mp missing
    simp [missing, nothing]

/-- What the scan and the healing agree on. -/
structure Agrees (messages : List Message) (marker : String) (now : Int) (partialText : String)
    (reason : InterruptReason) : Prop where
  detects : hasDanglingToolCall messages = true ↔
    healTrailingToolCalls messages marker now ≠ [] ∧
      ∀ trailing later, trailingAi messages = some (trailing, later) → later.any isHuman = false
  settles : hasDanglingToolCall (healed messages marker now partialText reason) = false
  answers : ∀ trailing later, trailingAi messages = some (trailing, later) →
    ∀ id ∈ callIds trailing, later.countP (answers id) ≤ 1 →
      (later ++ written messages marker now partialText reason).countP (answers id) = 1

/-- The scan finds a dangling call exactly when the healing writes a placeholder and no human message
follows the last assistant; after the healing it finds none, and every call of the last assistant is
answered once. -/
theorem detector_healer_agree (messages : List Message) (marker : String) (now : Int)
    (partialText : String) (reason : InterruptReason) (clear : ¬Slip messages) :
    Agrees messages marker now partialText reason where
  detects := by
    cases found : trailingAi messages with
    | none =>
      have no_ai : ∀ message ∈ messages.reverse, message.isAi = false := fun message member =>
        trailingAi_eq_none.mp found message (List.mem_reverse.mp member)
      have quiet : hasDanglingToolCall messages = false := by
        rw [hasDanglingToolCall, ← List.append_nil messages.reverse, danglingFrom_skip no_ai,
          danglingFrom, Bool.and_false]
      simp [quiet, healTrailingToolCalls, found]
    | some last =>
      obtain ⟨trailing, later⟩ := last
      obtain ⟨⟨front, split_here⟩, no_later⟩ := trailingAi_eq_some.mp found
      rw [dangling_iff split_here no_later clear, heal_ne_nil found]
      constructor
      · rintro ⟨missing, calm⟩
        refine ⟨missing, ?_⟩
        rintro _ _ same
        cases same
        exact calm
      · rintro ⟨missing, calm⟩
        exact ⟨missing, calm trailing later rfl⟩
  settles := not_dangling_healed partialText reason clear
  answers := fun _ _ found _ call few => answered_once partialText reason found call few

/-! ## A human message behind a call -/

def askedCall : AiMessage :=
  { content := .text "", toolCalls := [.obj [("id", .str "call-1"), ("name", .str "terminal")]] }

/-- A call without a result, and nothing behind it. -/
def dangling : List Message := [.ai askedCall]

theorem dangling_clear : ¬Slip dangling := by
  intro slip
  cases slip with
  | @reused front later trailing id split_here last call before =>
    cases front with
    | nil => cases before
    | cons first rest => simp [dangling] at split_here
  | @silent front later between trailing earlier id split_here =>
    cases front with
    | nil => simp [dangling] at split_here
    | cons first rest => simp [dangling] at split_here

theorem dangling_found_and_healed :
    Agrees dangling "interrupted-t-0" 0 "" .cancelled ∧ hasDanglingToolCall dangling = true :=
  ⟨detector_healer_agree dangling "interrupted-t-0" 0 "" .cancelled dangling_clear, by decide⟩

/-- A human message closes the span for the scan, and the healing answers the call. -/
theorem human_closes_span :
    ¬(hasDanglingToolCall
          (dangling ++ [.plain { role := .human, content := .text "next" }]) = true ↔
      healTrailingToolCalls
          (dangling ++ [.plain { role := .human, content := .text "next" }]) "interrupted-t-1" 0 ≠
        []) := by
  have found : trailingAi (dangling ++ [.plain { role := .human, content := .text "next" }]) =
      some (askedCall, [.plain { role := .human, content := .text "next" }]) := rfl
  rw [heal_ne_nil found]
  intro agrees
  exact absurd (agrees.mpr ⟨"call-1", by decide, rfl⟩) (by decide)

end SherryAgent.Guarantees.DanglingTurns
