import Mathlib.Data.List.Basic
import Mathlib.Data.List.Nodup
import SherryAgent.Source.Transcript.Repair

/-!
# What the repair puts out

An assistant message with the messages up to the next one is a turn. The repair handles a
transcript turn by turn: what it puts out for a turn depends on the turn and on
the call ids it has seen answered before. For each turn: the assistant without its invalid calls,
then a result for every call id not seen before, then the tool messages of the turn that answer no
call. A turn whose calls are not looked at is put out as it is. The list counts as
changed when something was added, dropped or left unanswered.
-/

namespace SherryAgent.Contracts.Transcript

open SherryAgent.Source.Transcript

/-! ## Turns -/

structure Turn where
  assistant : AiMessage
  span : List Message

namespace Turn

def calls (turn : Turn) : List ToolCallLike := extractToolCalls turn.assistant

def ids (turn : Turn) : List String := turn.calls.map (·.id)

/-- The repair looks at the turn's calls. -/
def Calling (turn : Turn) : Prop := passesThrough turn.assistant = false ∧ turn.calls ≠ []

instance (turn : Turn) : Decidable turn.Calling :=
  inferInstanceAs (Decidable (_ ∧ _))

def fill (turn : Turn) : Turn := { turn with span := turn.span.map fillMessage }

end Turn

/-- The messages before the first assistant, and the turns. -/
def turns : List Message → List Message × List Turn
  | [] => ([], [])
  | .ai message :: rest => ([], ⟨message, (turns rest).1⟩ :: (turns rest).2)
  | message :: rest => (message :: (turns rest).1, (turns rest).2)

def flatten (ts : List Turn) : List Message :=
  ts.flatMap fun turn => .ai turn.assistant :: turn.span

@[simp] theorem flatten_nil : flatten [] = [] := rfl

@[simp] theorem flatten_cons (turn : Turn) (ts : List Turn) :
    flatten (turn :: ts) = .ai turn.assistant :: (turn.span ++ flatten ts) := by
  simp [flatten]

theorem turns_plain (message : PlainMessage) (rest : List Message) :
    turns (.plain message :: rest) = (.plain message :: (turns rest).1, (turns rest).2) := rfl

theorem turns_tool (message : ToolMessage) (rest : List Message) :
    turns (.tool message :: rest) = (.tool message :: (turns rest).1, (turns rest).2) := rfl

theorem turns_ai (message : AiMessage) (rest : List Message) :
    turns (.ai message :: rest) = ([], ⟨message, (turns rest).1⟩ :: (turns rest).2) := rfl

/-- A transcript is its first messages and its turns. -/
theorem append_flatten_turns (messages : List Message) :
    (turns messages).1 ++ flatten (turns messages).2 = messages := by
  induction messages with
  | nil => rfl
  | cons message rest ih => cases message <;> simp_all [turns]

theorem turns_append {first : List Message} (noAi : ∀ message ∈ first, message.isAi = false)
    (rest : List Message) :
    turns (first ++ rest) = (first ++ (turns rest).1, (turns rest).2) := by
  induction first with
  | nil => rfl
  | cons message first ih =>
    have later := ih fun other member => noAi other (List.mem_cons_of_mem _ member)
    have kind := noAi message List.mem_cons_self
    cases message with
    | ai message => cases kind
    | _ => simp [turns, later]

/-- Turns are found again in what is put together from them. -/
theorem turns_flatten {first : List Message} {ts : List Turn}
    (noAi : ∀ message ∈ first, message.isAi = false)
    (noAi_span : ∀ turn ∈ ts, ∀ message ∈ turn.span, message.isAi = false) :
    turns (first ++ flatten ts) = (first, ts) := by
  rw [turns_append noAi]
  suffices later : turns (flatten ts) = ([], ts) by rw [later, List.append_nil]
  clear noAi
  induction ts with
  | nil => rfl
  | cons turn ts ih =>
    have rest := ih fun other member => noAi_span other (List.mem_cons_of_mem _ member)
    rw [flatten_cons, turns_ai, turns_append (noAi_span turn List.mem_cons_self), rest,
      List.append_nil]

theorem turns_noAi (messages : List Message) :
    (∀ message ∈ (turns messages).1, message.isAi = false) ∧
      ∀ turn ∈ (turns messages).2, ∀ message ∈ turn.span, message.isAi = false := by
  induction messages with
  | nil => exact ⟨by simp [turns], by simp [turns]⟩
  | cons message rest ih =>
    obtain ⟨first, later⟩ := ih
    cases message with
    | ai message =>
      refine ⟨by simp [turns], fun turn member => ?_⟩
      rcases List.mem_cons.mp member with rfl | old
      · exact first
      · exact later turn old
    | plain message | tool message =>
      refine ⟨fun other member => ?_, later⟩
      rcases List.mem_cons.mp member with rfl | old
      · rfl
      · exact first other old

theorem turns_map_fill (messages : List Message) :
    turns (messages.map fillMessage) =
      ((turns messages).1.map fillMessage, (turns messages).2.map Turn.fill) := by
  induction messages with
  | nil => rfl
  | cons message rest ih =>
    cases message <;> simp [turns, fillMessage, Turn.fill, ih]

/-! ## Ids -/

theorem extractToolCall_id {block : Source.Json} {call : ToolCallLike}
    (extracted : extractToolCall block = some call) : call.id ≠ "" := by
  have nonempty : ∀ {value : Source.Json} {id : String}, nonEmptyStr value = some id → id ≠ "" := by
    intro value id found
    unfold nonEmptyStr at found
    split at found
    · split at found
      · cases found
      · rename_i filled
        cases found
        exact filled
    · cases found
  unfold extractToolCall at extracted
  split at extracted
  · cases extracted
  · split at extracted
    · cases extracted
    · rename_i id found
      split at extracted
      · cases extracted
        unfold extractToolCallId at found
        split at found
        · rename_i found_id
          cases found
          exact nonempty found_id
        · exact nonempty found
      · cases extracted

theorem Turn.ids_nonempty {turn : Turn} {id : String} (member : id ∈ turn.ids) : id ≠ "" := by
  obtain ⟨call, calls, rfl⟩ := List.mem_map.mp member
  obtain ⟨block, -, extracted⟩ := List.mem_filterMap.mp calls
  exact extractToolCall_id extracted

@[simp] theorem clearInvalid_calls (message : AiMessage) :
    extractToolCalls (clearInvalid message) = extractToolCalls message := rfl

theorem clearInvalid_of_valid {message : AiMessage} (valid : hasInvalid message = false) :
    clearInvalid message = message := by
  have none_left : message.invalidToolCalls = [] := by simpa [hasInvalid] using valid
  rw [clearInvalid, ← none_left]

/-! ## The scan of a span -/

/-- The tool messages that answer none of the calls. -/
def foreign (ids : List String) (span : List Message) : List ToolMessage :=
  span.filterMap fun
    | .tool message => if message.toolCallId ∈ ids then none else some message
    | _ => none

/-- The first result of a call. -/
def answer (id : String) (span : List Message) : Option ToolMessage :=
  span.findSome? fun
    | .tool message => if message.toolCallId = id then some message else none
    | _ => none

/-- Every tool message has content. -/
def Filled (messages : List Message) : Prop :=
  ∀ message, .tool message ∈ messages → message.content.truthy = true

theorem mem_foreign {ids : List String} {span : List Message} {message : ToolMessage} :
    message ∈ foreign ids span ↔ .tool message ∈ span ∧ message.toolCallId ∉ ids := by
  rw [foreign, List.mem_filterMap]
  constructor
  · rintro ⟨other, member, kept⟩
    cases other with
    | tool other =>
      dsimp only at kept
      split at kept
      · cases kept
      · rename_i unasked
        cases kept
        exact ⟨member, unasked⟩
    | _ => cases kept
  · rintro ⟨member, unasked⟩
    exact ⟨_, member, if_neg unasked⟩

theorem answer_eq_none {id : String} {span : List Message}
    (missing : ∀ message, .tool message ∈ span → message.toolCallId ≠ id) :
    answer id span = none := by
  refine List.findSome?_eq_none_iff.mpr fun message member => ?_
  cases message with
  | tool message => exact if_neg (missing message member)
  | _ => rfl

theorem answer_spec (id : String) (span : List Message) :
    match answer id span with
    | some result => .tool result ∈ span ∧ result.toolCallId = id
    | none => ∀ message, .tool message ∈ span → message.toolCallId ≠ id := by
  cases found : answer id span with
  | none =>
    intro message member same
    have missed := List.findSome?_eq_none_iff.mp found _ member
    simp [same] at missed
  | some result =>
    obtain ⟨other, member, picked⟩ := List.exists_of_findSome?_eq_some found
    cases other with
    | tool other =>
      dsimp only at picked
      split at picked
      · rename_i same
        cases picked
        exact ⟨member, same⟩
      · cases picked
    | _ => cases picked

/-- The scan stops at the next turn. -/
theorem scanSpan_eq (ids seen : List String) (messages : List Message) (span : Span) :
    scanSpan ids seen messages span =
      ((scanSpan ids seen (turns messages).1 span).1, flatten (turns messages).2) := by
  induction messages generalizing span with
  | nil => rfl
  | cons message rest ih =>
    cases message with
    | ai message =>
      have whole := append_flatten_turns rest
      rw [turns_ai, flatten_cons, whole]
      rfl
    | plain message => exact ih _
    | tool message => exact ih _

section Scan

variable {ids seen : List String} {message : ToolMessage} {messages : List Message}

theorem keep_filled (filled : message.content.truthy = true) (span : Span) :
    span.keep message = { span with remainder := span.remainder ++ [message] } := by
  have nonempty : message.content.isEmptyText = false := by
    cases content : message.content with
    | text value => simpa [content, Content.truthy, Content.isEmptyText] using filled
    | blocks items => rfl
  rw [Span.keep, nonempty, if_neg Bool.false_ne_true]

theorem take_foreign (filled : message.content.truthy = true) (unasked : message.toolCallId ∉ ids)
    (span : Span) :
    span.take ids seen message = { span with remainder := span.remainder ++ [message] } := by
  rw [Span.take, if_pos filled]
  split
  · rename_i id extracted
    have same : message.toolCallId = id := by
      unfold extractToolResultId at extracted
      split at extracted
      · cases extracted
      · exact Option.some.inj extracted
    rw [← same, if_neg unasked]
    exact keep_filled filled span
  · exact keep_filled filled span

theorem take_asked (filled : message.content.truthy = true) (asked : message.toolCallId ∈ ids)
    (nonempty : message.toolCallId ≠ "") (span : Span) :
    span.take ids seen message =
      if message.toolCallId ∈ seen then { span with changed := true }
      else if span.results.any (·.1 = message.toolCallId) then span
      else { span with results := span.results ++ [(message.toolCallId, message)] } := by
  rw [Span.take, if_pos filled, extractToolResultId, if_neg nonempty]
  exact if_pos asked

/-- The results are filed under their own ids. -/
def Filed (span : Span) : Prop :=
  ∀ id result, span.get id = some result → result.toolCallId = id

/-- What the scan of a span collects. -/
structure Scanned (ids seen : List String) (messages : List Message) (before after : Span) :
    Prop where
  remainder : after.remainder = before.remainder ++ foreign ids messages
  get : ∀ id ∈ ids, id ∉ seen → after.get id = (before.get id).or (answer id messages)
  changed : after.changed = true ↔ before.changed = true ∨ (∃ message, .plain message ∈ messages) ∨
    ∃ message, .tool message ∈ messages ∧ message.toolCallId ∈ ids ∧ message.toolCallId ∈ seen
  filed : Filed before → Filed after

theorem Scanned.trans {first : Message} {rest : List Message} {before between after : Span}
    (head : Scanned ids seen [first] before between) (tail : Scanned ids seen rest between after) :
    Scanned ids seen (first :: rest) before after where
  remainder := by
    rw [tail.remainder, head.remainder, List.append_assoc, foreign, foreign, foreign,
      ← List.filterMap_append]
    rfl
  get := fun id asked fresh => by
    rw [tail.get id asked fresh, head.get id asked fresh, Option.or_assoc, answer, answer, answer,
      ← List.findSome?_append]
    rfl
  changed := by
    rw [tail.changed, head.changed]
    simp only [List.mem_cons, List.not_mem_nil, or_false]
    grind
  filed := fun filed => tail.filed (head.filed filed)

theorem take_scanned (named : ∀ id ∈ ids, id ≠ "") (filled : message.content.truthy = true)
    (span : Span) : Scanned ids seen [.tool message] span (span.take ids seen message) := by
  by_cases asked : message.toolCallId ∈ ids
  · rw [take_asked filled asked (named _ asked)]
    have no_foreign : foreign ids [.tool message] = [] := by simp [foreign, asked]
    have single : ∀ id, answer id [.tool message] =
        if message.toolCallId = id then some message else none := by
      intro id
      rw [answer, List.findSome?_cons, List.findSome?_nil]
      by_cases same : message.toolCallId = id <;> simp [same]
    split
    · rename_i answered
      refine ⟨by simp [no_foreign], fun id _ fresh => ?_, by simp [asked, answered], id⟩
      have other : message.toolCallId ≠ id := fun same => fresh (same ▸ answered)
      rw [single, if_neg other, Option.or_none]
      rfl
    · rename_i fresh
      split
      · rename_i present
        refine ⟨by simp [no_foreign], fun id _ _ => ?_, by simp [fresh], id⟩
        rw [single]
        split
        · rename_i same
          obtain ⟨pair, member, named⟩ := List.any_eq_true.mp present
          have found : (span.get id).isSome = true := by
            rw [Span.get, Option.isSome_map, List.find?_isSome]
            exact ⟨pair, member, same ▸ named⟩
          obtain ⟨result, found⟩ := Option.isSome_iff_exists.mp found
          rw [found, Option.some_or]
        · rw [Option.or_none]
      · have added : ∀ id, Span.get { span with
            results := span.results ++ [(message.toolCallId, message)] } id =
              (span.get id).or (answer id [.tool message]) := by
          intro id
          rw [single, Span.get, Span.get, List.find?_append, List.find?_singleton]
          cases found : span.results.find? (·.1 = id) with
          | some pair => rfl
          | none => by_cases same : message.toolCallId = id <;> simp [same]
        refine ⟨by simp [no_foreign], fun id _ _ => added id, by simp [fresh], ?_⟩
        intro filed id result found
        rw [added] at found
        rcases Option.or_eq_some_iff.mp found with old | ⟨-, new⟩
        · exact filed id result old
        · have spec := answer_spec id [.tool message]
          rw [new] at spec
          exact spec.2
  · rw [take_foreign filled asked]
    have nothing : ∀ id ∈ ids, answer id [.tool message] = none := by
      intro id member
      have other : message.toolCallId ≠ id := fun same => asked (same ▸ member)
      simp [answer, other]
    refine ⟨by simp [foreign, asked], fun id member _ => ?_, by simp [asked], id⟩
    rw [nothing id member, Option.or_none]
    rfl

theorem scanSpan_scanned (seen : List String) (named : ∀ id ∈ ids, id ≠ "") (filled : Filled messages)
    (noAi : ∀ message ∈ messages, message.isAi = false) (span : Span) :
    Scanned ids seen messages span (scanSpan ids seen messages span).1 := by
  induction messages generalizing span with
  | nil => exact ⟨by simp [foreign, scanSpan], by simp [answer, scanSpan], by simp [scanSpan], id⟩
  | cons message rest ih =>
    have later := ih (fun other member => filled other (List.mem_cons_of_mem _ member))
      fun other member => noAi other (List.mem_cons_of_mem _ member)
    cases message with
    | ai message => exact Bool.noConfusion (noAi _ List.mem_cons_self)
    | plain message =>
      have head : Scanned ids seen [.plain message] span { span with changed := true } :=
        ⟨by simp [foreign], by simp [answer, Span.get], by simp, id⟩
      exact head.trans (later _)
    | tool message =>
      exact (take_scanned named (filled message List.mem_cons_self) span).trans (later _)

end Scan

/-! ## The results of a turn -/

/-- A result that may stand for a call of the span: one of the span, or a placeholder when
the span has none. -/
def Answers (span : List Message) (result : ToolMessage) : Prop :=
  .tool result ∈ span ∨
    (∀ message, .tool message ∈ span → message.toolCallId ≠ result.toolCallId) ∧
      ∃ name now, result = makeMissingToolResult result.toolCallId name now

/-- The ids not seen before, each once, in the order of the calls. -/
def freshIds (seen ids : List String) : List String :=
  (ids.filter fun id => decide (id ∉ seen)).eraseDups

theorem freshIds_cons_seen {seen ids : List String} {id : String} (member : id ∈ seen) :
    freshIds seen (id :: ids) = freshIds seen ids := by
  simp [freshIds, member]

theorem freshIds_cons_fresh {seen ids : List String} {id : String} (fresh : id ∉ seen) :
    freshIds seen (id :: ids) = id :: freshIds (seen ++ [id]) ids := by
  simp only [freshIds, List.filter_cons, fresh, not_false_eq_true, decide_true, if_true,
    List.eraseDups_cons, List.filter_filter]
  congr 3
  funext other
  by_cases same : other = id <;> simp [same]

/-- All distinct ids are fresh exactly when none was seen. -/
theorem freshIds_eq_iff (seen ids : List String) :
    freshIds seen ids = ids.eraseDups ↔ ∀ id ∈ ids, id ∉ seen := by
  constructor
  · intro same id member seen_before
    have kept : id ∈ freshIds seen ids := same ▸ List.mem_eraseDups.mpr member
    have fresh := (List.mem_filter.mp (List.mem_eraseDups.mp kept)).2
    exact of_decide_eq_true fresh seen_before
  · intro fresh
    rw [freshIds, List.filter_eq_self.mpr fun id member => decide_eq_true (fresh id member)]

theorem pushToolResult_eq {message : ToolMessage} (nonempty : message.toolCallId ≠ "")
    (st : Repair) :
    st.pushToolResult message =
      if message.toolCallId ∈ st.seen then { st with changed := true }
      else { st with
        out := st.out ++ [.tool message], seen := st.seen ++ [message.toolCallId] } := by
  rw [Repair.pushToolResult, extractToolResultId, if_neg nonempty]

theorem pushCall_seen (clock : Nat → Int) {span : Span} {st : Repair} {call : ToolCallLike}
    (named : call.id ≠ "") (own : ∀ existing, span.get call.id = some existing →
      existing.toolCallId = call.id) (seen : call.id ∈ st.seen) :
    pushCall clock span st call = { st with changed := true } := by
  unfold pushCall
  split
  · rename_i existing found
    have same := own existing found
    rw [pushToolResult_eq (same ▸ named), same, if_pos seen]
  · rw [pushToolResult_eq named]
    exact if_pos seen

theorem pushCall_fresh (clock : Nat → Int) {span : Span} {st : Repair} {call : ToolCallLike}
    {messages : List Message} (named : call.id ≠ "")
    (get : span.get call.id = answer call.id messages) (fresh : call.id ∉ st.seen) :
    ∃ result, result.toolCallId = call.id ∧ Answers messages result ∧
      pushCall clock span st call =
        { out := st.out ++ [.tool result], seen := st.seen ++ [call.id]
          changed := st.changed || (answer call.id messages).isNone } := by
  unfold pushCall
  rw [get]
  have spec := answer_spec call.id messages
  split
  · rename_i existing found
    rw [found] at spec
    refine ⟨existing, spec.2, .inl spec.1, ?_⟩
    rw [pushToolResult_eq (spec.2 ▸ named), spec.2, if_neg fresh, found, Option.isNone_some,
      Bool.or_false]
  · rename_i missing
    rw [missing] at spec
    refine ⟨makeMissingToolResult call.id call.name (clock st.out.length), rfl,
      .inr ⟨spec, call.name, clock st.out.length, rfl⟩, ?_⟩
    rw [pushToolResult_eq (by exact named), missing, Option.isNone_none, Bool.or_true]
    exact if_neg fresh

theorem pushCalls_spec (clock : Nat → Int) {span : Span} {messages : List Message}
    {seen : List String} {calls : List ToolCallLike} (named : ∀ call ∈ calls, call.id ≠ "")
    (filed : Filed span)
    (get : ∀ call ∈ calls, call.id ∉ seen → span.get call.id = answer call.id messages)
    (st : Repair) (known : ∀ id ∈ seen, id ∈ st.seen) :
    ∃ results : List ToolMessage,
      (calls.foldl (pushCall clock span) st).out = st.out ++ results.map .tool ∧
      results.map (·.toolCallId) = freshIds st.seen (calls.map (·.id)) ∧
      (∀ result ∈ results, Answers messages result) ∧
      (∀ id, id ∈ (calls.foldl (pushCall clock span) st).seen ↔
        id ∈ st.seen ∨ id ∈ calls.map (·.id)) ∧
      ((calls.foldl (pushCall clock span) st).changed = true ↔ st.changed = true ∨
        (∃ id ∈ calls.map (·.id), id ∈ st.seen ∨ answer id messages = none) ∨
        ¬(calls.map (·.id)).Nodup) := by
  induction calls generalizing st with
  | nil => exact ⟨[], by simp [freshIds]⟩
  | cons call calls ih =>
    have named_rest : ∀ other ∈ calls, other.id ≠ "" :=
      fun other member => named other (List.mem_cons_of_mem _ member)
    have get_rest : ∀ other ∈ calls, other.id ∉ seen → span.get other.id = answer other.id messages :=
      fun other member => get other (List.mem_cons_of_mem _ member)
    have named_call := named call List.mem_cons_self
    rw [List.foldl_cons, List.map_cons]
    by_cases seen_before : call.id ∈ st.seen
    · rw [pushCall_seen clock named_call (filed _) seen_before]
      obtain ⟨results, out, fresh, answers, later, changed⟩ :=
        ih named_rest get_rest { st with changed := true } known
      refine ⟨results, out, fresh.trans (freshIds_cons_seen seen_before).symm, answers, ?_, ?_⟩
      · intro id
        rw [later, List.mem_cons]
        constructor
        · rintro (old | asked)
          · exact .inl old
          · exact .inr (.inr asked)
        · rintro (old | rfl | asked)
          · exact .inl old
          · exact .inl seen_before
          · exact .inr asked
      · rw [changed]
        exact iff_of_true (.inl rfl) (.inr (.inl ⟨call.id, List.mem_cons_self, .inl seen_before⟩))
    · have current := get call List.mem_cons_self fun old => seen_before (known _ old)
      obtain ⟨result, same, answers, pushed⟩ :=
        pushCall_fresh clock named_call current seen_before
      rw [pushed]
      obtain ⟨results, out, fresh, later_answers, later, changed⟩ :=
        ih named_rest get_rest
          { out := st.out ++ [.tool result], seen := st.seen ++ [call.id]
            changed := st.changed || (answer call.id messages).isNone }
          fun id old => List.mem_append_left _ (known id old)
      refine ⟨result :: results, ?_, ?_, ?_, ?_, ?_⟩
      · rw [out, List.map_cons, List.append_assoc, List.singleton_append]
      · rw [List.map_cons, fresh, same, freshIds_cons_fresh seen_before]
      · intro other member
        rcases List.mem_cons.mp member with rfl | old
        · exact answers
        · exact later_answers other old
      · intro id
        rw [later]
        simp only [List.mem_append, List.mem_cons, List.not_mem_nil, or_false, or_assoc]
      · rw [changed]
        simp only [Bool.or_eq_true, Option.isNone_iff_eq_none, List.mem_append, List.nodup_cons,
          List.mem_cons]
        grind

/-! ## Turns -/

/-- The repair has something to add to the turn, or to take from it, among its own calls. -/
def Touched (seen : List String) (turn : Turn) : Prop :=
  hasInvalid turn.assistant = true ∨ turn.Calling ∧
    ((∃ message, .plain message ∈ turn.span) ∨
      (∃ id ∈ turn.ids, ∀ message, .tool message ∈ turn.span → message.toolCallId ≠ id) ∨
      (∃ id ∈ turn.ids, id ∈ seen) ∨ ¬turn.ids.Nodup)

/-- A tool message of the turn answers none of its calls. -/
def HasForeign (turn : Turn) : Prop :=
  ∃ message, .tool message ∈ turn.span ∧ message.toolCallId ∉ turn.ids

/-- What the repair does with one turn. -/
structure TurnEffect (st st' : Repair) (before after : Turn) : Prop where
  out : st'.out = st.out ++ .ai after.assistant :: after.span
  assistant : after.assistant = clearInvalid before.assistant
  kept : ¬before.Calling → after.span = before.span
  answered : before.Calling → ∃ results : List ToolMessage,
    after.span = results.map .tool ++ (foreign before.ids before.span).map .tool ∧
      results.map (·.toolCallId) = freshIds st.seen before.ids ∧
      ∀ result ∈ results, Answers before.span result
  seen : ∀ id, id ∈ st'.seen ↔ id ∈ st.seen ∨ before.Calling ∧ id ∈ before.ids
  changed : st'.changed = true ↔
    st.changed = true ∨ Touched st.seen before ∨ before.Calling ∧ HasForeign before

/-- The turns one after the other. -/
inductive Repaired : Repair → List Turn → List Turn → Repair → Prop
  | nil (st : Repair) : Repaired st [] [] st
  | cons {st st' fin : Repair} {before after : Turn} {befores afters : List Turn}
      (effect : TurnEffect st st' before after) (rest : Repaired st' befores afters fin) :
      Repaired st (before :: befores) (after :: afters) fin

theorem repairLoop_skip (clock : Nat → Int) {first : List Message} (filled : Filled first)
    (noAi : ∀ message ∈ first, message.isAi = false) (rest : List Message) (st : Repair) :
    repairLoop clock (first ++ rest) st = repairLoop clock rest { st with out := st.out ++ first } := by
  induction first generalizing st with
  | nil => rw [List.append_nil, List.nil_append]
  | cons message first ih =>
    have later := ih (fun other member => filled other (List.mem_cons_of_mem _ member))
      fun other member => noAi other (List.mem_cons_of_mem _ member)
    have joined : ∀ out : List Message, out ++ [message] ++ first = out ++ message :: first := by
      simp
    cases message with
    | ai message => exact Bool.noConfusion (noAi _ List.mem_cons_self)
    | plain message =>
      rw [List.cons_append, repairLoop, later, Repair.push]
      dsimp only
      rw [joined]
    | tool message =>
      rw [List.cons_append, repairLoop, if_pos (filled message List.mem_cons_self), later,
        Repair.push]
      dsimp only
      rw [joined]

theorem repairLoop_turn (clock : Nat → Int) (turn : Turn) (filled : Filled turn.span)
    (noAi : ∀ message ∈ turn.span, message.isAi = false) (ts : List Turn) (st : Repair)
    (later : turns (flatten ts) = ([], ts)) :
    ∃ st' after, TurnEffect st st' turn after ∧
      repairLoop clock (flatten (turn :: ts)) st = repairLoop clock (flatten ts) st' := by
  rw [flatten_cons, repairLoop]
  split
  · rename_i passes
    have idle : ¬turn.Calling := fun calling => by rw [calling.1] at passes; cases passes
    split
    · rename_i invalid
      refine ⟨_, ⟨clearInvalid turn.assistant, turn.span⟩, ?_, repairLoop_skip clock filled noAi _ _⟩
      refine ⟨by simp [Repair.push], rfl, fun _ => rfl, fun calling => absurd calling idle, ?_,
        iff_of_true rfl (.inr (.inl (.inl invalid)))⟩
      simp [Repair.push, idle]
    · rename_i valid
      have cleared := clearInvalid_of_valid (eq_false_of_ne_true valid)
      refine ⟨_, turn, ?_, repairLoop_skip clock filled noAi _ _⟩
      refine ⟨by simp [Repair.push], cleared.symm, fun _ => rfl, fun calling => absurd calling idle,
        ?_, ⟨.inl, ?_⟩⟩
      · simp [Repair.push, idle]
      · rintro (old | (invalid | ⟨calling, -⟩) | ⟨calling, -⟩)
        · exact old
        · exact absurd invalid valid
        · exact absurd calling idle
        · exact absurd calling idle
  · rename_i looked_at
    have looked_at := eq_false_of_ne_true looked_at
    have valid : hasInvalid turn.assistant = false := by
      rw [passesThrough, Bool.or_eq_false_iff] at looked_at
      exact looked_at.2
    have cleared := clearInvalid_of_valid valid
    dsimp only
    split
    · rename_i none_called
      have idle : ¬turn.Calling := fun calling => calling.2 (List.isEmpty_iff.mp none_called)
      refine ⟨_, turn, ?_, repairLoop_skip clock filled noAi _ _⟩
      refine ⟨by simp [Repair.push], cleared.symm, fun _ => rfl, fun calling => absurd calling idle,
        ?_, ⟨.inl, ?_⟩⟩
      · simp [Repair.push, idle]
      · rintro (old | (invalid | ⟨calling, -⟩) | ⟨calling, -⟩)
        · exact old
        · rw [valid] at invalid
          cases invalid
        · exact absurd calling idle
        · exact absurd calling idle
    · rename_i some_called
      have calling : turn.Calling :=
        ⟨looked_at, fun none_called => some_called (List.isEmpty_iff.mpr none_called)⟩
      have named : ∀ id ∈ turn.ids, id ≠ "" := fun id => Turn.ids_nonempty
      have split_here := scanSpan_eq turn.ids st.seen (turn.span ++ flatten ts) { changed := st.changed }
      rw [turns_append noAi, later, List.append_nil] at split_here
      have scanned := scanSpan_scanned st.seen named filled noAi { changed := st.changed }
      change ∃ st' after, TurnEffect st st' turn after ∧
        repairLoop clock (scanSpan turn.ids st.seen _ _).2
          (putOut clock turn.assistant turn.calls (scanSpan turn.ids st.seen _ _).1 st) =
            repairLoop clock (flatten ts) st'
      rw [split_here]
      generalize (scanSpan turn.ids st.seen turn.span { changed := st.changed }).1 = span at scanned ⊢
      have get : ∀ call ∈ turn.calls, call.id ∉ st.seen →
          span.get call.id = answer call.id turn.span := by
        intro call member fresh
        rw [scanned.get call.id (List.mem_map_of_mem member) fresh]
        rfl
      obtain ⟨results, out, fresh, answers, seen, changed⟩ := pushCalls_spec clock
        (fun call member => named call.id (List.mem_map_of_mem member))
        (scanned.filed fun _ _ found => by cases found) get
        { st.push (.ai turn.assistant) with
          changed := span.changed || (!span.results.isEmpty && !span.remainder.isEmpty) }
        fun _ => id
      have remainder : span.remainder = foreign turn.ids turn.span := scanned.remainder
      refine ⟨_, ⟨turn.assistant, results.map .tool ++ (foreign turn.ids turn.span).map .tool⟩,
        ⟨?_, cleared.symm, fun idle => absurd calling idle, fun _ => ⟨results, rfl, fresh, answers⟩,
          ?_, ?_⟩, rfl⟩
      · rw [putOut, out, remainder]
        simp [Repair.push]
      · intro id
        rw [putOut, seen, and_iff_right calling]
        rfl
      · constructor
        · intro final
          rcases changed.mp final with before | ⟨id, asked, old | missing⟩ | repeated
          · rcases (Bool.or_eq_true _ _).mp before with scan | both
            · rcases scanned.changed.mp scan with old | plain | ⟨message, -, asked, old⟩
              · exact .inl old
              · exact .inr (.inl (.inr ⟨calling, .inl plain⟩))
              · exact .inr (.inl (.inr ⟨calling, .inr (.inr (.inl ⟨_, asked, old⟩))⟩))
            · have left_over := ((Bool.and_eq_true _ _).mp both).2
              rw [remainder, Bool.not_eq_true', List.isEmpty_eq_false_iff] at left_over
              obtain ⟨message, member⟩ := List.exists_mem_of_ne_nil _ left_over
              exact .inr (.inr ⟨calling, message, mem_foreign.mp member⟩)
          · exact .inr (.inl (.inr ⟨calling, .inr (.inr (.inl ⟨id, asked, old⟩))⟩))
          · have spec := answer_spec id turn.span
            rw [missing] at spec
            exact .inr (.inl (.inr ⟨calling, .inr (.inl ⟨id, asked, spec⟩)⟩))
          · exact .inr (.inl (.inr ⟨calling, .inr (.inr (.inr repeated))⟩))
        · intro cause
          refine changed.mpr ?_
          rw [Bool.or_eq_true, scanned.changed]
          rcases cause with old |
            (invalid | ⟨-, plain | ⟨id, asked, missing⟩ | ⟨id, asked, old⟩ | repeated⟩) |
            ⟨-, message, alien⟩
          · exact .inl (.inl (.inl old))
          · rw [valid] at invalid
            cases invalid
          · exact .inl (.inl (.inr (.inl plain)))
          · exact .inr (.inl ⟨id, asked, .inr (answer_eq_none missing)⟩)
          · exact .inr (.inl ⟨id, asked, .inl old⟩)
          · exact .inr (.inr repeated)
          · -- without any result for its calls, the turn misses one
            obtain ⟨call, member⟩ := List.exists_mem_of_ne_nil _ calling.2
            have asked : call.id ∈ turn.ids := List.mem_map_of_mem member
            by_cases seen_before : call.id ∈ st.seen
            · exact .inr (.inl ⟨_, asked, .inl seen_before⟩)
            · cases found : answer call.id turn.span with
              | none => exact .inr (.inl ⟨_, asked, .inr found⟩)
              | some result =>
                have some_result : span.results ≠ [] := by
                  intro nothing
                  have none_found := get call member seen_before
                  rw [found, Span.get, nothing] at none_found
                  cases none_found
                have left_over : span.remainder ≠ [] := by
                  rw [remainder]
                  exact List.ne_nil_of_mem (mem_foreign.mpr alien)
                exact .inl (.inr (by simp [some_result, left_over]))

theorem flatten_turns_flatten {ts : List Turn}
    (noAi : ∀ turn ∈ ts, ∀ message ∈ turn.span, message.isAi = false) :
    turns (flatten ts) = ([], ts) := by
  have whole : turns ([] ++ flatten ts) = ([], ts) :=
    turns_flatten (fun _ member => by cases member) noAi
  simpa using whole

/-- The loop goes from turn to turn. -/
theorem repairLoop_turns (clock : Nat → Int) {ts : List Turn}
    (filled : ∀ turn ∈ ts, Filled turn.span)
    (noAi : ∀ turn ∈ ts, ∀ message ∈ turn.span, message.isAi = false) (st : Repair) :
    ∃ afters, Repaired st ts afters (repairLoop clock (flatten ts) st) := by
  induction ts generalizing st with
  | nil =>
    refine ⟨[], ?_⟩
    rw [flatten_nil, repairLoop]
    exact .nil st
  | cons turn ts ih =>
    have noAi_rest : ∀ other ∈ ts, ∀ message ∈ other.span, message.isAi = false :=
      fun other member => noAi other (List.mem_cons_of_mem _ member)
    obtain ⟨st', after, effect, stepped⟩ := repairLoop_turn clock turn
      (filled turn List.mem_cons_self) (noAi turn List.mem_cons_self) ts st
      (flatten_turns_flatten noAi_rest)
    obtain ⟨afters, rest⟩ := ih (fun other member => filled other (List.mem_cons_of_mem _ member))
      noAi_rest st'
    rw [stepped]
    exact ⟨after :: afters, .cons effect rest⟩

section Repaired

variable {st fin : Repair} {befores afters : List Turn}

theorem Repaired.out (repaired : Repaired st befores afters fin) :
    fin.out = st.out ++ flatten afters := by
  induction repaired with
  | nil st => simp
  | cons effect rest ih => rw [ih, effect.out, flatten_cons, List.append_assoc, List.cons_append]

theorem TurnEffect.noAi {st' : Repair} {before after : Turn} (effect : TurnEffect st st' before after)
    (noAi : ∀ message ∈ before.span, message.isAi = false) :
    ∀ message ∈ after.span, message.isAi = false := by
  intro message member
  by_cases calling : before.Calling
  · obtain ⟨results, span, -, -⟩ := effect.answered calling
    rw [span, ← List.map_append] at member
    obtain ⟨result, -, rfl⟩ := List.mem_map.mp member
    rfl
  · rw [effect.kept calling] at member
    exact noAi message member

theorem Repaired.noAi (repaired : Repaired st befores afters fin)
    (noAi : ∀ turn ∈ befores, ∀ message ∈ turn.span, message.isAi = false) :
    ∀ turn ∈ afters, ∀ message ∈ turn.span, message.isAi = false := by
  induction repaired with
  | nil st => exact fun _ member => absurd member List.not_mem_nil
  | cons effect rest ih =>
    intro turn member
    rcases List.mem_cons.mp member with rfl | later
    · exact effect.noAi (noAi _ List.mem_cons_self)
    · exact ih (fun other member => noAi other (List.mem_cons_of_mem _ member)) turn later

theorem Repaired.changed (repaired : Repaired st befores afters fin) (before : st.changed = true) :
    fin.changed = true := by
  induction repaired with
  | nil st => exact before
  | cons effect rest ih => exact ih (effect.changed.mpr (.inl before))

theorem Repaired.touched (repaired : Repaired st befores afters fin) {turn : Turn}
    (member : turn ∈ befores) (touched : ∀ seen, Touched seen turn) : fin.changed = true := by
  induction repaired with
  | nil st => cases member
  | cons effect rest ih =>
    rcases List.mem_cons.mp member with rfl | later
    · exact rest.changed (effect.changed.mpr (.inr (.inl (touched _))))
    · exact ih later

theorem TurnEffect.ids {st' : Repair} {before after : Turn} (effect : TurnEffect st st' before after) :
    after.ids = before.ids := by
  rw [Turn.ids, Turn.calls, effect.assistant]
  rfl

end Repaired

/-! ## The cleanup -/

/-- The message is no result of a call that was not made. -/
def answersTo (ids : List String) : Message → Bool
  | .tool message => message.toolCallId == "" || ids.contains message.toolCallId
  | _ => true

/-- The turn without the results of calls it does not make. -/
def Turn.clean (turn : Turn) : Turn := { turn with span := turn.span.filter (answersTo turn.ids) }

theorem dropOrphans_flatten (active : List String) (ts : List Turn) :
    dropOrphans active (flatten ts) = dropOrphans [] (flatten ts) := by
  cases ts with
  | nil => rfl
  | cons turn ts => rfl

theorem dropOrphans_append (active : List String) {first : List Message}
    (noAi : ∀ message ∈ first, message.isAi = false) (ts : List Turn) :
    dropOrphans active (first ++ flatten ts) =
      (first.filter (answersTo active) ++ (dropOrphans [] (flatten ts)).1,
        (first.any fun message => !answersTo active message) ||
          (dropOrphans [] (flatten ts)).2) := by
  induction first with
  | nil => rw [List.nil_append, dropOrphans_flatten]; simp
  | cons message first ih =>
    have later := ih fun other member => noAi other (List.mem_cons_of_mem _ member)
    cases message with
    | ai message => exact Bool.noConfusion (noAi _ List.mem_cons_self)
    | plain message => simp [dropOrphans, later, answersTo, List.filter_cons]
    | tool message =>
      rw [List.cons_append, dropOrphans, later]
      unfold extractToolResultId
      by_cases unnamed : message.toolCallId = ""
      · simp [unnamed, answersTo]
      · by_cases asked : message.toolCallId ∈ active <;> simp [unnamed, asked, answersTo]

theorem dropOrphans_turns {ts : List Turn}
    (noAi : ∀ turn ∈ ts, ∀ message ∈ turn.span, message.isAi = false) :
    dropOrphans [] (flatten ts) = (flatten (ts.map Turn.clean),
      ts.any fun turn => turn.span.any fun message => !answersTo turn.ids message) := by
  induction ts with
  | nil => rfl
  | cons turn ts ih =>
    have later := ih fun other member => noAi other (List.mem_cons_of_mem _ member)
    rw [flatten_cons, dropOrphans]
    change (Message.ai turn.assistant :: (dropOrphans turn.ids (turn.span ++ flatten ts)).1,
      (dropOrphans turn.ids (turn.span ++ flatten ts)).2) = _
    rw [dropOrphans_append turn.ids (noAi turn List.mem_cons_self), later]
    simp [Turn.clean]

/-! ## The whole repair -/

theorem fillEmpty_truthy (message : ToolMessage) : (fillEmpty message).content.truthy = true := by
  unfold fillEmpty
  split
  · assumption
  · rfl

@[simp] theorem fillEmpty_toolCallId (message : ToolMessage) :
    (fillEmpty message).toolCallId = message.toolCallId := by
  unfold fillEmpty
  split <;> rfl

theorem filled_map (messages : List Message) : Filled (messages.map fillMessage) := by
  intro message member
  obtain ⟨other, -, same⟩ := List.mem_map.mp member
  cases other with
  | tool other =>
    cases same
    exact fillEmpty_truthy other
  | _ => cases same

/-- Without an empty result there is nothing to fill. -/
theorem map_fill_of_none {messages : List Message} (none_empty : messages.any isEmptyResult = false) :
    messages.map fillMessage = messages := by
  have each : ∀ message ∈ messages, fillMessage message = id message := by
    intro message member
    have nonempty := List.any_eq_false.mp none_empty message member
    cases message with
    | tool message =>
      have content : message.content.truthy = true := by simpa [isEmptyResult] using nonempty
      rw [fillMessage, fillEmpty, if_pos content]
      rfl
    | _ => rfl
  rw [List.map_congr_left each, List.map_id]

/-- Something was changed, or is dropped by the cleanup. -/
def Altered (first : List Message) (afters : List Turn) (fin : Repair) : Prop :=
  fin.changed = true ∨ (∃ message ∈ first, answersTo [] message = false) ∨
    ∃ turn ∈ afters, ∃ message ∈ turn.span, answersTo turn.ids message = false

/-- The transcript with its empty results filled: the messages before the first assistant,
and the turns. -/
def filledTurns (messages : List Message) : List Message × List Turn :=
  ((turns messages).1.map fillMessage, (turns messages).2.map Turn.fill)

theorem sanitize_spec (clock : Nat → Int) (messages : List Message) :
    ∃ afters fin, Repaired
        { out := (filledTurns messages).1, changed := messages.any isEmptyResult }
        (filledTurns messages).2 afters fin ∧
      (Altered (filledTurns messages).1 afters fin ∧
          sanitizeToolUseResultPairing clock messages =
            (filledTurns messages).1.filter (answersTo []) ++ flatten (afters.map Turn.clean) ∨
        ¬Altered (filledTurns messages).1 afters fin ∧
          sanitizeToolUseResultPairing clock messages = messages) := by
  have split_here : turns (messages.map fillMessage) = filledTurns messages :=
    turns_map_fill messages
  have noAi := turns_noAi (messages.map fillMessage)
  have filled := filled_map messages
  have whole := append_flatten_turns (messages.map fillMessage)
  rw [split_here] at noAi whole
  have filled_first : Filled (filledTurns messages).1 := fun message member =>
    filled message (whole ▸ List.mem_append_left _ member)
  have filled_span : ∀ turn ∈ (filledTurns messages).2, Filled turn.span := by
    intro turn member message inside
    refine filled message (whole ▸ List.mem_append_right _ ?_)
    exact List.mem_flatMap.mpr ⟨turn, member, List.mem_cons_of_mem _ inside⟩
  have kept : (if messages.any isEmptyResult then messages.map fillMessage else messages) =
      messages.map fillMessage := by
    split
    · rfl
    · rename_i none_empty
      exact (map_fill_of_none (eq_false_of_ne_true none_empty)).symm
  obtain ⟨afters, repaired⟩ := repairLoop_turns clock filled_span noAi.2
    { out := (filledTurns messages).1, changed := messages.any isEmptyResult }
  have loop := repairLoop_skip clock filled_first noAi.1 (flatten (filledTurns messages).2)
    { changed := messages.any isEmptyResult }
  rw [whole, List.nil_append] at loop
  rw [← loop] at repaired
  refine ⟨afters, _, repaired, ?_⟩
  have noAi_after := repaired.noAi noAi.2
  have dropped := dropOrphans_append [] noAi.1 afters
  rw [dropOrphans_turns noAi_after, ← repaired.out] at dropped
  unfold sanitizeToolUseResultPairing
  dsimp only
  rw [kept, dropped]
  by_cases altered : Altered (filledTurns messages).1 afters
      (repairLoop clock (messages.map fillMessage) { changed := messages.any isEmptyResult })
  · refine .inl ⟨altered, if_pos ?_⟩
    simpa [Altered, Bool.or_eq_true] using altered
  · refine .inr ⟨altered, (if_neg fun cause => altered ?_).trans ?_⟩
    · simpa [Altered, Bool.or_eq_true] using cause
    · refine map_fill_of_none (eq_false_of_ne_true fun empty => altered (.inl ?_))
      exact repaired.changed empty

end SherryAgent.Contracts.Transcript
