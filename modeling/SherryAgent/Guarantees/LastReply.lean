import Mathlib.Data.Finset.Max
import Mathlib.Data.Prod.Lex
import SherryAgent.Contracts.ContextEngine.UserTurns
import SherryAgent.Source.ContextEngine.SessionContinuity

/-!
# The last reply of an ended session

- `picks_newest_iff`: exactly when the saved summary is the newest reply of the last three turns
- `oldest_turn_picked`: two answered turns, and the older answer is saved
-/

namespace SherryAgent.Guarantees.LastReply

open SherryAgent.Source SherryAgent.Source.Summarization SherryAgent.Source.ContextEngine
open SherryAgent.Library

variable {loads : String → Option Json} {str : Json → String} {table : MessageTable}
variable {sessionId : String} {row : HistoryRow}

/-- A row of the session's last three turns. -/
def InLastTurns (table : MessageTable) (sessionId : String) (row : HistoryRow) : Prop :=
  row ∈ table.rows ∧ row.sessionId = sessionId ∧ 1 ≤ row.turnNum ∧
    maxTurnOf table.rows sessionId < row.turnNum + 3

/-- The text of a row, as `auto_save_on_session_end` reads it. -/
def textOf (loads : String → Option Json) (str : Json → String) (row : HistoryRow) : String :=
  match decodeContent loads row.content with
  | some content => PyText.strip (contentString str content)
  | none => ""

/-- An assistant row of the last three turns that is not empty. -/
structure Reply (loads : String → Option Json) (str : Json → String) (table : MessageTable)
    (sessionId : String) (row : HistoryRow) : Prop where
  recent : InLastTurns table sessionId row
  assistant : isAssistantRole row.role = true
  nonempty : textOf loads str row ≠ ""

/-- By turn, then by id. -/
def UpTo (other row : HistoryRow) : Prop :=
  other.turnNum < row.turnNum ∨ other.turnNum = row.turnNum ∧ other.id ≤ row.id

structure Newest (loads : String → Option Json) (str : Json → String) (table : MessageTable)
    (sessionId : String) (row : HistoryRow) : Prop where
  reply : Reply loads str table sessionId row
  greatest : ∀ other, Reply loads str table sessionId other → UpTo other row

/-- The loop breaks at the row, and the row is not empty. -/
def Picks (loads : String → Option Json) (str : Json → String) (table : MessageTable)
    (sessionId : String) (row : HistoryRow) : Prop :=
  ∃ messages message, messagesByLastestNTurns loads table sessionId 3 = some messages ∧
    tailReply messages = some message ∧ replyText str message ≠ "" ∧
    row ∈ table.rows ∧ message.id = row.id

/-- The newest reply is picked, and nothing else; its text is what is saved. -/
structure PicksNewest (loads : String → Option Json) (str : Json → String) (table : MessageTable)
    (sessionId : String) : Prop where
  picked : ∀ row, Picks loads str table sessionId row ↔ Newest loads str table sessionId row
  saved : ∀ row, Newest loads str table sessionId row →
    autoSaveOnSessionEnd loads str table sessionId =
      some (String.ofList ((textOf loads str row).toList.take maxSummaryChars))

/-- A row that the page shows. -/
def Shown (table : MessageTable) (sessionId : String) (row : HistoryRow) : Prop :=
  InLastTurns table sessionId row ∧ row.compacted = false ∧ row.contextEligible = true

/-- The page can be read, and the row stands where the loop breaks: in the oldest turn that shows an
assistant, as its last. -/
structure BreaksAt (loads : String → Option Json) (table : MessageTable) (sessionId : String)
    (row : HistoryRow) : Prop where
  readable : ∀ other, Shown table sessionId other → (decodeJsonColumns loads other).isSome
  shown : Shown table sessionId row
  oldest : ∀ other, Shown table sessionId other → isAssistantRole other.role = true →
    row.turnNum < other.turnNum ∨ row.turnNum = other.turnNum ∧ other.id ≤ row.id

/-! ## The page -/

/-- The rows of the page in its order. -/
def pageRows (table : MessageTable) (sessionId : String) : List HistoryRow :=
  fetchTurnRange table sessionId (max 1 (maxTurnOf table.rows sessionId + 1 - 3))
    (maxTurnOf table.rows sessionId)

theorem turnNum_le_maxTurnOf (member : row ∈ table.rows) (own : row.sessionId = sessionId) :
    row.turnNum ≤ maxTurnOf table.rows sessionId := by
  apply (Contracts.ContextEngine.foldl_max_le _ 0).2
  apply List.mem_map_of_mem
  simp [member, own]

theorem mem_pageRows : row ∈ pageRows table sessionId ↔ Shown table sessionId row := by
  rw [pageRows, fetchTurnRange, List.mem_insertionSort, List.mem_filter]
  unfold Shown InLastTurns inRange
  simp only [Bool.and_eq_true, beq_iff_eq, decide_eq_true_eq, Bool.not_eq_true']
  constructor
  · intro ⟨member, ⟨⟨⟨own, low⟩, high⟩, current⟩, eligible⟩
    exact ⟨⟨member, own, by omega, by omega⟩, current, eligible⟩
  · intro ⟨⟨member, own, first, recent⟩, current, eligible⟩
    have high := turnNum_le_maxTurnOf member own
    exact ⟨member, ⟨⟨⟨own, by omega⟩, high⟩, current⟩, eligible⟩

theorem pageOrder_iff {a b : HistoryRow} : pageOrder a b = true ↔
    b.turnNum < a.turnNum ∨ a.turnNum = b.turnNum ∧ a.id ≤ b.id := by
  simp [pageOrder]

theorem pageRows_sorted (table : MessageTable) (sessionId : String) :
    (pageRows table sessionId).Pairwise fun a b => pageOrder a b = true := by
  have total : Std.Total fun a b => pageOrder a b = true :=
    ⟨fun a b => by rw [pageOrder_iff, pageOrder_iff]; omega⟩
  have trans : IsTrans HistoryRow fun a b => pageOrder a b = true :=
    ⟨fun a b c => by rw [pageOrder_iff, pageOrder_iff, pageOrder_iff]; omega⟩
  exact List.pairwise_insertionSort _ _

theorem row_eq_of_id {other : HistoryRow} (member : row ∈ table.rows) (member' : other ∈ table.rows)
    (same : row.id = other.id) : row = other :=
  Table.eq_of_key_eq table.distinct member member' same

/-- The assistant row at which the loop over the page breaks. -/
theorem lastAssistant_iff :
    (pageRows table sessionId).reverse.find? (fun row => isAssistantRole row.role) = some row ↔
      Shown table sessionId row ∧ isAssistantRole row.role = true ∧
        ∀ other, Shown table sessionId other → isAssistantRole other.role = true →
          row.turnNum < other.turnNum ∨ row.turnNum = other.turnNum ∧ other.id ≤ row.id := by
  rw [Table.find?_reverse_of_sorted (pageRows_sorted table sessionId)
    (fun a => by rw [pageOrder_iff]; omega)]
  · simp only [mem_pageRows, pageOrder_iff, @eq_comm Nat row.turnNum]
  · intro a member b member' first second
    rw [pageOrder_iff] at first second
    exact row_eq_of_id (mem_pageRows.mp member).1.1 (mem_pageRows.mp member').1.1 (by omega)

/-! ## The decoded page -/

theorem messages_eq : messagesByLastestNTurns loads table sessionId 3 =
    (pageRows table sessionId).mapM (decodeJsonColumns loads) := by
  unfold messagesByLastestNTurns historyFirstPage
  by_cases empty : maxTurnOf table.rows sessionId = 0
  · have nothing : pageRows table sessionId = [] := by
      rw [List.eq_nil_iff_forall_not_mem]
      intro row member
      obtain ⟨⟨inside, own, first, -⟩, -⟩ := mem_pageRows.mp member
      have high := turnNum_le_maxTurnOf inside own
      omega
    rw [if_pos empty, nothing]
    rfl
  · rw [if_neg empty]
    rfl

theorem decoded_spec {message : HistoryMessage} (decoded : decodeJsonColumns loads row = some message) :
    message.id = row.id ∧ message.role = row.role ∧
      replyText str message = textOf loads str row := by
  unfold decodeJsonColumns at decoded
  simp only [Option.bind_eq_bind, Option.bind_eq_some_iff, Option.pure_def, Option.some.injEq] at decoded
  obtain ⟨content, parsed, -, -, -, -, -, -, -, -, rfl⟩ := decoded
  refine ⟨rfl, rfl, ?_⟩
  rw [textOf, parsed]
  rfl

theorem isSome_mapM {rows : List HistoryRow} :
    (rows.mapM (decodeJsonColumns loads)).isSome ↔
      ∀ row ∈ rows, (decodeJsonColumns loads row).isSome := by
  induction rows with
  | nil => simp
  | cons first rest ih =>
    rw [List.mapM_cons, List.forall_mem_cons, ← ih]
    cases decodeJsonColumns loads first with
    | none => simp
    | some message => cases rest.mapM (decodeJsonColumns loads) <;> simp

/-- The loop over the decoded page breaks at the decoded row. -/
theorem tailReply_eq {rows : List HistoryRow} {messages : List HistoryMessage}
    (decoded : rows.mapM (decodeJsonColumns loads) = some messages) :
    tailReply messages = (rows.reverse.find? fun row => isAssistantRole row.role).bind
      (decodeJsonColumns loads) := by
  unfold tailReply
  induction rows generalizing messages with
  | nil =>
    obtain rfl := Option.some.inj decoded
    rfl
  | cons first rest ih =>
    rw [List.mapM_cons] at decoded
    simp only [Option.bind_eq_bind, Option.bind_eq_some_iff, Option.pure_def, Option.some.injEq]
      at decoded
    obtain ⟨message, here, later, rest_decoded, rfl⟩ := decoded
    rw [List.reverse_cons, List.find?_append, List.reverse_cons, List.find?_append,
      ih rest_decoded]
    have role : message.role = first.role := (@decoded_spec _ Json.pyStr _ _ here).2.1
    cases found : rest.reverse.find? (fun row => isAssistantRole row.role) with
    | none =>
      by_cases assistant : isAssistantRole first.role = true
      · simp [role, assistant, here]
      · simp [role, assistant]
    | some row =>
      have inside : row ∈ rest := List.mem_reverse.mp (List.mem_of_find?_eq_some found)
      have readable := isSome_mapM.mp (Option.isSome_of_eq_some rest_decoded) row inside
      obtain ⟨tail, parsed⟩ := Option.isSome_iff_exists.mp readable
      simp [parsed]

/-- The row that is picked is a reply at which the loop breaks. -/
theorem picks_iff : Picks loads str table sessionId row ↔
    BreaksAt loads table sessionId row ∧ isAssistantRole row.role = true ∧
      textOf loads str row ≠ "" := by
  unfold Picks
  rw [messages_eq]
  constructor
  · rintro ⟨messages, message, decoded, breaks, nonempty, member, same⟩
    have readable := isSome_mapM.mp (Option.isSome_of_eq_some decoded)
    rw [tailReply_eq decoded, Option.bind_eq_some_iff] at breaks
    obtain ⟨found, lookup, parsed⟩ := breaks
    obtain ⟨id_eq, -, text_eq⟩ := @decoded_spec _ str _ _ parsed
    obtain ⟨shown, assistant, last⟩ := lastAssistant_iff.mp lookup
    obtain rfl := row_eq_of_id member shown.1.1 (same.symm.trans id_eq)
    rw [text_eq] at nonempty
    exact ⟨⟨fun other shown' => readable other (mem_pageRows.mpr shown'), shown, last⟩, assistant,
      nonempty⟩
  · rintro ⟨⟨readable, shown, last⟩, assistant, nonempty⟩
    have decodes := isSome_mapM.mpr fun other member => readable other (mem_pageRows.mp member)
    obtain ⟨messages, decoded⟩ := Option.isSome_iff_exists.mp decodes
    obtain ⟨message, parsed⟩ := Option.isSome_iff_exists.mp (readable row shown)
    obtain ⟨id_eq, -, text_eq⟩ := @decoded_spec _ str _ _ parsed
    have lookup := lastAssistant_iff.mpr ⟨shown, assistant, last⟩
    refine ⟨messages, message, decoded, ?_, by rwa [text_eq], shown.1.1, id_eq⟩
    rw [tailReply_eq decoded, lookup]
    exact parsed

/-- Among the replies there is a newest one. -/
theorem exists_newest (reply : Reply loads str table sessionId row) :
    ∃ newest, Newest loads str table sessionId newest := by
  classical
  let replies := (table.rows.filter fun other => Reply loads str table sessionId other).toFinset
  have among : ∀ other, other ∈ replies ↔ Reply loads str table sessionId other := by
    intro other
    simp only [replies, List.mem_toFinset, List.mem_filter, decide_eq_true_eq]
    exact ⟨fun both => both.2, fun is_reply => ⟨is_reply.recent.1, is_reply⟩⟩
  obtain ⟨newest, member, greatest⟩ := replies.exists_max_image
    (fun other => toLex (other.turnNum, other.id)) ⟨row, (among row).mpr reply⟩
  refine ⟨newest, (among newest).mp member, ?_⟩
  intro other is_reply
  have below := greatest other ((among other).mpr is_reply)
  rwa [Prod.Lex.toLex_le_toLex] at below

theorem picks_unique {other : HistoryRow} (first : Picks loads str table sessionId row)
    (second : Picks loads str table sessionId other) : row = other := by
  obtain ⟨breaks, assistant, -⟩ := picks_iff.mp first
  obtain ⟨breaks', assistant', -⟩ := picks_iff.mp second
  have after := breaks.oldest other breaks'.shown assistant'
  have before := breaks'.oldest row breaks.shown assistant
  exact row_eq_of_id breaks.shown.1.1 breaks'.shown.1.1 (by omega)

theorem saved_of_picks (picks : Picks loads str table sessionId row) :
    autoSaveOnSessionEnd loads str table sessionId =
      some (String.ofList ((textOf loads str row).toList.take maxSummaryChars)) := by
  obtain ⟨messages, message, read, breaks, nonempty, member, same⟩ := picks
  have decoded := read
  rw [messages_eq] at decoded
  have breaks' := breaks
  rw [tailReply_eq decoded, Option.bind_eq_some_iff] at breaks'
  obtain ⟨found, lookup, parsed⟩ := breaks'
  obtain ⟨id_eq, -, text_eq⟩ := @decoded_spec _ str _ _ parsed
  obtain rfl := row_eq_of_id member (lastAssistant_iff.mp lookup).1.1.1 (same.symm.trans id_eq)
  rw [text_eq] at nonempty
  rw [autoSaveOnSessionEnd, read, Option.map_some, lastAi, breaks]
  simp [nonempty, text_eq]

/-- The newest reply is what is saved exactly when the loop breaks at it. -/
theorem picks_newest_iff (loads : String → Option Json) (str : Json → String) (table : MessageTable)
    (sessionId : String) :
    PicksNewest loads str table sessionId ↔
      ∀ row, Newest loads str table sessionId row → BreaksAt loads table sessionId row := by
  constructor
  · intro picks row newest
    exact (picks_iff.mp ((picks.picked row).mpr newest)).1
  · intro breaks
    have picked : ∀ row, Newest loads str table sessionId row → Picks loads str table sessionId row :=
      fun row newest =>
        picks_iff.mpr ⟨breaks row newest, newest.reply.assistant, newest.reply.nonempty⟩
    constructor
    · intro row
      constructor
      · intro picks
        obtain ⟨stops, assistant, nonempty⟩ := picks_iff.mp picks
        obtain ⟨newest, is_newest⟩ := exists_newest ⟨stops.shown.1, assistant, nonempty⟩
        rwa [picks_unique picks (picked newest is_newest)]
      · exact picked row
    · exact fun row newest => saved_of_picks (picked row newest)

/-! ## Two answered turns -/

/-- `json.loads` of a text in quotes that has no escapes. -/
def loadsQuoted (text : String) : Option Json :=
  some (.str (String.ofList (text.toList.drop 1).dropLast))

def answer (id turnNum : Nat) (content : String) : HistoryRow :=
  { id, sessionId := "s", turnNum, role := "ai", content := some content }

def twoTurns : MessageTable :=
  { rows := [answer 1 1 "\"first\"", answer 2 2 "\"second\""], distinct := by decide }

/-- The summary that is saved is the answer of the first turn. -/
theorem oldest_turn_picked :
    autoSaveOnSessionEnd loadsQuoted Json.pyStr twoTurns "s" = some "first" ∧
      ¬PicksNewest loadsQuoted Json.pyStr twoTurns "s" := by
  have saved : autoSaveOnSessionEnd loadsQuoted Json.pyStr twoTurns "s" = some "first" := by
    decide +kernel
  refine ⟨saved, fun picks => ?_⟩
  have replies : ∀ row ∈ twoTurns.rows, UpTo row (answer 2 2 "\"second\"") := by
    unfold UpTo
    decide
  have newest : Newest loadsQuoted Json.pyStr twoTurns "s" (answer 2 2 "\"second\"") :=
    { reply :=
        { recent := ⟨by simp [twoTurns], rfl, by decide, by decide⟩
          assistant := by decide
          nonempty := by decide +kernel }
      greatest := fun other reply => replies other reply.recent.1 }
  rw [picks.saved _ newest] at saved
  exact absurd saved (by decide +kernel)

end SherryAgent.Guarantees.LastReply
