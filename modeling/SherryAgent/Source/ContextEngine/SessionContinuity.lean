import Mathlib.Data.List.Nodup
import Mathlib.Data.List.Sort
import SherryAgent.Source.PyText
import SherryAgent.Source.Summarization.Estimate

/-!
# The last reply of an ended session

`context_engine/session_continuity.py`, with the history page it reads
(`context_engine/store/core.py` and `message_repository.py`). `loads` is `json.loads`, `none` where
it raises; `str` is `str(...)` of a parsed value.
-/

namespace SherryAgent.Source.ContextEngine

open SherryAgent.Source SherryAgent.Source.Summarization

/-- A row of `messages`, with the columns that the page filters by or decodes. -/
structure HistoryRow where
  id : Nat
  sessionId : String
  turnNum : Nat
  role : String
  content : Option String
  toolCalls : Option String := none
  images : Option String := none
  audios : Option String := none
  videos : Option String := none
  contextEligible : Bool := true
  compacted : Bool := false
  deriving DecidableEq

/-- The table; `id` is its primary key. -/
structure MessageTable where
  rows : List HistoryRow
  distinct : (rows.map (·.id)).Nodup

/-- A row of a page, its content decoded. -/
structure HistoryMessage where
  id : Nat
  turnNum : Nat
  role : String
  content : Json

/-- `get_max_turn_num`: 0 without rows. -/
def maxTurnOf (rows : List HistoryRow) (sessionId : String) : Nat :=
  ((rows.filter fun row => row.sessionId == sessionId).map (·.turnNum)).foldl max 0

/-- The rows of `fetch_turn_range` with `only_eligible` and without `include_compacted`. -/
def inRange (sessionId : String) (minTurn maxTurn : Nat) (row : HistoryRow) : Bool :=
  row.sessionId == sessionId && decide (minTurn ≤ row.turnNum) && decide (row.turnNum ≤ maxTurn) &&
    !row.compacted && row.contextEligible

/-- `ORDER BY turn_num DESC, id ASC`. -/
def pageOrder (a b : HistoryRow) : Bool :=
  decide (b.turnNum < a.turnNum) || (a.turnNum == b.turnNum && decide (a.id ≤ b.id))

/-- `fetch_turn_range`. -/
def fetchTurnRange (table : MessageTable) (sessionId : String) (minTurn maxTurn : Nat) :
    List HistoryRow :=
  (table.rows.filter (inRange sessionId minTurn maxTurn)).insertionSort fun a b => pageOrder a b

/-- `decode_content` with `strict`; a missing value stays `None`. -/
def decodeContent (loads : String → Option Json) : Option String → Option Json
  | none => some .null
  | some text => loads text

/-- `_decode_json_columns`. -/
def decodeJsonColumns (loads : String → Option Json) (row : HistoryRow) : Option HistoryMessage := do
  let content ← decodeContent loads row.content
  let _ ← decodeContent loads row.toolCalls
  let _ ← decodeContent loads row.images
  let _ ← decodeContent loads row.audios
  let _ ← decodeContent loads row.videos
  return { id := row.id, turnNum := row.turnNum, role := row.role, content }

/-- `get_history_by_turn_page` for the first page and a lower bound of 1. -/
def historyFirstPage (loads : String → Option Json) (table : MessageTable) (sessionId : String)
    (turnPageSize : Nat) : Option (List HistoryMessage) :=
  let maxTurn := maxTurnOf table.rows sessionId
  if maxTurn = 0 then some []
  else
    (fetchTurnRange table sessionId (max 1 (maxTurn + 1 - turnPageSize)) maxTurn).mapM
      (decodeJsonColumns loads)

/-- `get_messages_by_lastest_n_turns`. -/
def messagesByLastestNTurns (loads : String → Option Json) (table : MessageTable)
    (sessionId : String) (lastN : Nat) : Option (List HistoryMessage) :=
  historyFirstPage loads table sessionId lastN

def maxSummaryChars : Nat := 500

def isAssistantRole (role : String) : Bool := role == "ai" || role == "assistant"

/-- `str(block.get("text", ""))`. -/
def blockTextOf (str : Json → String) : Json → String
  | .obj fields => ((fields.find? fun field => field.1 == "text").map fun field => str field.2).getD ""
  | _ => ""

/-- The text of a content before `strip`: the text blocks joined, and nothing for other values. -/
def contentString (str : Json → String) : Json → String
  | .str value => value
  | .arr items => " ".intercalate ((items.filter isTextBlock).map (blockTextOf str))
  | _ => ""

/-- The stripped text of a message. -/
def replyText (str : Json → String) (message : HistoryMessage) : String :=
  PyText.strip (contentString str message.content)

/-- The message at which the loop of `auto_save_on_session_end` breaks. -/
def tailReply (messages : List HistoryMessage) : Option HistoryMessage :=
  messages.reverse.find? fun message => isAssistantRole message.role

/-- `last_ai`. -/
def lastAi (str : Json → String) (messages : List HistoryMessage) : Option String :=
  match tailReply messages with
  | none => none
  | some message =>
    if replyText str message = "" then none
    else some (String.ofList ((replyText str message).toList.take maxSummaryChars))

/-- The summary that `auto_save_on_session_end` saves; a failed read saves nothing. -/
def autoSaveOnSessionEnd (loads : String → Option Json) (str : Json → String) (table : MessageTable)
    (sessionId : String) : Option String :=
  (messagesByLastestNTurns loads table sessionId 3).map fun messages =>
    (lastAi str messages).getD ""

end SherryAgent.Source.ContextEngine
