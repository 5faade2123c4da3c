import Mathlib.Data.List.Basic
import SherryAgent.Source.PyText
import SherryAgent.Source.Transcript.Messages

/-!
# The compression cutoff

`_determine_cutoff` of `agent/middlewares/summarization/compression.py`, `OrphanPairRepairer` of
`summarization_components.py` and `pub/func/message/turn_utils.py`: where the transcript is cut
into a head that is summarised and a tail that is preserved. The token estimate of a sub-list and
the preserve budget of the session are arguments.
-/

namespace SherryAgent.Source.Summarization

open SherryAgent.Source SherryAgent.Source.Transcript

/-! ## Turns -/

/-- `str(meta.get(key) or "").strip()`. -/
def marker (metadata : List (String × Json)) (key : String) : String :=
  PyText.strip ((Json.obj metadata).getText key)

/-- `meta.get("internal") is True`. -/
def injected (metadata : List (String × Json)) : Bool :=
  match (Json.obj metadata).get "internal" with
  | .bool value => value
  | _ => false

/-- `is_workspace_notice`. -/
def isWorkspaceNotice (message : PlainMessage) : Bool :=
  injected message.metadata &&
    (marker message.metadata "provenance" == "workspace_notice" ||
      ["project_dir", "git_head"].contains (marker message.metadata "origin"))

/-- `is_system_reminder`. -/
def isSystemReminder (message : PlainMessage) : Bool :=
  injected message.metadata && marker message.metadata "provenance" == "reminder_catalog"

/-- `isinstance(message, HumanMessage)`. -/
def isHuman : Message → Bool
  | .plain message => message.role == .human
  | _ => false

/-- A user's message that the agent layer did not insert. -/
def opensTurn : Message → Bool
  | .plain message =>
    message.role == .human && !isWorkspaceNotice message && !isSystemReminder message
  | _ => false

/-- A `Turn`. -/
structure Turn where
  startIdx : Nat
  endIdx : Nat
  messages : List Message

/-- `Turn(start, stop, messages[start:stop])`. -/
def turnAt (messages : List Message) (start stop : Nat) : Turn :=
  { startIdx := start, endIdx := stop, messages := (messages.take stop).drop start }

/-- The loop of `split_into_turns` from index `i` on, with its `turn_start`. -/
def splitFrom (messages : List Message) (turnStart i : Nat) : List Message → List Turn
  | [] => [turnAt messages turnStart messages.length]
  | message :: rest =>
    if opensTurn message && decide (0 < i) then
      turnAt messages turnStart i :: splitFrom messages i (i + 1) rest
    else splitFrom messages turnStart (i + 1) rest

/-- `split_into_turns`. -/
def splitIntoTurns (messages : List Message) : List Turn :=
  if messages.isEmpty then [] else splitFrom messages 0 0 messages

/-- `split_turn`. -/
def splitTurn (estimate : List Message → Nat) (turn : Turn) (budgetTokens : Int) : Option Nat :=
  if budgetTokens ≤ 0 then none
  else if turn.endIdx - turn.startIdx ≤ 1 then none
  else
    (List.range' (turn.startIdx + 1) (turn.endIdx - (turn.startIdx + 1))).find? fun start =>
      decide ((estimate (turn.messages.drop (start - turn.startIdx)) : Int) ≤ budgetTokens)

/-- The walk over the turns, last turn first, with its `total` and `cutoff`. -/
def walkTurns (estimate : List Message → Nat) (budget : Int) (total : Int) (cutoff : Nat) :
    List Turn → Nat
  | [] => cutoff
  | turn :: earlier =>
    if total + estimate turn.messages ≤ budget then
      walkTurns estimate budget (total + estimate turn.messages) turn.startIdx earlier
    else (splitTurn estimate turn (budget - total)).getD cutoff

/-- The cutoff that the budget gives, before it is moved. -/
def budgetCut (estimate : List Message → Nat) (budget : Int) (messages : List Message) : Nat :=
  walkTurns estimate budget 0 0 (splitIntoTurns messages).reverse

/-! ## Orphans -/

/-- Some call of the message has the id: `tc.get("id") == id`. -/
def callsId (id : String) : Message → Bool
  | .ai message => message.toolCalls.any fun call =>
      match call.get "id" with
      | .str value => value == id
      | _ => false
  | _ => false

/-- The `tool_call_id` of a tool result, when it is not empty. -/
def answeredId : Message → Option String
  | .tool message => if message.toolCallId = "" then none else some message.toolCallId
  | _ => none

/-- `orphan_ids` at a cut: answered in the tail, not called in the tail. -/
def orphanIds (messages : List Message) (cut : Nat) : List String :=
  let tail := messages.drop cut
  (tail.filterMap answeredId).filter fun id => !tail.any (callsId id)

/-- The index of the last `HumanMessage`. -/
def lastUserIdx (messages : List Message) : Option Nat :=
  (List.range messages.length).reverse.find? fun i => messages[i]?.any isHuman

/-- The first assistant message before the cut that calls an orphan id, else the last user
message before the cut. -/
def earlierCut (messages : List Message) (cut : Nat) : Option Nat :=
  match (messages.take cut).findIdx? fun message =>
      (orphanIds messages cut).any fun id => callsId id message with
  | some earliest => some earliest
  | none => lastUserIdx (messages.take cut)

/-- `OrphanPairRepairer.adjust`: every round moves the cut to an earlier message, so there are at
most `cutoff` rounds. -/
def adjustRounds (messages : List Message) : (rounds : Nat) → Nat → Nat
  | 0, adjusted => adjusted
  | rounds + 1, adjusted =>
    if adjusted = 0 then adjusted
    else if orphanIds messages adjusted = [] then adjusted
    else
      match earlierCut messages adjusted with
      | some earlier => adjustRounds messages rounds earlier
      | none => adjusted

/-- `_adjust_for_orphan_pairs`. -/
def adjustForOrphanPairs (messages : List Message) (cutoff : Nat) : Nat :=
  adjustRounds messages cutoff cutoff

/-- The cutoff behind the orphan repair, before the clamp. -/
def repairedCut (estimate : List Message → Nat) (budget : Int) (messages : List Message) : Nat :=
  adjustForOrphanPairs messages (budgetCut estimate budget messages)

/-- `_determine_cutoff`. -/
def determineCutoff (estimate : List Message → Nat) (budget : Int) (compressLastTurn : Bool)
    (messages : List Message) : Nat :=
  let cutoff := repairedCut estimate budget messages
  if compressLastTurn then cutoff
  else
    match lastUserIdx messages with
    | some lastUser => if lastUser < cutoff then lastUser else cutoff
    | none => cutoff

end SherryAgent.Source.Summarization
