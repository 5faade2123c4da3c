import SherryAgent.Library.Reruns
import SherryAgent.Source.PyText
import SherryAgent.Source.Transcript.Messages

/-!
# Types of the human-in-the-loop middleware

`humanInTheLoop/types.py`, the tool calls it reviews, the answers a human gives and the
state a review reads. A card is one `interrupt` call: its request, and the place it came
from. The compiled patterns of `detection.py`, the reviewing model and the argument digest
are taken as they are.
-/

namespace SherryAgent.Source.HumanInTheLoop

open SherryAgent.Library.Reruns
open SherryAgent.Source.Transcript (AiMessage Message ToolMessage)

def BLOCKED_MESSAGE : String :=
  "The user has NOT consented to this action. " ++
  "Do NOT retry this command, do NOT rephrase it, " ++
  "and do NOT attempt the same outcome via a different command."

def NO_OPERATOR_MESSAGE : String :=
  "No human operator is present to approve this action, so it was auto-denied."

/-! ## Tool calls -/

/-- The `args` of a tool call. -/
abbrev Args := List (String × Json)

namespace Args

/-- `args.get(key, default)`. -/
def getD (args : Args) (key : String) (default : Json) : Json :=
  ((args.find? (·.1 == key)).map (·.2)).getD default

end Args

structure ToolCall where
  id : Option String
  name : String
  args : Args

namespace ToolCall

def toJson (call : ToolCall) : Json :=
  .obj [("name", .str call.name), ("args", .obj call.args),
    ("id", match call.id with | some id => .str id | none => .null), ("type", .str "tool_call")]

/-- The call an entry of `tool_calls` is. -/
def ofJson? (entry : Json) : Option ToolCall :=
  match entry.get "name", entry.get "args", entry.get "id", entry.get "type" with
  | .str name, .obj args, .str id, .str "tool_call" => some { id := some id, name, args }
  | .str name, .obj args, .null, .str "tool_call" => some { id := none, name, args }
  | _, _, _, _ => none

end ToolCall

/-! ## Cards and answers -/

inductive DecisionType where
  | approve
  | session
  | edit
  | reject
  | yolo
  | other (name : String)
  deriving DecidableEq

/-- `edited_action`. -/
structure EditedAction where
  name : Option String := none
  args : Option Args := none

/-- `editedAction` is `none` where `edited_action` is no dict. -/
structure Decision where
  type : DecisionType
  message : Option String := none
  editedAction : Option EditedAction := some {}

/-- What `interrupt` returns; `malformed` is anything that reading the first decision's
type raises on. -/
inductive HITLResponse where
  | malformed
  | decisions (items : List Decision)

/-- The `interrupt` call a card comes from. -/
inductive Gate where
  | command
  | bypass
  | firstCall (strict : Bool)
  | interruptOn
  deriving DecidableEq

/-- One `HITLRequest`; `index` is the position of the call in the assistant message. -/
structure Card where
  gate : Gate
  index : Nat
  name : String
  args : Args
  description : String
  allowedDecisions : List DecisionType

/-! ## Configuration -/

inductive ApprovalMode where
  | smart
  | manual
  | off
  deriving DecidableEq

inductive ApprovalDecision where
  | once
  | session
  | always
  | deny
  deriving DecidableEq

structure ApprovalResult where
  approved : Bool
  decision : Option ApprovalDecision := none
  reason : String := ""
  patternKey : String := ""

/-- `blocked`. -/
def ApprovalResult.blocked (result : ApprovalResult) : Bool := !result.approved

inductive SmartApprovalResult where
  | approve
  | deny
  | escalate
  deriving DecidableEq

/-- A `description` of `InterruptOnConfig`; a function of the call may raise. -/
inductive Description where
  | text (value : String)
  | callable (describe : ToolCall → Option String)

structure InterruptOnConfig where
  allowedDecisions : List DecisionType
  description : Option Description := none

/-- An entry of `interrupted_tools`. -/
inductive InterruptedTool where
  | flag (enabled : Bool)
  | config (value : InterruptOnConfig)

/-- A compiled pattern with its source text. -/
structure Pattern where
  pattern : String
  search : String → Bool

structure HITLConfig where
  mode : ApprovalMode := .smart
  denyRules : List String := []
  yoloMode : Bool := false
  writeApprovalMemory : Bool := false
  /-- The reply to the n-th call's command; `none` is an exception. -/
  smartApprovalLlm : Option (Nat → String → Option String) := none
  interruptedTools : List (String × InterruptedTool) := []
  descriptionPrefix : String := "Action requires human approval"
  firstCallConfirmationEnabled : Bool := false
  firstCallConfirmationTools : List String := ["write_file", "patch_file"]

/-- `_interrupt_on`. -/
def HITLConfig.interruptOn (config : HITLConfig) (toolName : String) : Option InterruptOnConfig :=
  match config.interruptedTools.find? fun entry => entry.1 == toolName with
  | some (_, .flag true) => some { allowedDecisions := [.approve, .edit, .reject] }
  | some (_, .config value) => if value.allowedDecisions.isEmpty then none else some value
  | _ => none

/-! ## What a review reads and writes -/

/-- The keys of the in-memory state register. -/
structure SessionState where
  sessionYolo : Bool := false
  confirmAll : Bool := false
  permanent : List String := []
  sessionApproved : List String := []
  confirmedTools : List String := []
  toolApproved : List ((String × String) × Bool) := []

/-- A decision of the approval store. -/
structure ApprovalRecord where
  operator : String
  sessionId : String
  toolName : String
  argsHash : String
  allow : Bool
  reason : String

structure HookState where
  session : SessionState := {}
  store : List ApprovalRecord := []

/-- What surrounds one review: the configuration, the patterns, the environment variable
and the turn. `recordLands` tells whether the store's file takes the decision on a call. -/
structure ApprovalContext where
  config : HITLConfig
  hardlinePatterns : List Pattern
  dangerousPatterns : List (Pattern × String)
  clawhubPatterns : List Pattern
  sherryYoloMode : String := ""
  sessionId : String
  /-- `_turn_operator`. -/
  operator : Option String
  argsHash : Args → String
  writeId : Nat → String
  recordLands : Nat → Bool := fun _ => true

/-- A review stops at each card until a human answers it. -/
abbrev Hook := Program HookState Card HITLResponse

end SherryAgent.Source.HumanInTheLoop
