import SherryAgent.Source.Json

/-!
# Chat messages

The LangChain messages of a transcript, with the attributes the agent reads. A
tool call of an assistant is the dict it is in Python; `status` on an assistant
and `metadata` are extra attributes a message may carry.
-/

namespace SherryAgent.Source.Transcript

inductive Content where
  | text (value : String)
  | blocks (items : List Json)

namespace Content

/-- `bool(content)`. -/
def truthy : Content → Bool
  | .text value => value != ""
  | .blocks items => !items.isEmpty

/-- `content == ""`. -/
def isEmptyText : Content → Bool
  | .text value => value == ""
  | .blocks _ => false

end Content

structure AiMessage where
  id : Option String := none
  content : Content := .text ""
  toolCalls : List Json := []
  invalidToolCalls : List Json := []
  status : Option String := none
  additionalKwargs : List (String × Json) := []
  metadata : List (String × Json) := []

structure ToolMessage where
  id : Option String := none
  content : Content
  toolCallId : String
  name : Option String := none
  status : String := "success"
  additionalKwargs : List (String × Json) := []

/-- The messages that are neither an assistant's nor a tool's. -/
inductive PlainRole where
  | human
  | system
  | other
  deriving DecidableEq

structure PlainMessage where
  role : PlainRole
  id : Option String := none
  content : Content
  additionalKwargs : List (String × Json) := []
  metadata : List (String × Json) := []

inductive Message where
  | plain (message : PlainMessage)
  | ai (message : AiMessage)
  | tool (message : ToolMessage)

namespace Message

def isTool : Message → Bool
  | .tool _ => true
  | _ => false

def isAi : Message → Bool
  | .ai _ => true
  | _ => false

end Message

/-- `{**fields, key: value}`. -/
def setField (key : String) (value : Json) (fields : List (String × Json)) :
    List (String × Json) :=
  if fields.any (·.1 == key) then
    fields.map fun field => if field.1 == key then (key, value) else field
  else fields ++ [(key, value)]

end SherryAgent.Source.Transcript
