import Mathlib.Algebra.GroupWithZero.Nat
import SherryAgent.Source.FileTools.ReadFile
import SherryAgent.Source.PyText
import SherryAgent.Source.Summarization.Calls

/-!
# Pruning of old tool outputs

`pub/func/message/tool_output_prune.py`. The token estimate of a text, `str(...)` of a content that
is not a string, and the decimal digits of `\d` are arguments.
-/

namespace SherryAgent.Source.Summarization

open SherryAgent.Source SherryAgent.Source.Transcript

/-! ## The one-line summaries -/

/-- `[:\s]`. -/
def isCodeSeparator (c : Char) : Bool := c == ':' || PyText.isSpace c

/-- A match of `[Ee]xit\s*[Cc]ode[:\s]+(\d+)` at the start of the text. -/
def exitCodeAt (isDigit : Char → Bool) (text : List Char) : Option String :=
  match text with
  | e :: rest =>
    if (e == 'E' || e == 'e') && "xit".toList.isPrefixOf rest then
      match (rest.drop 3).dropWhile PyText.isSpace with
      | c :: rest =>
        let gap := rest.drop 3
        let digits := (gap.dropWhile isCodeSeparator).takeWhile isDigit
        if (c == 'C' || c == 'c') && "ode".toList.isPrefixOf rest &&
            !(gap.takeWhile isCodeSeparator).isEmpty && !digits.isEmpty then
          some (String.ofList digits)
        else none
      | [] => none
    else none
  | [] => none

/-- `_extract_exit_code`. -/
def extractExitCode (isDigit : Char → Bool) (text : List Char) : String :=
  (text.tails.findSome? (exitCodeAt isDigit)).getD "unknown"

/-- `_count_lines`. -/
def countLines (text : List Char) : Nat :=
  if PyText.strip (String.ofList text) = "" then 0 else text.count '\n' + 1

def charCount (text : List Char) : String := toString text.length ++ " chars"

/-- `_TOOL_SUMMARY_TEMPLATES`, with `_DEFAULT_TEMPLATE` for every other tool. -/
def toolSummary (isDigit : Char → Bool) (toolName : String) (text : List Char) : String :=
  match toolName with
  | "read" => "[read] read file, " ++ charCount text ++ ", " ++ toString (countLines text) ++ " lines"
  | "read_file" =>
    "[read_file] read file, " ++ charCount text ++ ", " ++ toString (countLines text) ++ " lines"
  | "write" => "[write] wrote file, " ++ charCount text
  | "write_file" => "[write_file] wrote file, " ++ charCount text
  | "edit" => "[edit] edited file, " ++ charCount text
  | "edit_file" => "[edit_file] edited file, " ++ charCount text
  | "grep" => "[grep] search done, " ++ toString (countLines text) ++ " matches"
  | "glob" =>
    let lines := FileTools.splitLines (PyText.strip (String.ofList text)).toList
    "[glob] matched " ++ toString lines.length ++ " files"
  | "bash" =>
    "[bash] exit_code=" ++ extractExitCode isDigit text ++ ", output " ++ charCount text
  | "shell" =>
    "[shell] exit_code=" ++ extractExitCode isDigit text ++ ", output " ++ charCount text
  | "taskflow_flow" => "[taskflow_flow] " ++ charCount text
  | "taskflow_step" => "[taskflow_step] " ++ charCount text
  | "taskflow_inspect" => "[taskflow_inspect] " ++ charCount text
  | "memory" => "[memory] " ++ String.ofList (text.take 80) ++ "..."
  | _ => "[tool] output " ++ charCount text ++ ", first 100: " ++ String.ofList (text.take 100) ++ "..."

def summaryMaxChars : Nat := 200

/-- `_summarize_tool_result`; none of the templates raises on a string. -/
def summarizeToolResult (isDigit : Char → Bool) (toolName : String) (text : List Char) : String :=
  let summary := toolSummary isDigit toolName text
  if summaryMaxChars < summary.toList.length then
    String.ofList (summary.toList.take (summaryMaxChars - 3)) ++ "..."
  else summary

/-! ## The pass -/

/-- The arguments of `prune_tool_outputs`, and what it uses of the interpreter. -/
structure PruneConfig where
  protectTokens : Int
  minReductionTokens : Int
  protectedTools : List String
  estimateText : String → Nat
  str : Json → String
  isDigit : Char → Bool

/-- `str(content)`. -/
def contentText (str : Json → String) : Content → String
  | .text value => value
  | .blocks items => str (.arr items)

def additionalKwargs : Message → List (String × Json)
  | .plain message => message.additionalKwargs
  | .ai message => message.additionalKwargs
  | .tool message => message.additionalKwargs

/-- `_is_summary_message`. -/
def isSummaryMessage (message : Message) : Bool :=
  match (Json.obj (additionalKwargs message)).get "lc_source" with
  | .str source => source == "summarization"
  | _ => false

/-- A tool result that the loop counts, with its index. -/
def countedResult (config : PruneConfig) (messages : List Message) (entry : Message × Nat) :
    Option (Nat × ToolMessage) :=
  match entry.1 with
  | .tool message =>
    if findToolName messages entry.2 message.toolCallId ∈ config.protectedTools then none
    else if message.status = "compacted" then none
    else some (entry.2, message)
  | _ => none

/-- What the loop counts, newest first; it stops at a summary message. -/
def countedResults (config : PruneConfig) (messages : List Message) : List (Nat × ToolMessage) :=
  (messages.zipIdx.reverse.takeWhile fun entry => !isSummaryMessage entry.1).filterMap
    (countedResult config messages)

/-- `token_est`. -/
def tokenEst (config : PruneConfig) (message : ToolMessage) : Nat :=
  config.estimateText (contentText config.str message.content)

/-- The results behind which `total_tool_tokens` is over `protect_tokens`. -/
def beyondWindow (config : PruneConfig) (total : Nat) :
    List (Nat × ToolMessage) → List (Nat × ToolMessage)
  | [] => []
  | entry :: older =>
    if (total + tokenEst config entry.2 : Int) ≤ config.protectTokens then
      beyondWindow config (total + tokenEst config entry.2) older
    else entry :: beyondWindow config (total + tokenEst config entry.2) older

/-- `to_prune`. -/
def toPrune (config : PruneConfig) (messages : List Message) : List (Nat × ToolMessage) :=
  beyondWindow config 0 (countedResults config messages)

/-- `pruned_tokens`. -/
def prunedTokens (config : PruneConfig) (pruned : List (Nat × ToolMessage)) : Nat :=
  (pruned.map fun entry => tokenEst config entry.2).sum

/-- The result that replaces a pruned one. -/
def prunedResult (config : PruneConfig) (messages : List Message) (index : Nat)
    (message : ToolMessage) : ToolMessage :=
  let content := (contentText config.str message.content).toList
  let toolName := findToolName messages index message.toolCallId
  { message with
    content := .text (summarizeToolResult config.isDigit toolName content)
    additionalKwargs := setField "original_length" (.int content.length)
      (setField "status" (.str "compacted") message.additionalKwargs) }

/-- The message in the result of the pass. -/
def pruneMessage (config : PruneConfig) (messages : List Message) (pruned : List Nat)
    (index : Nat) : Message → Message
  | .tool message =>
    if index ∈ pruned then .tool (prunedResult config messages index message) else .tool message
  | message => message

/-- The pass returns the messages as they are. -/
def keepsAll (config : PruneConfig) (pruned : List (Nat × ToolMessage)) : Bool :=
  decide ((prunedTokens config pruned : Int) < config.minReductionTokens) || pruned.isEmpty

/-- `prune_tool_outputs`. -/
def pruneToolOutputs (config : PruneConfig) (messages : List Message) : List Message × Nat :=
  let pruned := toPrune config messages
  if keepsAll config pruned then (messages, 0)
  else (messages.mapIdx (pruneMessage config messages (pruned.map (·.1))),
    prunedTokens config pruned)

end SherryAgent.Source.Summarization
