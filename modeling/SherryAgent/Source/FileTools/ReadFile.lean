import Mathlib.Data.Rat.Floor
import SherryAgent.Source.PubBase.Files

/-!
# `read_file`

`agent/tools/file_tools/read_file.py`: a page of a file with line numbers, bounded by lines and
by tokens, and the license that a whole page gives. A token cost is the exact value of the sum
that the source computes in floats. The page of an oversized file, which is streamed and never
licenses anything, is left out.
-/

namespace SherryAgent.Source.FileTools

open SherryAgent.Source.PubBase

/-- The registry's numbers that `read_file` reads. -/
structure ReadLimits where
  readDefaultLimit : Int := 500
  readMaxLimit : Int := 2000
  tokenBudget : Int := 4000
  budgetRatio : ℚ := 17 / 20
  lineTokenCap : Int := 4000
  charsPerToken : ℚ := 4
  charsPerTokenCjk : ℚ := 2
  maxWholeRead : Int := 262144
  fastPathThreshold : Int := 10485760

/-! ## Lines -/

/-- The separators of `str.splitlines` besides `\r\n`. -/
def isLineBreak (c : Char) : Bool :=
  [0x0A, 0x0B, 0x0C, 0x0D, 0x1C, 0x1D, 0x1E, 0x85, 0x2028, 0x2029].contains c.toNat

/-- `splitlines(keepends=True)`, with the line that is read so far. -/
def splitLinesFrom (line : List Char) : List Char → List (List Char)
  | [] => if line.isEmpty then [] else [line]
  | '\r' :: '\n' :: rest => (line ++ ['\r', '\n']) :: splitLinesFrom [] rest
  | c :: rest =>
    if isLineBreak c then (line ++ [c]) :: splitLinesFrom [] rest
    else splitLinesFrom (line ++ [c]) rest

/-- `splitlines(keepends=True)`. -/
def splitLines (text : List Char) : List (List Char) := splitLinesFrom [] text

/-- `split("\n")`, with the line that is read so far. -/
def splitNewlinesFrom (line : List Char) : List Char → List (List Char)
  | [] => [line]
  | '\n' :: rest => line :: splitNewlinesFrom [] rest
  | c :: rest => splitNewlinesFrom (line ++ [c]) rest

/-- The lines under their numbers, one after the other. -/
def numberLines (number : Nat) : List (List Char) → List Char
  | [] => []
  | [line] => (toString number).toList ++ '|' :: line
  | line :: rest => (toString number).toList ++ '|' :: line ++ '\n' :: numberLines (number + 1) rest

/-- `_add_line_numbers`. -/
def addLineNumbers (content : List Char) (startLine : Nat) : List Char :=
  numberLines startLine (splitNewlinesFrom [] content)

/-! ## The token budget -/

/-- `is_cjk_codepoint`. -/
def isCjkCodepoint (cp : Nat) : Bool :=
  (0x4E00 ≤ cp && cp ≤ 0x9FFF) || (0x3400 ≤ cp && cp ≤ 0x4DBF) || (0x20000 ≤ cp && cp ≤ 0x2A6DF) ||
  (0x3000 ≤ cp && cp ≤ 0x303F) || (0x3040 ≤ cp && cp ≤ 0x309F) || (0x30A0 ≤ cp && cp ≤ 0x30FF) ||
  (0xAC00 ≤ cp && cp ≤ 0xD7AF)

def charCost (limits : ReadLimits) (c : Char) : ℚ :=
  if isCjkCodepoint c.toNat then 1 / limits.charsPerTokenCjk else 1 / limits.charsPerToken

/-- `_line_token_cost`. -/
def lineTokenCost (limits : ReadLimits) (line : List Char) : ℚ :=
  (line.map (charCost limits)).sum

/-- `_page_budget_limits`: `none` for infinity. -/
def pageBudgetLimits (limits : ReadLimits) : Option ℚ × Option ℚ :=
  let target := if 0 < limits.tokenBudget then some (limits.tokenBudget * limits.budgetRatio) else none
  let cap := (limits.lineTokenCap : ℚ)
  (target, if 0 < limits.lineTokenCap then some (target.elim cap (min · cap)) else target)

/-- `_chars_for_tokens` from the start, with the tokens accumulated so far. -/
def charsForTokensFrom (limits : ReadLimits) (targetTokens accumulated : ℚ) : List Char → Nat
  | [] => 0
  | c :: rest =>
    let accumulated := accumulated + charCost limits c
    if targetTokens ≤ accumulated then 1
    else charsForTokensFrom limits targetTokens accumulated rest + 1

/-- `_chars_for_tokens`. -/
def charsForTokens (limits : ReadLimits) (text : List Char) (targetTokens : ℚ) : Nat :=
  if targetTokens ≤ 0 then 0 else charsForTokensFrom limits targetTokens 0 text

/-- `_LINE_CLIP_MARKER`. -/
def lineClipMarker (omitted : Nat) : String := s!"...[{omitted} chars clipped]..."

/-- The lines of a page, their cost, and whether one was clipped. -/
structure Window where
  pageLines : List (List Char) := []
  spent : ℚ := 0
  clipped : Bool := false

/-- The loop of `_window` over the remaining lines. -/
def windowFrom (limits : ReadLimits) (limit : Nat) (window : Window) : List (List Char) → Window
  | [] => window
  | line :: rest =>
    if limit ≤ window.pageLines.length then window
    else
      let cost := lineTokenCost limits line
      match (pageBudgetLimits limits).2.filter (· < cost) with
      | some cap =>
        let keep := charsForTokens limits line cap
        { pageLines := window.pageLines ++
            [line.take keep ++ (lineClipMarker (line.length - keep)).toList]
          spent := window.spent + cap
          clipped := true }
      | none =>
        let window := { window with
          pageLines := window.pageLines ++ [line]
          spent := window.spent + cost }
        if (pageBudgetLimits limits).1.any (· ≤ window.spent) then window
        else windowFrom limits limit window rest

/-- `_window`. -/
def window (limits : ReadLimits) (allLines : List (List Char)) (offset limit : Nat) : Window :=
  windowFrom limits limit {} (allLines.drop (offset - 1))

/-! ## The answer -/

/-- The JSON objects that `read_file` answers with; `oversized` stands for a streamed page, and
`raised` for bytes that their codec does not decode. -/
inductive ReadResult where
  | raised
  | error (message : String)
  | tooLarge (path : String) (fileSize : Nat)
  | notText (path : String) (fileSize : Nat)
  | oversized (path : String)
  | unchanged (totalLines fileSize : Nat)
  | page (content : List Char) (totalLines fileSize : Nat) (truncated truncatedByTokenCap : Bool)
      (hint : Option String)

/-- The hint of a page that is not the whole file. -/
def pageHint (limits : ReadLimits) (offset endLine totalLines : Nat) (window : Window) : String :=
  s!"Use offset={endLine + 1} to continue reading " ++
  s!"(showing {offset}-{min endLine totalLines} of {totalLines} lines" ++
  (if window.clipped then
    "; one line alone exceeded the whole budget and was clipped" ++
    " — read_file cannot page INSIDE a line, so for that line's" ++
    " remainder use search_files (regex with context), or terminal" ++
    " (head -c / tail -c / dd) / python_repl (slicing)"
  else "") ++
  (if 0 < limits.tokenBudget then
    s!", ~{⌊window.spent⌋} tokens of the {limits.tokenBudget} budget"
  else "") ++ ")"

/-- `_unchanged_since_last_read`. -/
def unchangedSinceLastRead (license : Option FileLicense) (sessionId : String) (offset : Nat)
    (revision : Revision) : Bool :=
  if offset != 1 || sessionId == "" then false
  else license.any fun license => license.source == .read && license.revision == revision

/-- The page's text without its last newline. -/
def pageText (pageLines : List (List Char)) : List Char :=
  let text := pageLines.flatten
  if text.getLast? == some '\n' then text.dropLast else text

/-- The decoded file: what a page answers, and whether it is the whole file. -/
def paginateText (limits : ReadLimits) (raw : List Char) (fileSize : Nat) (offset limit : Nat) :
    ReadResult × Bool :=
  let allLines := splitLines raw
  let totalLines := allLines.length
  let window := window limits allLines offset limit
  let endLine := offset + window.pageLines.length - 1
  let text := pageText window.pageLines
  let content := if text.isEmpty then [] else addLineNumbers text offset
  let truncated := decide (endLine < totalLines) || window.clipped
  (.page content totalLines fileSize truncated
      (decide (0 < limits.tokenBudget) && (pageBudgetLimits limits).1.any (· ≤ window.spent))
      (if truncated then some (pageHint limits offset endLine totalLines window) else none),
    offset == 1 && !truncated)

/-- `max(1, min(value, bound))`. -/
def clampFrom1 (value bound : Int) : Nat := (max 1 (min value bound)).toNat

/-- `_paginate`: the answer and the licenses. -/
def paginate (codecs : Codecs) (limits : ReadLimits) (licenses : Licenses) (path : String)
    (file : File) (offset limit : Int) (sessionId : String) : ReadResult × Licenses :=
  match sniffTextEncoding codecs file.data with
  | none => (.notText path file.data.length, licenses)
  | some encoding =>
    match decodeText codecs file.data encoding with
    | none => (.raised, licenses)
    | some text =>
      let raw := text.toList
      let offset := clampFrom1 offset ((splitLines raw).length + 1)
      let limit := clampFrom1 limit limits.readMaxLimit
      let revision := revisionId (some file)
      -- `licensed` is asked only for a read from the start in a session
      let (license, licenses) := if offset != 1 || sessionId == "" then (none, licenses)
        else licenses.licensed sessionId path
      if unchangedSinceLastRead license sessionId offset revision then
        (.unchanged (splitLines raw).length file.data.length, licenses)
      else
        let (result, whole) := paginateText limits raw file.data.length offset limit
        (result, if whole then licenses.noteRead sessionId path revision encoding else licenses)

/-- `ReadFileTool._core` of a resolved path. -/
def readFile (codecs : Codecs) (limits : ReadLimits) (disk : Disk) (licenses : Licenses)
    (path : String) (offset limit : Int) (sessionId : String) : ReadResult × Licenses :=
  match disk.files path with
  | none => (.error s!"File not found: {path}", licenses)
  | some file =>
    let fileSize : Int := file.data.length
    if decide (0 < limits.maxWholeRead) && (offset == 1 && limit == limits.readDefaultLimit) &&
        decide (limits.maxWholeRead ≤ fileSize) then
      (.tooLarge path file.data.length, licenses)
    else if decide (0 < limits.fastPathThreshold) && decide (limits.fastPathThreshold ≤ fileSize) then
      (.oversized path, licenses)
    else paginate codecs limits licenses path file offset limit sessionId

end SherryAgent.Source.FileTools
