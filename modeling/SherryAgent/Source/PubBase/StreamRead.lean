import Mathlib.Data.Finset.Insert
import Mathlib.Data.List.DropRight
import SherryAgent.Source.PubBase.Files

/-!
# The streaming line reader

`agent/tools/pub_base/stream_read.py`, from the point where the encoding of the file is known. The
incremental decoder is a parameter; texts are lists of characters.
-/

namespace SherryAgent.Source.PubBase

/-- `codecs.getincrementaldecoder(encoding)("replace")`; the flag of `decode` is `final`. -/
structure IncrementalDecoder where
  State : Type
  start : State
  decode : State → Bytes → Bool → State × List Char

/-- What the decoder makes of the chunks, and of the end of the file. -/
def IncrementalDecoder.textsFrom (decoder : IncrementalDecoder) (state : decoder.State) :
    List Bytes → List (List Char)
  | [] => [(decoder.decode state [] true).2]
  | chunk :: chunks =>
    (decoder.decode state chunk false).2 ::
      decoder.textsFrom (decoder.decode state chunk false).1 chunks

def IncrementalDecoder.texts (decoder : IncrementalDecoder) (chunks : List Bytes) :
    List (List Char) :=
  decoder.textsFrom decoder.start chunks

/-- `clip_marker.format(omitted=...)`; two texts that end in the marker end in the same count. -/
structure ClipMarker where
  format : Nat → List Char
  states : ∀ {front front' : List Char} {omitted omitted' : Nat},
    front ++ format omitted = front' ++ format omitted' → omitted = omitted'

/-- `_LINE_CLIP_MARKER.format(omitted=...)` of `read_file.py`. -/
def lineClipText (omitted : Nat) : List Char :=
  "...[".toList ++ Nat.toDigits 10 omitted ++ " chars clipped]...".toList

theorem rtakeWhile_digits (front : List Char) (n : Nat) :
    (front ++ '[' :: Nat.toDigits 10 n).rtakeWhile Char.isDigit = Nat.toDigits 10 n := by
  have digits : ∀ c ∈ (Nat.toDigits 10 n).reverse, c.isDigit = true := fun c member =>
    Nat.isDigit_of_mem_toDigits (by decide) (by decide) (List.mem_reverse.mp member)
  have bracket : ('[').isDigit = false := by decide
  rw [List.rtakeWhile, List.reverse_append, List.reverse_cons, List.append_assoc,
    List.takeWhile_append_of_pos digits, List.singleton_append, List.takeWhile_cons, bracket]
  simp

theorem lineClipText_states {front front' : List Char} {omitted omitted' : Nat}
    (same : front ++ lineClipText omitted = front' ++ lineClipText omitted') :
    omitted = omitted' := by
  have spelled : ∀ (front : List Char) (n : Nat), front ++ lineClipText n =
      (front ++ ['.', '.', '.']) ++ '[' :: Nat.toDigits 10 n ++ " chars clipped]...".toList := by
    intro front n
    have head : "...[".toList = ['.', '.', '.', '['] := by decide
    simp [lineClipText, head]
  rw [spelled, spelled] at same
  have digits := congrArg (List.rtakeWhile Char.isDigit) (List.append_cancel_right same)
  rw [rtakeWhile_digits, rtakeWhile_digits] at digits
  rw [← Nat.ofDigitChars_ten_toDigits (n := omitted), digits, Nat.ofDigitChars_ten_toDigits]

def lineClipMarker : ClipMarker :=
  { format := lineClipText, states := lineClipText_states }

structure ReadRequest where
  offset : Int
  limit : Int
  maxLineChars : Option Nat
  clipMarker : ClipMarker

/-- `offset <= line_no < offset + limit`, after both were raised to one. -/
def ReadRequest.Wanted (request : ReadRequest) (lineNo : Nat) : Prop :=
  max 1 request.offset ≤ lineNo ∧ (lineNo : Int) < max 1 request.offset + max 1 request.limit

instance (request : ReadRequest) (lineNo : Nat) : Decidable (request.Wanted lineNo) :=
  inferInstanceAs (Decidable (_ ∧ _))

/-- `text.rstrip("\r")`. -/
def withoutReturns (text : List Char) : List Char :=
  text.rdropWhile (· == '\r')

structure LineReader where
  page : List (List Char) := []
  clippedLines : Finset Nat := ∅
  lineNo : Nat := 0
  carry : List Char := []
  carryClipped : Bool := false
  carryDropped : Nat := 0

/-- The line of a part: its body, the marker if the carry is clipped, and the line end. -/
def LineReader.emit (request : ReadRequest) (reader : LineReader) (part lineEnd : List Char) :
    LineReader :=
  let lineNo := reader.lineNo + 1
  let body := withoutReturns part
  if ¬request.Wanted lineNo then { reader with lineNo := lineNo }
  else if reader.carryClipped then
    { reader with
      lineNo := lineNo
      clippedLines := insert lineNo reader.clippedLines
      page := reader.page ++
        [body ++ request.clipMarker.format reader.carryDropped ++ lineEnd] }
  else { reader with lineNo := lineNo, page := reader.page ++ [body ++ lineEnd] }

/-- `_emit_complete`, and the carry's reset after it. -/
def LineReader.emitComplete (request : ReadRequest) (reader : LineReader) (part : List Char) :
    LineReader :=
  { reader.emit request part ['\n'] with carryClipped := false, carryDropped := 0 }

/-- The cap on the carry at the end of `_feed`. -/
def LineReader.capCarry (request : ReadRequest) (reader : LineReader) : LineReader :=
  match request.maxLineChars with
  | none => reader
  | some maxLineChars =>
    if maxLineChars < reader.carry.length then
      { reader with
        carryDropped := reader.carryDropped + (reader.carry.length - maxLineChars)
        carry := reader.carry.take maxLineChars
        carryClipped := true }
    else reader

/-- `_feed`. -/
def LineReader.feed (request : ReadRequest) (reader : LineReader) (text : List Char) :
    LineReader :=
  if text = [] then reader
  else
    let parts := (reader.carry ++ text).splitOn '\n'
    (parts.dropLast.foldl (LineReader.emitComplete request)
      { reader with carry := parts.getLastD [] }).capCarry request

/-- The line that the end of the file ends. -/
def LineReader.finish (request : ReadRequest) (reader : LineReader) : LineReader :=
  if reader.carry ≠ [] ∨ reader.carryClipped = true then reader.emit request reader.carry []
  else reader

structure LineWindow where
  pageLines : List (List Char)
  totalLines : Nat
  clippedLines : Finset Nat

def LineReader.window (reader : LineReader) : LineWindow :=
  { pageLines := reader.page, totalLines := reader.lineNo, clippedLines := reader.clippedLines }

/-- `read_line_window` on the chunks that `os.read` returns. -/
def readLineWindow (request : ReadRequest) (decoder : IncrementalDecoder) (chunks : List Bytes) :
    LineWindow :=
  (((decoder.texts chunks).foldl (LineReader.feed request) {}).finish request).window

end SherryAgent.Source.PubBase
