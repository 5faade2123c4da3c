import Mathlib.Data.Finset.Lattice.Lemmas
import SherryAgent.Library.Separated
import SherryAgent.Source.PubBase.StreamRead

/-!
# The streaming line reader

- `line_window_iff`: the window is that of the plain definition exactly when no wanted line beyond
  the cap has a part before its newline in the chunk of the newline
- `long_line_uncapped`: a line that one chunk completes is not capped
-/

namespace SherryAgent.Guarantees.LineWindows

open SherryAgent.Library SherryAgent.Source.PubBase

variable {request : ReadRequest} {reader : LineReader} {opened text body : List Char}

/-! ## The plain definition -/

/-- A line of a text without its newline, and whether a newline ends it. -/
structure Line where
  body : List Char
  ended : Bool

def lineEnd (ended : Bool) : List Char :=
  if ended then ['\n'] else []

/-- The line that no newline ends, if there is one. -/
def unended (body : List Char) : List Line :=
  if body = [] then [] else [⟨body, false⟩]

def linesOf (text : List Char) : List Line :=
  let parts := text.splitOn '\n'
  parts.dropLast.map (⟨·, true⟩) ++ unended (parts.getLastD [])

/-- The characters of a line that the cap keeps. -/
def capped (request : ReadRequest) (body : List Char) : List Char :=
  match request.maxLineChars with
  | none => body
  | some maxLineChars => body.take maxLineChars

/-- The number of characters that the cap leaves out. -/
def excess (request : ReadRequest) (body : List Char) : Nat :=
  match request.maxLineChars with
  | none => 0
  | some maxLineChars => body.length - maxLineChars

/-- The marker for the characters left out, if there are any. -/
def marker (request : ReadRequest) (omitted : Nat) : List Char :=
  if omitted = 0 then [] else request.clipMarker.format omitted

structure Shown where
  text : List Char
  clipped : Bool

def plainLine (request : ReadRequest) (line : Line) : Shown :=
  { text := withoutReturns (capped request line.body) ++ marker request (excess request line.body) ++
      lineEnd line.ended
    clipped := decide (0 < excess request line.body) }

/-- The lines of the window, with their numbers. -/
def wantedLines (request : ReadRequest) {line : Type} (first : Nat) (lines : List line) :
    List (line × Nat) :=
  (lines.zipIdx first).filter fun numbered => request.Wanted numbered.2

def windowOf (request : ReadRequest) (shown : List Shown) : LineWindow :=
  { pageLines := (wantedLines request 1 shown).map (·.1.text)
    totalLines := shown.length
    clippedLines :=
      (((wantedLines request 1 shown).filter (·.1.clipped)).map (·.2)).toFinset }

def plainWindow (request : ReadRequest) (text : List Char) : LineWindow :=
  windowOf request ((linesOf text).map (plainLine request))

/-! ## The cut of the lines by the chunks -/

/-- A line as the reader meets it: what the chunks before its last one hold of it, and what the last
one holds. A line that the end of the file ends has nothing in that last chunk. -/
structure Cut where
  earlier : List Char
  now : List Char
  ended : Bool

def Cut.line (cut : Cut) : Line :=
  { body := cut.earlier ++ cut.now, ended := cut.ended }

/-- The lines that a chunk's text ends. -/
def cutsIn (opened text : List Char) : List Cut :=
  match text.splitOn '\n' with
  | first :: second :: more =>
    ⟨opened, first, true⟩ :: (second :: more).dropLast.map (⟨[], ·, true⟩)
  | _ => []

/-- The unfinished line after a chunk's text. -/
def openAfter (opened text : List Char) : List Char :=
  match text.splitOn '\n' with
  | _ :: second :: more => (second :: more).getLastD []
  | _ => opened ++ text

def cutsFrom (opened : List Char) : List (List Char) → List Cut
  | [] => if opened = [] then [] else [⟨opened, [], false⟩]
  | text :: texts => cutsIn opened text ++ cutsFrom (openAfter opened text) texts

/-- The cap is kept: the line is short enough, or its newline is the first character of a chunk's
text. -/
def Capped (request : ReadRequest) (cut : Cut) : Prop :=
  excess request cut.line.body = 0 ∨ cut.now = []

/-! ## The window, line by line -/

def addLine (request : ReadRequest) (window : LineWindow) (shown : Shown) : LineWindow :=
  let lineNo := window.totalLines + 1
  if ¬request.Wanted lineNo then { window with totalLines := lineNo }
  else
    { pageLines := window.pageLines ++ [shown.text]
      totalLines := lineNo
      clippedLines :=
        if shown.clipped then insert lineNo window.clippedLines else window.clippedLines }

theorem wantedLines_cons {line : Type} (first : Nat) (head : line) (rest : List line) :
    wantedLines request first (head :: rest) =
      (if request.Wanted first then [(head, first)] else []) ++
        wantedLines request (first + 1) rest := by
  unfold wantedLines
  rw [List.zipIdx_cons, List.filter_cons]
  split
  · rename_i wanted
    rw [if_pos (by simpa using wanted)]
    rfl
  · rename_i skipped
    rw [if_neg (by simpa using skipped)]
    rfl

theorem foldl_addLine (window : LineWindow) (shown : List Shown) :
    shown.foldl (addLine request) window =
      { pageLines := window.pageLines ++
          (wantedLines request (window.totalLines + 1) shown).map (·.1.text)
        totalLines := window.totalLines + shown.length
        clippedLines := window.clippedLines ∪
          (((wantedLines request (window.totalLines + 1) shown).filter (·.1.clipped)).map
            (·.2)).toFinset } := by
  induction shown generalizing window with
  | nil => simp [wantedLines]
  | cons line rest ih =>
    rw [List.foldl_cons, ih, wantedLines_cons]
    unfold addLine
    by_cases wanted : request.Wanted (window.totalLines + 1)
    · cases clipped : line.clipped
      · simp [wanted, clipped]
        omega
      · simp [wanted, clipped]
        omega
    · simp [wanted]
      omega

theorem windowOf_eq_foldl (shown : List Shown) :
    windowOf request shown =
      shown.foldl (addLine request)
        { pageLines := [], totalLines := 0, clippedLines := ∅ } := by
  rw [foldl_addLine]
  simp [windowOf]

/-! ## The cap on a growing line -/

@[simp] theorem capped_nil : capped request [] = [] := by
  unfold capped
  split <;> simp

@[simp] theorem excess_nil : excess request [] = 0 := by
  unfold excess
  split <;> simp

theorem mem_of_mem_capped {c : Char} (member : c ∈ capped request body) : c ∈ body := by
  unfold capped at member
  split at member
  · exact member
  · exact List.mem_of_mem_take member

theorem capped_of_excess (short : excess request body = 0) : capped request body = body := by
  unfold excess at short
  unfold capped
  split
  · rfl
  · rename_i maxLineChars cap
    rw [cap] at short
    exact List.take_of_length_le (Nat.sub_eq_zero_iff_le.mp short)

/-- A line beyond the cap leaves out all that is added to it. -/
theorem capped_append (long : 0 < excess request opened) (text : List Char) :
    capped request (opened ++ text) = capped request opened ∧
      excess request (opened ++ text) = excess request opened + text.length := by
  unfold excess at long
  unfold capped excess
  split
  · rename_i uncapped
    rw [uncapped] at long
    cases long
  · rename_i maxLineChars cap
    rw [cap] at long
    have beyond : maxLineChars ≤ opened.length := (Nat.lt_of_sub_pos long).le
    constructor
    · exact List.take_append_of_le_length beyond
    · rw [List.length_append]
      omega

theorem excess_append_eq_zero (short : excess request (opened ++ text) = 0) :
    excess request opened = 0 := by
  by_contra long
  have grown := (capped_append (Nat.pos_of_ne_zero long) text).2
  omega

/-- The reader holds the capped head of an unfinished line and the count of what it left out. -/
structure Carries (request : ReadRequest) (reader : LineReader) (opened : List Char) : Prop where
  carry : reader.carry = capped request opened
  clipped : reader.carryClipped = decide (0 < excess request opened)
  dropped : reader.carryDropped = excess request opened

theorem carries_capCarry (text : List Char) (carry : reader.carry = capped request opened ++ text)
    (clipped : reader.carryClipped = decide (0 < excess request opened))
    (dropped : reader.carryDropped = excess request opened) :
    Carries request (reader.capCarry request) (opened ++ text) := by
  unfold LineReader.capCarry
  unfold excess at clipped dropped
  unfold capped at carry
  split
  · rename_i uncapped
    rw [uncapped] at carry clipped dropped
    constructor
    · simp [carry, capped, uncapped]
    · simp [clipped, excess, uncapped]
    · simp [dropped, excess, uncapped]
  · rename_i maxLineChars cap
    rw [cap] at carry clipped dropped
    have sized := congrArg List.length carry
    rw [List.length_append, List.length_take] at sized
    split
    · rename_i long
      constructor
      · simp only [carry, capped, cap, List.take_append, List.take_take, List.length_take,
          Nat.min_self]
        congr 2
        omega
      · simp only [excess, cap, List.length_append]
        rw [eq_comm, decide_eq_true_iff]
        omega
      · simp only [dropped, excess, cap, List.length_append]
        omega
    · rename_i short
      constructor
      · simp only [carry, capped, cap, List.take_append]
        congr 1
        rw [List.take_of_length_le]
        omega
      · simp only [clipped, excess, cap, List.length_append]
        rw [decide_eq_decide]
        omega
      · simp only [dropped, excess, cap, List.length_append]
        omega

/-! ## The reader -/

/-- A line as the reader shows it: the cap is on what the earlier chunks hold. -/
def cutLine (request : ReadRequest) (cut : Cut) : Shown :=
  { text := withoutReturns (capped request cut.earlier ++ cut.now) ++
      marker request (excess request cut.earlier) ++ lineEnd cut.ended
    clipped := decide (0 < excess request cut.earlier) }

theorem emit_window {omitted : Nat} (part ending : List Char)
    (clipped : reader.carryClipped = decide (0 < omitted)) (dropped : reader.carryDropped = omitted) :
    (reader.emit request part ending).window =
      addLine request reader.window
        { text := withoutReturns part ++ marker request omitted ++ ending
          clipped := decide (0 < omitted) } := by
  unfold LineReader.emit addLine marker
  by_cases wanted : request.Wanted (reader.lineNo + 1)
  · by_cases whole : omitted = 0
    · simp [LineReader.window, wanted, clipped, whole]
    · simp [LineReader.window, wanted, clipped, dropped, whole, Nat.pos_of_ne_zero whole]
  · simp [LineReader.window, wanted]

theorem emit_carry (part ending : List Char) :
    (reader.emit request part ending).carry = reader.carry := by
  unfold LineReader.emit
  dsimp only
  split
  · rfl
  · split <;> rfl

theorem capCarry_window : (reader.capCarry request).window = reader.window := by
  unfold LineReader.capCarry
  split
  · rfl
  · split <;> rfl

/-- The lines that begin and end in one chunk. -/
theorem foldl_emitComplete (parts : List (List Char)) (clipped : reader.carryClipped = false)
    (dropped : reader.carryDropped = 0) :
    (parts.foldl (LineReader.emitComplete request) reader).window =
        ((parts.map (⟨[], ·, true⟩)).map (cutLine request)).foldl (addLine request) reader.window ∧
      (parts.foldl (LineReader.emitComplete request) reader).carry = reader.carry ∧
      (parts.foldl (LineReader.emitComplete request) reader).carryClipped = false ∧
      (parts.foldl (LineReader.emitComplete request) reader).carryDropped = 0 := by
  induction parts generalizing reader with
  | nil => exact ⟨rfl, rfl, clipped, dropped⟩
  | cons part rest ih =>
    obtain ⟨shown, carried, unclipped, nothing⟩ :=
      @ih (reader.emitComplete request part) rfl rfl
    have line := @emit_window request reader 0 part ['\n'] (by simp [clipped]) dropped
    constructor
    · rw [List.foldl_cons, shown, List.map_cons, List.map_cons, List.foldl_cons]
      congr 1
      change (reader.emit request part ['\n']).window = _
      simpa [cutLine, lineEnd] using line
    · exact ⟨carried.trans (emit_carry part ['\n']), unclipped, nothing⟩

/-- One chunk's text: the reader shows the lines that it ends and carries the unfinished one. -/
theorem feed_carries (carries : Carries request reader opened) (clean : '\n' ∉ opened)
    (text : List Char) :
    Carries request (reader.feed request text) (openAfter opened text) ∧
      (reader.feed request text).window =
        ((cutsIn opened text).map (cutLine request)).foldl (addLine request) reader.window := by
  by_cases nothing : text = []
  · subst nothing
    simpa [LineReader.feed, openAfter, cutsIn] using carries
  · have carryClean : '\n' ∉ reader.carry := by
      rw [carries.carry]
      exact fun member => clean (mem_of_mem_capped member)
    unfold LineReader.feed openAfter cutsIn
    rw [if_neg nothing, Separated.splitOn_append_of_not_mem carryClean]
    have joined := @List.intercalate_splitOn Char text _ _ '\n'
    cases parts : text.splitOn '\n' with
    | nil => exact absurd parts (List.splitOn_ne_nil _ _)
    | cons first later =>
      rw [parts] at joined
      cases later with
      | nil =>
        have same : first = text := by simpa using joined
        subst same
        constructor
        · exact carries_capCarry first (by simp [carries.carry]) carries.clipped carries.dropped
        · exact capCarry_window
      | cons second more =>
        -- The first line ends what was carried; the others are of this chunk alone.
        have line := @emit_window request { reader with carry := (second :: more).getLastD [] } _
          (reader.carry ++ first) ['\n'] carries.clipped carries.dropped
        obtain ⟨shown, carried, unclipped, restored⟩ :=
          @foldl_emitComplete request
            (({ reader with carry := (second :: more).getLastD [] } : LineReader).emitComplete request
              (reader.carry ++ first)) (second :: more).dropLast rfl rfl
        have last : ((second :: more).dropLast.foldl (LineReader.emitComplete request)
            (({ reader with carry := (second :: more).getLastD [] } : LineReader).emitComplete
              request (reader.carry ++ first))).carry = (second :: more).getLastD [] :=
          carried.trans (emit_carry _ _)
        constructor
        · exact @carries_capCarry request _ [] ((second :: more).getLastD [])
            (last.trans (by rw [capped_nil, List.nil_append])) (unclipped.trans (by simp))
            (restored.trans (by simp))
        · rw [capCarry_window, List.map_cons, List.foldl_cons]
          refine shown.trans ?_
          congr 1
          refine line.trans ?_
          rw [carries.carry]
          rfl

theorem not_mem_openAfter (clean : '\n' ∉ opened) (text : List Char) :
    '\n' ∉ openAfter opened text := by
  unfold openAfter
  split
  · rename_i first second more parts
    apply Separated.not_mem_of_mem_splitOn
    rw [parts, List.getLastD_cons]
    exact List.mem_cons_of_mem _ List.getLastD_mem_cons
  · rename_i single
    have joined := @List.intercalate_splitOn Char text _ _ '\n'
    have own : ∀ part ∈ text.splitOn '\n', '\n' ∉ part :=
      fun part => Separated.not_mem_of_mem_splitOn
    cases parts : text.splitOn '\n' with
    | nil => exact absurd parts (List.splitOn_ne_nil _ _)
    | cons first later =>
      cases later with
      | nil =>
        rw [parts] at joined own
        have same : first = text := by simpa using joined
        have apart := own first List.mem_cons_self
        rw [same] at apart
        simp [clean, apart]
      | cons second more => exact absurd parts (single first second more)

theorem finish_window (carries : Carries request reader opened) :
    (reader.finish request).window =
      ((cutsFrom opened []).map (cutLine request)).foldl (addLine request) reader.window := by
  have line := @emit_window request reader _ reader.carry [] carries.clipped carries.dropped
  unfold LineReader.finish cutsFrom
  by_cases nothing : opened = []
  · rw [if_pos nothing, if_neg]
    · rfl
    · simp [carries.carry, carries.clipped, nothing]
  · rw [if_neg nothing, if_pos]
    · rw [line, carries.carry]
      simp [cutLine, lineEnd]
    · by_cases short : excess request opened = 0
      · left
        rwa [carries.carry, capped_of_excess short]
      · right
        rw [carries.clipped]
        simpa using Nat.pos_of_ne_zero short

/-- A whole run shows the lines as the chunks cut them. -/
theorem feed_finish_window (carries : Carries request reader opened) (clean : '\n' ∉ opened)
    (texts : List (List Char)) :
    ((texts.foldl (LineReader.feed request) reader).finish request).window =
      ((cutsFrom opened texts).map (cutLine request)).foldl (addLine request) reader.window := by
  induction texts generalizing reader opened with
  | nil => exact finish_window carries
  | cons text texts ih =>
    obtain ⟨carried, shown⟩ := feed_carries carries clean text
    rw [List.foldl_cons, ih carried (not_mem_openAfter clean text), shown, cutsFrom, List.map_append,
      List.foldl_append]

theorem readLineWindow_eq (decoder : IncrementalDecoder) (chunks : List Bytes) :
    readLineWindow request decoder chunks =
      windowOf request ((cutsFrom [] (decoder.texts chunks)).map (cutLine request)) := by
  have start : Carries request ({} : LineReader) [] := by
    constructor <;> simp
  rw [windowOf_eq_foldl]
  exact feed_finish_window start List.not_mem_nil (decoder.texts chunks)

/-! ## The lines of the text -/

theorem linesOf_append (front back : List Char) :
    linesOf (front ++ back) =
      (front.splitOn '\n').dropLast.map (⟨·, true⟩) ++
        linesOf ((front.splitOn '\n').getLastD [] ++ back) := by
  have some_part := List.splitOn_ne_nil '\n' ((front.splitOn '\n').getLastD [] ++ back)
  unfold linesOf
  rw [Separated.splitOn_append]
  dsimp only
  rw [List.dropLast_append_of_ne_nil some_part, List.map_append, List.append_assoc,
    Separated.getLastD_append_of_ne_nil [] some_part]

/-- However the chunks cut them, the lines are those of the whole text. -/
theorem line_cutsFrom (clean : '\n' ∉ opened) (texts : List (List Char)) :
    (cutsFrom opened texts).map Cut.line = linesOf (opened ++ texts.flatten) := by
  induction texts generalizing opened with
  | nil =>
    unfold cutsFrom linesOf unended
    rw [List.flatten_nil, List.append_nil, List.splitOn_eq_singleton clean]
    by_cases nothing : opened = []
    · simp [nothing]
    · simp [nothing, Cut.line]
  | cons text texts ih =>
    rw [cutsFrom, List.map_append, ih (not_mem_openAfter clean text), List.flatten_cons,
      ← List.append_assoc, linesOf_append (opened ++ text), Separated.splitOn_append_of_not_mem clean]
    unfold cutsIn openAfter
    have joined := @List.intercalate_splitOn Char text _ _ '\n'
    cases parts : text.splitOn '\n' with
    | nil => exact absurd parts (List.splitOn_ne_nil _ _)
    | cons first later =>
      cases later with
      | nil =>
        rw [parts] at joined
        have same : first = text := by simpa using joined
        simp [same]
      | cons second more => simp [Cut.line, Function.comp_def]

/-! ## The cap -/

/-- A line is shown as in the plain definition exactly when the cap is kept. -/
theorem cutLine_iff (cut : Cut) :
    cutLine request cut = plainLine request cut.line ↔ Capped request cut := by
  constructor
  · intro same
    have texts := congrArg Shown.text same
    have flags := congrArg Shown.clipped same
    by_contra beyond
    rw [Capped, not_or] at beyond
    have long : 0 < excess request (cut.earlier ++ cut.now) := Nat.pos_of_ne_zero beyond.1
    have before : 0 < excess request cut.earlier := by
      simpa [cutLine, plainLine, Cut.line, long] using flags
    obtain ⟨head, grown⟩ := capped_append before cut.now
    simp only [cutLine, plainLine, Cut.line, marker, before.ne', long.ne', if_false] at texts
    have counted := request.clipMarker.states (List.append_cancel_right texts)
    have none_now : cut.now.length = 0 := by omega
    exact beyond.2 (List.length_eq_zero_iff.mp none_now)
  · intro kept
    unfold cutLine plainLine Cut.line
    cases kept with
    | inl short =>
      have before := excess_append_eq_zero short
      have whole : excess request (cut.earlier ++ cut.now) = 0 := short
      simp only [capped_of_excess before, capped_of_excess whole, before, whole]
    | inr alone => simp only [alone, List.append_nil]

theorem wantedLines_map {line line' : Type} (f : line → line') (first : Nat) (lines : List line) :
    wantedLines request first (lines.map f) =
      (wantedLines request first lines).map (Prod.map f id) := by
  unfold wantedLines
  rw [List.zipIdx_map, List.filter_map]
  rfl

theorem eq_of_mem_wantedLines {line : Type} {first number : Nat} {lines : List line}
    {here there : line} (member : (here, number) ∈ wantedLines request first lines)
    (member' : (there, number) ∈ wantedLines request first lines) : here = there := by
  have found := List.mem_zipIdx_iff_le_and_getElem?_sub.mp (List.mem_of_mem_filter member)
  have found' := List.mem_zipIdx_iff_le_and_getElem?_sub.mp (List.mem_of_mem_filter member')
  exact Option.some.inj (found.2.symm.trans found'.2)

/-- Two ways to show the same lines give the same window exactly when they show every wanted line
alike. -/
theorem windowOf_map_eq_iff {line : Type} (lines : List line) (f g : line → Shown) :
    windowOf request (lines.map f) = windowOf request (lines.map g) ↔
      ∀ numbered ∈ wantedLines request 1 lines, f numbered.1 = g numbered.1 := by
  constructor
  · intro same numbered member
    have pages := congrArg LineWindow.pageLines same
    have flags := congrArg LineWindow.clippedLines same
    simp only [windowOf, wantedLines_map, List.map_map] at pages
    have texts := List.map_inj_left.mp pages numbered member
    have marked : ∀ h : line → Shown,
        numbered.2 ∈ (windowOf request (lines.map h)).clippedLines ↔
          (h numbered.1).clipped = true := by
      intro h
      simp only [windowOf, wantedLines_map, List.mem_toFinset, List.mem_map, List.mem_filter]
      constructor
      · rintro ⟨shown, ⟨⟨other, listed, rfl⟩, clipped⟩, number⟩
        obtain ⟨there, number'⟩ := other
        obtain rfl : number' = numbered.2 := number
        rwa [eq_of_mem_wantedLines member listed]
      · intro clipped
        exact ⟨_, ⟨⟨numbered, member, rfl⟩, clipped⟩, rfl⟩
    have clips : (f numbered.1).clipped = (g numbered.1).clipped := by
      rw [Bool.eq_iff_iff, ← marked f, ← marked g, same]
    cases shown : f numbered.1 with
    | mk text clipped =>
      cases shown' : g numbered.1 with
      | mk text' clipped' =>
        simp only [Function.comp_apply, Prod.map_fst, shown, shown'] at texts clips
        rw [texts, clips]
  · intro alike
    have same : wantedLines request 1 (lines.map f) = wantedLines request 1 (lines.map g) := by
      rw [wantedLines_map, wantedLines_map]
      apply List.map_congr_left
      intro numbered member
      rw [Prod.map, Prod.map, alike numbered member]
    unfold windowOf
    rw [same, List.length_map, List.length_map]

/-- An incremental decoder that gives the text that the whole bytes decode to. -/
structure WholeDecoder extends IncrementalDecoder where
  whole : Bytes → List Char
  agrees : ∀ chunks, (toIncrementalDecoder.texts chunks).flatten = whole chunks.flatten

/-- The window is that of the plain definition exactly when the chunks keep the cap on every wanted
line. -/
theorem line_window_iff (request : ReadRequest) (decoder : WholeDecoder) (chunks : List Bytes) :
    readLineWindow request decoder.toIncrementalDecoder chunks =
        plainWindow request (decoder.whole chunks.flatten) ↔
      ∀ numbered ∈ wantedLines request 1 (cutsFrom [] (decoder.texts chunks)),
        Capped request numbered.1 := by
  have lines := @line_cutsFrom [] List.not_mem_nil (decoder.texts chunks)
  rw [List.nil_append, decoder.agrees] at lines
  rw [readLineWindow_eq, plainWindow, ← lines, List.map_map, windowOf_map_eq_iff]
  simp only [Function.comp_apply, cutLine_iff]

/-! ## A long line in one chunk -/

/-- A decoder whose bytes are its characters. -/
def byteDecoder : IncrementalDecoder :=
  { State := Unit, start := (), decode := fun _ data _ => ((), data.map fun b => Char.ofNat b.toNat) }

def byteText (data : Bytes) : List Char :=
  data.map fun b => Char.ofNat b.toNat

theorem byteDecoder_textsFrom (chunks : List Bytes) :
    (byteDecoder.textsFrom () chunks).flatten = byteText chunks.flatten := by
  induction chunks with
  | nil => rfl
  | cons chunk chunks ih =>
    have step : byteDecoder.textsFrom () (chunk :: chunks) =
        byteText chunk :: byteDecoder.textsFrom () chunks := rfl
    rw [step, List.flatten_cons, ih]
    simp [byteText]

def bytesDecoded : WholeDecoder :=
  { byteDecoder with whole := byteText, agrees := byteDecoder_textsFrom }

def longLine : Bytes := [97, 97, 97, 97, 97, 97, 10]

def fourChars : ReadRequest :=
  { offset := 1, limit := 10, maxLineChars := some 4, clipMarker := lineClipMarker }

/-- Six characters pass the cap of four. -/
theorem long_line_uncapped :
    readLineWindow fourChars bytesDecoded.toIncrementalDecoder [longLine] ≠
      plainWindow fourChars (bytesDecoded.whole longLine) := by
  intro same
  have clipped := congrArg LineWindow.clippedLines same
  exact absurd clipped (by decide)

end SherryAgent.Guarantees.LineWindows
