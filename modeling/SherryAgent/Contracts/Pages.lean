import SherryAgent.Contracts.FileTools
import SherryAgent.Source.Agent.ContextEviction

/-!
# Whole pages

* `paginateText_whole` — a page from the first line that is not truncated is the whole file.
* `shown_of_fits` — a whole page that ends within the slice shows every line.
-/

namespace SherryAgent.Contracts.FileTools

open SherryAgent.Source SherryAgent.Source.PubBase SherryAgent.Source.FileTools
open SherryAgent.Source.Agent

/-! ## Lines -/

theorem splitLinesFrom_flatten (line text : List Char) :
    (splitLinesFrom line text).flatten = line ++ text := by
  induction line, text using splitLinesFrom.induct with
  | case1 line empty =>
    rw [splitLinesFrom, if_pos empty, List.isEmpty_iff.mp empty]
    rfl
  | case2 line filled =>
    rw [splitLinesFrom, if_neg filled]
    simp
  | case3 line rest ih => simp [splitLinesFrom, ih]
  | case4 line c rest single breaks ih =>
    rw [splitLinesFrom, if_pos breaks, List.flatten_cons, ih]
    · simp
    · exact single
  | case5 line c rest single goes_on ih =>
    rw [splitLinesFrom, if_neg goes_on, ih]
    · simp
    · exact single

theorem splitLines_flatten (text : List Char) : (splitLines text).flatten = text :=
  splitLinesFrom_flatten [] text

/-- A line of a numbered text is in it under its number. -/
theorem numberLines_inside {number i : Nat} {lines : List (List Char)} {line : List Char}
    (at_i : lines[i]? = some line) :
    (toString (number + i)).toList ++ '|' :: line <:+: numberLines number lines := by
  induction lines generalizing number i with
  | nil => simp at at_i
  | cons first rest ih =>
    cases i with
    | zero =>
      rw [List.getElem?_cons_zero, Option.some.injEq] at at_i
      subst at_i
      rw [Nat.add_zero]
      cases rest with
      | nil => exact List.infix_refl _
      | cons second rest =>
        rw [numberLines]
        · exact (List.prefix_append _ _).isInfix
        · exact nofun
    | succ i =>
      rw [List.getElem?_cons_succ] at at_i
      cases rest with
      | nil => simp at at_i
      | cons second rest =>
        rw [numberLines]
        · have later := @ih (number + 1) i at_i
          rw [Nat.add_assoc, Nat.add_comm 1 i] at later
          exact later.trans ((List.suffix_cons _ _).trans (List.suffix_append _ _)).isInfix
        · exact nofun

/-! ## Windows -/

/-- A window without a clipped line takes whole lines, from the first on. -/
theorem windowFrom_unclipped {limits : ReadLimits} {limit : Nat} {start : Window}
    {lines : List (List Char)} (unclipped : (windowFrom limits limit start lines).clipped = false) :
    ∃ taken, taken <+: lines ∧ (windowFrom limits limit start lines).pageLines =
      start.pageLines ++ taken := by
  induction lines generalizing start with
  | nil => exact ⟨[], List.nil_prefix, by simp [windowFrom]⟩
  | cons line rest ih =>
    rw [windowFrom] at unclipped ⊢
    split
    · exact ⟨[], List.nil_prefix, by simp⟩
    · rename_i room
      rw [if_neg room] at unclipped
      dsimp only at unclipped ⊢
      cases capped : (pageBudgetLimits limits).2.filter (· < lineTokenCost limits line) with
      | some cap =>
        rw [capped] at unclipped
        cases unclipped
      | none =>
        rw [capped] at unclipped
        dsimp only at unclipped ⊢
        split
        · exact ⟨[line], ⟨rest, rfl⟩, rfl⟩
        · rename_i budget
          rw [if_neg budget] at unclipped
          obtain ⟨taken, whole, pages⟩ := ih unclipped
          exact ⟨line :: taken, (List.prefix_cons_inj line).mpr whole, by simp [pages]⟩

/-- The file's text with its lines numbered. -/
def wholePage (raw : List Char) : List Char :=
  let text := pageText [raw]
  if text.isEmpty then [] else addLineNumbers text 1

theorem pageText_congr {first second : List (List Char)} (same : first.flatten = second.flatten) :
    pageText first = pageText second := by
  rw [pageText, pageText, same]

/-- The page takes every line of the text from the first on, and clips none. -/
def Covers (limits : ReadLimits) (raw : List Char) (limit : Nat) : Prop :=
  (window limits (splitLines raw) 1 limit).clipped = false ∧
    (splitLines raw).length ≤ (window limits (splitLines raw) 1 limit).pageLines.length

theorem paginateText_whole {limits : ReadLimits} {raw : List Char} {fileSize offset limit : Nat}
    (whole : (paginateText limits raw fileSize offset limit).2 = true) :
    offset = 1 ∧ Covers limits raw limit ∧
      ∃ capped, (paginateText limits raw fileSize offset limit).1 =
        .page (wholePage raw) (splitLines raw).length fileSize false capped none := by
  unfold paginateText at whole ⊢
  dsimp only at whole ⊢
  rw [Bool.and_eq_true, beq_iff_eq, Bool.not_eq_true', Bool.or_eq_false_iff] at whole
  obtain ⟨rfl, ended, unclipped⟩ := whole
  have bound : (splitLines raw).length ≤ (window limits (splitLines raw) 1 limit).pageLines.length := by
    simpa using ended
  refine ⟨rfl, ⟨unclipped, bound⟩, ?_⟩
  obtain ⟨taken, ⟨left, split⟩, pages⟩ := windowFrom_unclipped unclipped
  have all_taken : left = [] := by
    have length := congrArg List.length split
    have pages_length := congrArg List.length pages
    simp only [List.length_append, List.drop_zero, Nat.sub_self, List.length_nil] at length pages_length
    have counted : (window limits (splitLines raw) 1 limit).pageLines.length = taken.length := by
      rw [window]
      simpa using pages_length
    apply List.eq_nil_of_length_eq_zero
    omega
  have text : pageText (window limits (splitLines raw) 1 limit).pageLines = pageText [raw] := by
    apply pageText_congr
    rw [window, pages]
    have taken_all : taken = splitLines raw := by simpa [all_taken] using split
    simp [taken_all, splitLines_flatten]
  rw [text, ended, unclipped]
  exact ⟨_, rfl⟩

/-! ## Reads -/

/-- The decoded text of a text file. -/
def fileText (codecs : Codecs) (data : Bytes) : Option (List Char) :=
  (sniffTextEncoding codecs data).bind fun encoding =>
    (decodeText codecs data encoding).map String.toList

variable {codecs : Codecs} {limits : ReadLimits} {licenses : Licenses} {disk : Disk}
  {sessionId path : String} {offset limit : Int}

/-- A read of the file is not refused for its size. -/
def paginates (limits : ReadLimits) (file : File) (offset limit : Int) : Bool :=
  !(decide (0 < limits.maxWholeRead) && (offset == 1 && limit == limits.readDefaultLimit) &&
      decide (limits.maxWholeRead ≤ (file.data.length : Int))) &&
    !(decide (0 < limits.fastPathThreshold) &&
      decide (limits.fastPathThreshold ≤ (file.data.length : Int)))

/-- The read of the text starts at its first line. -/
def FromStart (offset : Int) (raw : List Char) : Prop :=
  clampFrom1 offset ((splitLines raw).length + 1) = 1

/-- What a page of the file may be: the whole one, if the read is complete. -/
structure Paged (codecs : Codecs) (limits : ReadLimits) (licenses : Licenses) (file : File)
    (sessionId path : String) (offset limit : Int) (result : ReadResult) : Prop where
  whole : completeRead offset result = true → ∃ raw total size capped,
    fileText codecs file.data = some raw ∧ FromStart offset raw ∧
      Covers limits raw (clampFrom1 limit limits.readMaxLimit) ∧
      result = .page (wholePage raw) total size false capped none
  unchanged : ∀ total size, result = .unchanged total size →
    (∃ raw, fileText codecs file.data = some raw ∧ FromStart offset raw) ∧
      ∃ license, ((sessionId, path), license) ∈ licenses ∧ license.source = .read ∧
        license.revision = revisionId (some file)

theorem paginate_paged {file : File} :
    Paged codecs limits licenses file sessionId path offset limit
      (paginate codecs limits licenses path file offset limit sessionId).1 := by
  unfold paginate
  cases sniffed : sniffTextEncoding codecs file.data with
  | none => exact ⟨nofun, nofun⟩
  | some encoding =>
    dsimp only
    cases decoded : decodeText codecs file.data encoding with
    | none => exact ⟨nofun, nofun⟩
    | some text =>
      dsimp only
      have content : fileText codecs file.data = some text.toList := by
        rw [fileText, sniffed, Option.bind_some, decoded, Option.map_some]
      generalize asking : (if clampFrom1 offset ((splitLines text.toList).length + 1) != 1 ||
          sessionId == "" then (none, licenses) else licenses.licensed sessionId path) = asked
      split
      · rename_i held
        refine ⟨nofun, fun total size _ => ?_⟩
        unfold unchangedSinceLastRead at held
        split at held
        · cases held
        · rename_i asks
          rw [if_neg asks] at asking
          obtain ⟨license, found, valid⟩ := (Option.any_eq_true _ _).mp held
          simp only [Bool.and_eq_true, beq_iff_eq] at valid
          simp only [Bool.or_eq_true, not_or, bne_iff_ne, ne_eq, not_not] at asks
          refine ⟨⟨text.toList, content, asks.1⟩, license, licensed_mem ?_, valid⟩
          rw [asking]
          exact found
      · refine ⟨fun complete => ?_, nofun⟩
        dsimp only at complete ⊢
        rw [paginateText_complete] at complete
        obtain ⟨start, covers, capped, page⟩ := paginateText_whole complete
        exact ⟨text.toList, _, _, capped, content, start, covers, page⟩

theorem readFile_paged {result : ReadResult}
    (answer : (readFile codecs limits disk licenses path offset limit sessionId).1 = result)
    {file : File} (found : disk.files path = some file) :
    Paged codecs limits licenses file sessionId path offset limit result ∧
      (completeRead offset result = true → paginates limits file offset limit = true) := by
  subst answer
  unfold readFile
  rw [found]
  dsimp only
  split
  · exact ⟨⟨nofun, nofun⟩, nofun⟩
  split
  · exact ⟨⟨nofun, nofun⟩, nofun⟩
  · rename_i whole_size page_size
    refine ⟨paginate_paged, fun _ => ?_⟩
    rw [paginates, Bool.and_eq_true, Bool.not_eq_true', Bool.not_eq_true']
    exact ⟨by simpa using whole_size, by simpa using page_size⟩

/-! ## What is shown -/

variable {loads : List Char → Option Json}

/-- The numbered lines of a file's text; a text that is empty has none to show. -/
def numberedLines (raw : List Char) : List (List Char) :=
  if (pageText [raw]).isEmpty then []
  else (splitNewlinesFrom [] (pageText [raw])).mapIdx fun i line =>
    (toString (1 + i)).toList ++ '|' :: line

/-- The page ends within the slice. -/
def Fits (raw : List Char) : Prop :=
  contentOpening.length + (jsonChars (wholePage raw)).length ≤ readFileSliceChars

/-- The text of the message contains every line of the file. -/
def ShowsEveryLine (shown raw : List Char) : Prop :=
  ∀ line ∈ numberedLines raw, jsonChars line <:+: shown

theorem numberedLines_inside {raw line : List Char} (member : line ∈ numberedLines raw) :
    line <:+: wholePage raw := by
  unfold numberedLines at member
  unfold wholePage
  dsimp only
  split
  · rename_i empty
    rw [if_pos empty] at member
    cases member
  · rename_i filled
    rw [if_neg filled] at member
    obtain ⟨i, bound, rfl⟩ := List.mem_mapIdx.mp member
    exact numberLines_inside (List.getElem?_eq_getElem bound)

theorem jsonChars_inside {first rest : List Char} (inside : first <:+: rest) :
    jsonChars first <:+: jsonChars rest := by
  obtain ⟨before, after, rfl⟩ := inside
  exact ⟨jsonChars before, jsonChars after, by simp [jsonChars]⟩

/-- A slice keeps what ends within it. -/
theorem sliceReadFileResult_front {front : List Char} (back : List Char)
    (short : front.length ≤ readFileSliceChars) :
    front <+: sliceReadFileResult loads (front ++ back) := by
  unfold sliceReadFileResult
  split
  · exact List.prefix_append _ _
  · rw [List.take_append, List.take_of_length_le short, List.append_assoc]
    exact List.prefix_append _ _

/-- A whole page that ends within the slice keeps its content. -/
theorem shown_of_fits {raw : List Char} {total size : Nat} {capped : Bool} (fits : Fits raw) :
    ∃ shown, shownText loads (.page (wholePage raw) total size false capped none) = some shown ∧
      ShowsEveryLine shown raw := by
  refine ⟨sliceReadFileResult loads (contentOpening ++ jsonChars (wholePage raw) ++
    contentClosing total size false capped []), rfl, fun line member => ?_⟩
  have inside : jsonChars line <:+: contentOpening ++ jsonChars (wholePage raw) :=
    (jsonChars_inside (numberedLines_inside member)).trans (List.suffix_append _ _).isInfix
  have short : (contentOpening ++ jsonChars (wholePage raw)).length ≤ readFileSliceChars := by
    rw [List.length_append]
    exact fits
  have kept := @sliceReadFileResult_front loads _ (contentClosing total size false capped []) short
  exact inside.trans kept.isInfix

end SherryAgent.Contracts.FileTools
