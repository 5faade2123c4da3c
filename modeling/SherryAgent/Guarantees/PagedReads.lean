import SherryAgent.Contracts.NumberedPages

/-!
# Reading a file page by page

- `text_read_iff`: the numbered lines of all pages of a text are its lines just when on every page
  each line but the last ends with a newline, the page is more than one blank line, and no line is
  clipped behind its newline
- `pages_read_iff`: so it is with the calls of `read_file`, unless the first one is refused as a
  read of the whole file
- `form_feed_misread`: a line that ends with a form feed takes the next one under its number
-/

namespace SherryAgent.Guarantees.PagedReads

open SherryAgent.Source.PubBase SherryAgent.Source.FileTools SherryAgent.Contracts.FileTools

/-! ## Reads that follow the hints -/

/-- `read_file` of a text with nothing licensed. -/
def readPage (limits : ReadLimits) (raw : List Char) (fileSize : Nat) (limit offset : Int) :
    ReadResult :=
  (paginateText limits raw fileSize (clampFrom1 offset ((splitLines raw).length + 1))
    (clampFrom1 limit limits.readMaxLimit)).1

/-- The offset that a hint names. -/
def hintedOffset (hint : String) : Nat :=
  Nat.ofDigitChars 10 ((hint.toList.drop "Use offset=".length).takeWhile Char.isDigit) 0

/-- The next offset to read, if the response is truncated. -/
def nextOffset : ReadResult → Option Nat
  | .page _ _ _ true _ (some hint) => some (hintedOffset hint)
  | _ => none

/-- The responses from an offset on, each at the offset that the hint before it names, with at most
this many reads. -/
def readPages (limits : ReadLimits) (raw : List Char) (fileSize : Nat) (limit : Int) :
    Nat → Nat → Option (List ReadResult)
  | 0, _ => none
  | reads + 1, offset =>
    let response := readPage limits raw fileSize limit offset
    match nextOffset response with
    | none => some [response]
    | some next => (readPages limits raw fileSize limit reads next).map (response :: ·)

/-- The numbered lines of a response. -/
def listed : ReadResult → List (List Char)
  | .page content .. => if content.isEmpty then [] else splitNewlinesFrom [] content
  | _ => []

/-! ## What is to be read -/

/-- The line alone exceeds the per-line cap. -/
def OverCap (limits : ReadLimits) (line : List Char) : Prop :=
  (pageBudgetLimits limits).2.any (· < lineTokenCost limits line) = true

instance (limits : ReadLimits) (line : List Char) : Decidable (OverCap limits line) :=
  inferInstanceAs (Decidable (_ = true))

/-- A line without the newline at its end. -/
def lineText (line : List Char) : List Char :=
  if line.getLast? = some '\n' then line.dropLast else line

/-- How a line may be shown: as it is, or without a tail whose length it tells. -/
inductive Shown (limits : ReadLimits) (line : List Char) : List Char → Prop
  | whole (short : ¬OverCap limits line) : Shown limits line (lineText line)
  | cut (long : OverCap limits line) (keep : Nat) (within : keep ≤ line.length) :
      Shown limits line (line.take keep ++ (lineClipMarker (line.length - keep)).toList)

/-- The page of a read at an offset begins with this line or its head. -/
def StartsWith (limits : ReadLimits) (raw : List Char) (limit offset : Nat) (line : List Char) :
    Prop :=
  ∃ first later, (window limits (splitLines raw) offset limit).pageLines = first :: later ∧
    (first = line ∧ ¬OverCap limits line ∨ Shown limits line first ∧ OverCap limits line)

/-- Following the hints from the first line on ends, and lists every line once, in order, under the
number at which a read starts with it. -/
structure TextRead (limits : ReadLimits) (raw : List Char) (fileSize : Nat) (limit : Int) :
    Prop where
  listing : ∃ reads responses shown, readPages limits raw fileSize limit reads 1 = some responses ∧
    List.Forall₂ (Shown limits) (splitLines raw) shown ∧
    responses.flatMap listed = underNumbers 1 shown
  offsets : ∀ i line, (splitLines raw)[i]? = some line →
    StartsWith limits raw (clampFrom1 limit limits.readMaxLimit) (i + 1) line

/-! ## Pages -/

/-- These lines leave room on their page. -/
structure Room (limits : ReadLimits) (limit : Nat) (taken : List (List Char)) : Prop where
  few : taken.length < limit
  short : ∀ line ∈ taken, ¬OverCap limits line
  cheap : ∀ target, (pageBudgetLimits limits).1 = some target →
    (taken.map (lineTokenCost limits)).sum < target

/-- A page takes lines as long as there is room and a line left. -/
structure IsPage (limits : ReadLimits) (limit : Nat) (page rest : List (List Char)) : Prop where
  some_line : page ≠ []
  room : ∀ front back, page = front ++ back → front ≠ [] → back ≠ [] → Room limits limit front
  full : rest = [] ∨ ¬Room limits limit page

/-- The pages of the lines. -/
inductive Paging (limits : ReadLimits) (limit : Nat) :
    List (List Char) → List (List (List Char)) → Prop
  | nil : Paging limits limit [] []
  | page {page rest : List (List Char)} {pages : List (List (List Char))}
      (first : IsPage limits limit page rest) (later : Paging limits limit rest pages) :
      Paging limits limit (page ++ rest) (page :: pages)

/-- The page is split at newlines as the file is split into lines. -/
structure Readable (limits : ReadLimits) (page : List (List Char)) : Prop where
  newlines : ∀ line ∈ page.dropLast, line.getLast? = some '\n'
  not_blank : page = [['\n']] → OverCap limits ['\n']
  cut : ∀ line cap, page.getLast? = some line → line.getLast? = some '\n' →
    (pageBudgetLimits limits).2 = some cap → cap < lineTokenCost limits line →
    charsForTokens limits line cap < line.length

variable {limits : ReadLimits} {raw line last : List Char} {fileSize limit number : Nat}
  {page rest front mid : List (List Char)} {pages : List (List (List Char))}

/-! ## The window of a page -/

theorem overCap_iff : OverCap limits line ↔
    ∃ cap, (pageBudgetLimits limits).2 = some cap ∧ cap < lineTokenCost limits line := by
  unfold OverCap
  cases (pageBudgetLimits limits).2 with
  | none => simp
  | some cap => simp

theorem filter_of_short (short : ¬OverCap limits line) :
    (pageBudgetLimits limits).2.filter (· < lineTokenCost limits line) = none := by
  unfold OverCap at short
  cases caps : (pageBudgetLimits limits).2 with
  | none => rfl
  | some cap =>
    rw [caps] at short
    rw [Option.filter_some, if_neg (by simpa using short)]

theorem filter_of_over (long : OverCap limits line) :
    ∃ cap, (pageBudgetLimits limits).2 = some cap ∧ cap < lineTokenCost limits line ∧
    (pageBudgetLimits limits).2.filter (· < lineTokenCost limits line) = some cap := by
  obtain ⟨cap, caps, above⟩ := overCap_iff.mp long
  refine ⟨cap, caps, above, ?_⟩
  rw [caps, Option.filter_some, if_pos (by simpa using above)]

/-- The last line of a page as the window leaves it. -/
inductive Ends (limits : ReadLimits) (line : List Char) : List Char → Bool → Prop
  | whole (short : ¬OverCap limits line) : Ends limits line line false
  | cut (cap : ℚ) (caps : (pageBudgetLimits limits).2 = some cap)
      (above : cap < lineTokenCost limits line) :
      Ends limits line (line.take (charsForTokens limits line cap) ++
        (lineClipMarker (line.length - charsForTokens limits line cap)).toList) true

theorem forall_short_snoc {line : List Char} (shorts : ∀ line ∈ front, ¬OverCap limits line)
    (short : ¬OverCap limits line) : ∀ other ∈ front ++ [line], ¬OverCap limits other := by
  intro other mem
  cases List.mem_append.mp mem with
  | inl before => exact shorts other before
  | inr final =>
    rw [List.mem_singleton.mp final]
    exact short

/-- The window over the lines of a page, when some are taken. -/
theorem windowFrom_page (few : front.length < limit)
    (room : ∀ first second, mid = first ++ second → first ≠ [] → Room limits limit (front ++ first))
    (full : rest = [] ∨ ¬Room limits limit (front ++ mid ++ [last]))
    (shorts : ∀ line ∈ front, ¬OverCap limits line) :
    ∃ shown clipped spent, Ends limits last shown clipped ∧
      windowFrom limits limit
        { pageLines := front, spent := (front.map (lineTokenCost limits)).sum, clipped := false }
        (mid ++ last :: rest) =
      { pageLines := front ++ mid ++ [shown], spent, clipped } := by
  induction mid generalizing front with
  | nil =>
    rw [List.append_nil] at full ⊢
    rw [List.nil_append, windowFrom, if_neg (by simpa using few)]
    dsimp only
    by_cases long : OverCap limits last
    · obtain ⟨cap, caps, above, filtered⟩ := filter_of_over long
      rw [filtered]
      exact ⟨_, _, _, .cut cap caps above, rfl⟩
    · rw [filter_of_short long]
      refine ⟨last, false, (front.map (lineTokenCost limits)).sum + lineTokenCost limits last,
        .whole long, ?_⟩
      dsimp only
      split
      · rfl
      · rename_i cheap
        cases full with
        | inl last_page =>
          rw [last_page]
          rfl
        | inr crowded =>
          cases rest with
          | nil => rfl
          | cons next rest =>
            rw [windowFrom, if_pos]
            by_contra more
            apply crowded
            refine ⟨by simpa using more, forall_short_snoc shorts long, ?_⟩
            intro target budget
            rw [budget] at cheap
            simpa using cheap
  | cons line mid ih =>
    have taken := room [line] mid rfl (List.cons_ne_nil _ _)
    have short := taken.short line (by simp)
    rw [List.cons_append, windowFrom, if_neg (by simpa using few)]
    dsimp only
    rw [filter_of_short short]
    dsimp only
    have cheap : ¬(pageBudgetLimits limits).1.any (fun target => decide (target ≤
        (front.map (lineTokenCost limits)).sum + lineTokenCost limits line)) = true := by
      cases budget : (pageBudgetLimits limits).1 with
      | none => simp
      | some target =>
        have below := taken.cheap target budget
        simpa using below
    rw [if_neg cheap]
    have spent : (front.map (lineTokenCost limits)).sum + lineTokenCost limits line =
        ((front ++ [line]).map (lineTokenCost limits)).sum := by simp
    rw [spent]
    have next := @ih (front ++ [line]) (by simpa using taken.few) (by
      intro first second shape some_first
      have later := room (line :: first) second (by rw [shape]; rfl) (List.cons_ne_nil _ _)
      simpa using later) (by simpa using full) (forall_short_snoc shorts short)
    obtain ⟨shown, clipped, spent, ends, whole⟩ := next
    refine ⟨shown, clipped, spent, ends, ?_⟩
    rw [whole]
    simp

/-- A page and the lines that the window makes of it. -/
structure PageShown (limits : ReadLimits) (page shown : List (List Char)) (clipped : Bool) :
    Prop where
  split : ∃ mid last final, page = mid ++ [last] ∧ shown = mid ++ [final] ∧
    Ends limits last final clipped

theorem PageShown.length {shown : List (List Char)} {clipped : Bool}
    (parts : PageShown limits page shown clipped) : shown.length = page.length := by
  obtain ⟨mid, last, final, rfl, rfl, -⟩ := parts.split
  simp

theorem window_page {allLines : List (List Char)} {offset : Nat} (some_limit : 0 < limit)
    (first : IsPage limits limit page rest) (place : allLines.drop (offset - 1) = page ++ rest) :
    ∃ shown clipped spent, PageShown limits page shown clipped ∧
      window limits allLines offset limit = { pageLines := shown, spent, clipped } := by
  obtain ⟨mid, last, rfl⟩ := List.eq_nil_or_concat' page |>.resolve_left first.some_line
  have whole := @windowFrom_page limits last limit rest [] mid some_limit (by
    intro front back shape some_front
    have room := first.room front (back ++ [last]) (by rw [shape]; simp) some_front (by simp)
    rwa [List.nil_append]) (by simpa using first.full) (by simp)
  obtain ⟨shown, clipped, spent, ends, whole⟩ := whole
  refine ⟨mid ++ [shown], clipped, spent, ⟨mid, last, shown, rfl, rfl, ends⟩, ?_⟩
  unfold window
  rw [place]
  simpa using whole

/-! ## One response -/

theorem hintedOffset_pageHint (offset endLine totalLines : Nat) (found : Window) :
    hintedOffset (pageHint limits offset endLine totalLines found) = endLine + 1 := by
  have shape : ∃ more, (pageHint limits offset endLine totalLines found).toList =
      "Use offset=".toList ++ ((toString (endLine + 1)).toList ++ ' ' :: more) := by
    unfold pageHint
    simp only [String.toList_append, List.append_assoc]
    exact ⟨_, rfl⟩
  obtain ⟨more, shape⟩ := shape
  unfold hintedOffset
  rw [shape, List.drop_left' (by decide), takeWhile_digits _ (by decide), digits_eq,
    Nat.ofDigitChars_toDigits (by decide) (by decide)]

/-- The numbered lines of a page's text. -/
def entries (offset : Nat) (shown : List (List Char)) : List (List Char) :=
  if pageText shown = [] then []
  else underNumbers offset (splitNewlinesFrom [] (pageText shown))

theorem listed_page {shown : List (List Char)} {offset total : Nat} {truncated capped : Bool}
    {hint : Option String} :
    listed (.page (if (pageText shown).isEmpty then [] else addLineNumbers (pageText shown) offset)
      total fileSize truncated capped hint) = entries offset shown := by
  unfold listed entries
  dsimp only
  by_cases empty : pageText shown = []
  · rw [if_pos (List.isEmpty_iff.mpr empty), if_pos empty]
    rfl
  · have some_line : splitNewlinesFrom [] (pageText shown) ≠ [] := by
      intro none_left
      have count := length_splitNewlinesFrom [] (pageText shown)
      rw [none_left] at count
      cases count
    have filled : (addLineNumbers (pageText shown) offset).isEmpty = false := by
      unfold addLineNumbers
      exact List.isEmpty_eq_false_iff.mpr (numberLines_ne_nil some_line)
    have text_left : ¬(pageText shown).isEmpty = true := fun none_left =>
      empty (List.isEmpty_iff.mp none_left)
    rw [if_neg text_left, filled, if_neg Bool.false_ne_true, if_neg empty]
    unfold addLineNumbers
    exact splitNewlinesFrom_numberLines some_line
      fun line mem => newline_not_mem_splitNewlinesFrom (by simp) mem

theorem clampFrom1_of_le {value bound : Nat} (first : 1 ≤ value) (within : value ≤ bound) :
    clampFrom1 value bound = value := by
  unfold clampFrom1
  omega

/-- The response at the start of a page, and the offset that it names. -/
theorem readPage_page {requested : Int} {offset : Nat} (first : 1 ≤ offset)
    (one : IsPage limits (clampFrom1 requested limits.readMaxLimit) page rest)
    (place : (splitLines raw).drop (offset - 1) = page ++ rest) :
    ∃ shown clipped, PageShown limits page shown clipped ∧
      listed (readPage limits raw fileSize requested offset) = entries offset shown ∧
      nextOffset (readPage limits raw fileSize requested offset) =
        if rest ≠ [] ∨ clipped = true then some (offset + page.length) else none := by
  have some_limit : 0 < clampFrom1 requested limits.readMaxLimit := by
    unfold clampFrom1
    omega
  obtain ⟨shown, clipped, spent, parts, whole⟩ := window_page some_limit one place
  have count := congrArg List.length place
  have filled : 0 < page.length := List.length_pos_of_ne_nil one.some_line
  rw [List.length_drop, List.length_append] at count
  have clamped : clampFrom1 offset ((splitLines raw).length + 1) = offset :=
    @clampFrom1_of_le offset ((splitLines raw).length + 1) first (by omega)
  refine ⟨shown, clipped, parts, ?_, ?_⟩
  · unfold readPage paginateText
    rw [clamped]
    dsimp only
    rw [whole]
    exact listed_page
  · unfold readPage paginateText
    rw [clamped]
    dsimp only
    rw [whole]
    dsimp only
    rw [parts.length]
    have left : offset + page.length - 1 < (splitLines raw).length ↔ rest ≠ [] := by
      rw [← List.length_pos_iff]
      omega
    have more : (decide (offset + page.length - 1 < (splitLines raw).length) || clipped) = true ↔
        rest ≠ [] ∨ clipped = true := by
      rw [Bool.or_eq_true, decide_eq_true_eq, left]
    generalize (if (pageText shown).isEmpty then [] else addLineNumbers (pageText shown) offset) =
      content
    by_cases goes_on : rest ≠ [] ∨ clipped = true
    · rw [more.mpr goes_on, if_pos rfl, if_pos goes_on]
      unfold nextOffset
      dsimp only
      rw [hintedOffset_pageHint]
      congr 1
      omega
    · rw [Bool.eq_false_iff.mpr (mt more.mp goes_on), if_neg Bool.false_ne_true, if_neg goes_on]
      rfl

/-! ## All responses -/

/-- The numbered lines of the pages from an offset on. -/
def entriesOf (offset : Nat) : List (List (List Char)) → List (List Char)
  | [] => []
  | shown :: later => entries offset shown ++ entriesOf (offset + shown.length) later

/-- Past the end there is nothing to read. -/
theorem readPage_past {requested : Int} {offset : Nat} (past : offset = (splitLines raw).length + 1) :
    listed (readPage limits raw fileSize requested offset) = [] ∧
      nextOffset (readPage limits raw fileSize requested offset) = none := by
  have clamped : clampFrom1 offset ((splitLines raw).length + 1) = offset :=
    @clampFrom1_of_le offset ((splitLines raw).length + 1) (by omega) (by omega)
  have nothing : window limits (splitLines raw) offset (clampFrom1 requested limits.readMaxLimit) =
      {} := by
    unfold window
    rw [List.drop_eq_nil_of_le (by omega)]
    rfl
  have ended : (decide (offset + ({} : Window).pageLines.length - 1 < (splitLines raw).length) ||
      ({} : Window).clipped) = false := by
    have last : ¬offset + ({} : Window).pageLines.length - 1 < (splitLines raw).length := by
      dsimp only [List.length_nil]
      omega
    rw [decide_eq_false last]
    rfl
  unfold readPage paginateText
  rw [clamped]
  dsimp only
  rw [nothing]
  refine ⟨rfl, ?_⟩
  rw [ended]
  rfl

/-- No lines are no pages. -/
theorem Paging.pages_eq_nil {limit : Nat} (paging : Paging limits limit [] pages) :
    pages = [] := by
  generalize nothing : ([] : List (List Char)) = lines at paging
  cases paging with
  | nil => rfl
  | page one _ => exact absurd (List.append_eq_nil_iff.mp nothing.symm).1 one.some_line

/-- The reads from the start of a page end, and whenever they do they list the pages. -/
theorem readPages_listed {requested : Int} {offset : Nat} {lines : List (List Char)}
    (first : 1 ≤ offset) (within : offset ≤ (splitLines raw).length + 1)
    (paging : Paging limits (clampFrom1 requested limits.readMaxLimit) lines pages)
    (place : (splitLines raw).drop (offset - 1) = lines) :
    ∃ shown, List.Forall₂ (fun page shown => ∃ clipped, PageShown limits page shown clipped)
        pages shown ∧
      (∀ reads responses, readPages limits raw fileSize requested reads offset = some responses →
        responses.flatMap listed = entriesOf offset shown) ∧
      ∃ reads responses, readPages limits raw fileSize requested reads offset = some responses := by
  induction paging generalizing offset with
  | nil =>
    have past : offset = (splitLines raw).length + 1 := by
      have := List.drop_eq_nil_iff.mp place
      omega
    obtain ⟨none_listed, ended⟩ := @readPage_past limits raw fileSize requested offset past
    have last (reads : Nat) : readPages limits raw fileSize requested (reads + 1) offset =
        some [readPage limits raw fileSize requested offset] := by
      rw [readPages, ended]
    refine ⟨[], .nil, ?_, 1, _, last 0⟩
    intro reads responses found
    cases reads with
    | zero => cases found
    | succ reads =>
      rw [last, Option.some.injEq] at found
      rw [← found, List.flatMap_singleton, none_listed]
      rfl
  | @page page rest pages one later ih =>
    obtain ⟨shown, clipped, parts, entry, next⟩ :=
      @readPage_page limits raw fileSize page rest requested offset first one place
    have step (reads : Nat) : readPages limits raw fileSize requested (reads + 1) offset =
        if rest ≠ [] ∨ clipped = true then
          (readPages limits raw fileSize requested reads (offset + page.length)).map
            (readPage limits raw fileSize requested offset :: ·)
        else some [readPage limits raw fileSize requested offset] := by
      rw [readPages, next]
      by_cases more : rest ≠ [] ∨ clipped = true
      · rw [if_pos more, if_pos more]
      · rw [if_neg more, if_neg more]
    have count := congrArg List.length place
    have filled : 0 < page.length := List.length_pos_of_ne_nil one.some_line
    rw [List.length_drop, List.length_append] at count
    have behind : (splitLines raw).drop (offset + page.length - 1) = rest := by
      have moved : offset + page.length - 1 = offset - 1 + page.length := by omega
      rw [moved, ← List.drop_drop, place, List.drop_left]
    obtain ⟨others, split, listing, reads, responses, found⟩ :=
      @ih (offset + page.length) (by omega) (by omega) behind
    refine ⟨shown :: others, .cons ⟨clipped, parts⟩ split, ?_, ?_⟩
    · intro reads responses found
      rw [entriesOf, parts.length]
      cases reads with
      | zero => cases found
      | succ reads =>
        rw [step] at found
        split at found
        · obtain ⟨tail, tail_found, rfl⟩ := Option.map_eq_some_iff.mp found
          rw [List.flatMap_cons, entry, listing reads tail tail_found]
        · rename_i last
          rw [not_or, not_not] at last
          have no_pages : others = [] := by
            rw [last.1] at later
            rw [later.pages_eq_nil] at split
            exact List.forall₂_nil_left_iff.mp split
          rw [Option.some.injEq] at found
          rw [← found, no_pages, List.flatMap_singleton, entry, entriesOf, List.append_nil]
    · by_cases more : rest ≠ [] ∨ clipped = true
      · refine ⟨reads + 1, readPage limits raw fileSize requested offset :: responses, ?_⟩
        rw [step, if_pos more, found]
        rfl
      · exact ⟨1, _, by rw [step, if_neg more]⟩

/-- The lines that are left fill the page. -/
theorem exists_page (room : ∀ first second, front = first ++ second → first ≠ [] →
    Room limits limit first) (lines : List (List Char)) (some_line : lines ≠ []) :
    ∃ taken rest, lines = taken ++ rest ∧ taken ≠ [] ∧ IsPage limits limit (front ++ taken) rest := by
  induction lines generalizing front with
  | nil => exact absurd rfl some_line
  | cons line rest ih =>
    by_cases full : rest = [] ∨ ¬Room limits limit (front ++ [line])
    · refine ⟨[line], rest, rfl, List.cons_ne_nil _ _, by simp, ?_, full⟩
      intro first second shape some_first some_second
      obtain ⟨back, last, rfl⟩ := List.eq_nil_or_concat' second |>.resolve_left some_second
      rw [← List.append_assoc] at shape
      exact room first back (List.append_inj' shape rfl).1 some_first
    · rw [not_or, not_not] at full
      have more : ∀ first second, front ++ [line] = first ++ second → first ≠ [] →
          Room limits limit first := by
        intro first second shape some_first
        by_cases whole : second = []
        · rw [whole, List.append_nil] at shape
          rw [← shape]
          exact full.2
        · obtain ⟨back, last, rfl⟩ := List.eq_nil_or_concat' second |>.resolve_left whole
          rw [← List.append_assoc] at shape
          exact room first back (List.append_inj' shape rfl).1 some_first
      obtain ⟨taken, later, shape, -, one⟩ := ih more full.1
      refine ⟨line :: taken, later, by rw [shape]; rfl, List.cons_ne_nil _ _, ?_⟩
      rwa [List.append_assoc] at one

theorem room_of_nil : ∀ first second : List (List Char), [] = first ++ second → first ≠ [] →
    Room limits limit first := by
  intro first second shape some_first
  exact absurd (List.append_eq_nil_iff.mp shape.symm).1 some_first

/-- The lines fall into pages. -/
theorem exists_paging (limits : ReadLimits) (limit : Nat) (lines : List (List Char)) :
    ∃ pages, Paging limits limit lines pages := by
  induction count : lines.length using Nat.strong_induction_on generalizing lines with
  | _ n ih =>
    by_cases empty : lines = []
    · rw [empty]
      exact ⟨[], .nil⟩
    · obtain ⟨page, rest, shape, -, one⟩ := @exists_page limits limit [] room_of_nil lines empty
      rw [List.nil_append] at one
      have filled : 0 < page.length := List.length_pos_of_ne_nil one.some_line
      rw [shape, List.length_append] at count
      obtain ⟨pages, later⟩ := ih rest.length (by omega) rest rfl
      rw [shape]
      exact ⟨page :: pages, .page one later⟩

/-! ## The text of a page -/

/-- The line has a newline at most at its end. -/
def Clean (line : List Char) : Prop := line ≠ [] ∧ '\n' ∉ line.dropLast

theorem marker_eq (omitted : Nat) : (lineClipMarker omitted).toList =
    "...[".toList ++ ((toString omitted).toList ++ " chars clipped]...".toList) := by
  unfold lineClipMarker
  simp only [String.toList_append, List.append_assoc]
  rfl

theorem newline_not_mem_marker (omitted : Nat) : '\n' ∉ (lineClipMarker omitted).toList := by
  rw [marker_eq, List.mem_append, List.mem_append, not_or, not_or]
  exact ⟨by decide, newline_not_mem_digits omitted, by decide⟩

/-- Nothing but a marker for nothing is as short. -/
theorem marker_injective {keep omitted : Nat} (within : keep ≤ line.length)
    (same : line.take keep ++ (lineClipMarker omitted).toList = (lineClipMarker 0).toList) :
    keep = 0 ∧ omitted = 0 := by
  rw [marker_eq, marker_eq] at same
  have lengths := congrArg List.length same
  have zero : (toString 0).toList.length = 1 := by decide
  have digits : 0 < (toString omitted).toList.length := by
    rw [digits_eq]
    exact Nat.length_toDigits_pos
  simp only [List.length_append, List.length_take, Nat.min_eq_left within, zero] at lengths
  have none_kept : keep = 0 := by omega
  subst none_kept
  rw [List.take_zero, List.nil_append] at same
  have numbers := List.append_inj_left' (List.append_cancel_left same) rfl
  exact ⟨rfl, digits_injective numbers⟩

theorem lineText_of_newline (body : List Char) : lineText (body ++ ['\n']) = body := by
  unfold lineText
  rw [List.getLast?_concat, if_pos rfl, List.dropLast_concat]

theorem eq_concat_of_newline (ended : line.getLast? = some '\n') :
    line = lineText line ++ ['\n'] := by
  obtain ⟨body, rfl⟩ := List.getLast?_eq_some_iff.mp ended
  rw [lineText_of_newline]

theorem Clean.text (clean : Clean line) : '\n' ∉ lineText line := by
  unfold lineText
  split
  · exact clean.2
  · rename_i other
    obtain ⟨body, c, rfl⟩ := List.eq_nil_or_concat' line |>.resolve_left clean.1
    rw [List.getLast?_concat] at other
    have plain := clean.2
    rw [List.dropLast_concat] at plain
    rw [List.mem_append, not_or, List.mem_singleton]
    exact ⟨plain, fun same => other (by rw [same])⟩

theorem Clean.count (clean : Clean line) :
    line.count '\n' = if line.getLast? = some '\n' then 1 else 0 := by
  have text := List.count_eq_zero.mpr clean.text
  split
  · rename_i ended
    rw [eq_concat_of_newline ended, List.count_append, text]
    rfl
  · rename_i other
    unfold lineText at text
    rwa [if_neg other] at text

theorem count_flatten (clean : ∀ line ∈ mid, Clean line) :
    mid.flatten.count '\n' = mid.countP fun line => line.getLast? = some '\n' := by
  induction mid with
  | nil => rfl
  | cons line mid ih =>
    rw [List.flatten_cons, List.count_append, (clean line List.mem_cons_self).count,
      ih fun other mem => clean other (List.mem_cons_of_mem _ mem), List.countP_cons, Nat.add_comm]
    simp only [decide_eq_true_eq]

/-- What the last line of a page comes to. -/
inductive Tail (limits : ReadLimits) (last : List Char) : List Char → Prop
  | good (text : List Char) (plain : '\n' ∉ text) (shown : Shown limits last text)
      (blank : text = [] → last = ['\n'] ∧ ¬OverCap limits last)
      (cut : ∀ cap, (pageBudgetLimits limits).2 = some cap → cap < lineTokenCost limits last →
        last.getLast? = some '\n' → charsForTokens limits last cap < last.length) :
      Tail limits last text
  | bad (body : List Char) (plain : '\n' ∉ body) (shape : last = body ++ ['\n']) (cap : ℚ)
      (caps : (pageBudgetLimits limits).2 = some cap) (above : cap < lineTokenCost limits last)
      (kept : charsForTokens limits last cap = last.length) :
      Tail limits last (body ++ '\n' :: (lineClipMarker 0).toList)

theorem charsForTokensFrom_le (target accumulated : ℚ) (text : List Char) :
    charsForTokensFrom limits target accumulated text ≤ text.length := by
  induction text generalizing accumulated with
  | nil => exact Nat.le_refl _
  | cons c rest ih =>
    rw [charsForTokensFrom]
    split
    · simp
    · exact Nat.succ_le_succ (ih _)

theorem charsForTokens_le (target : ℚ) (text : List Char) :
    charsForTokens limits text target ≤ text.length := by
  unfold charsForTokens
  split
  · exact Nat.zero_le _
  · exact charsForTokensFrom_le _ _ _

theorem lineText_marker (front : List Char) (omitted : Nat) :
    lineText (front ++ (lineClipMarker omitted).toList) =
      front ++ (lineClipMarker omitted).toList := by
  have ended : (front ++ (lineClipMarker omitted).toList).getLast? = some '.' := by
    rw [marker_eq, ← List.append_assoc, ← List.append_assoc, List.getLast?_append]
    rfl
  unfold lineText
  rw [ended, if_neg (by decide)]

theorem Ends.tail {final : List Char} {clipped : Bool} (ends : Ends limits last final clipped)
    (clean : Clean last) : Tail limits last (lineText final) := by
  cases ends with
  | whole short =>
    apply Tail.good _ clean.text (.whole short)
    · intro empty
      refine ⟨?_, short⟩
      unfold lineText at empty
      split at empty
      · rename_i ended
        rw [eq_concat_of_newline ended]
        unfold lineText
        rw [if_pos ended, empty]
        rfl
      · exact absurd empty clean.1
    · intro cap caps above
      exact absurd (overCap_iff.mpr ⟨cap, caps, above⟩) short
  | cut cap caps above =>
    rw [lineText_marker]
    have long := overCap_iff.mpr ⟨cap, caps, above⟩
    have within := @charsForTokens_le limits cap last
    by_cases bad : last.getLast? = some '\n' ∧ charsForTokens limits last cap = last.length
    · have shape := eq_concat_of_newline bad.1
      rw [bad.2, List.take_length, Nat.sub_self]
      have found := Tail.bad (lineText last) clean.text shape cap caps above bad.2
      rw [List.append_cons, ← shape] at found
      exact found
    · apply Tail.good
      · rw [List.mem_append, not_or]
        refine ⟨?_, newline_not_mem_marker _⟩
        intro inside
        by_cases ended : last.getLast? = some '\n'
        · have short : charsForTokens limits last cap < last.length :=
            Nat.lt_of_le_of_ne within fun same => bad ⟨ended, same⟩
          apply clean.2
          rw [List.dropLast_eq_take]
          exact List.take_subset_take_left last (by omega) inside
        · have text := clean.text
          unfold lineText at text
          rw [if_neg ended] at text
          exact text (List.mem_of_mem_take inside)
      · exact .cut long _ within
      · intro empty
        have filled := (List.append_eq_nil_iff.mp empty).2
        rw [marker_eq] at filled
        cases filled
      · intro other others _ ended
        have same : other = cap := Option.some.inj (others.symm.trans caps)
        rw [same]
        exact Nat.lt_of_le_of_ne within fun same => bad ⟨ended, same⟩

/-- The lines of a page's text. -/
def textLines (text : List Char) : List (List Char) :=
  if text = [] then [] else splitNewlinesFrom [] text

theorem entries_eq (offset : Nat) (shown : List (List Char)) :
    entries offset shown = underNumbers offset (textLines (pageText shown)) := by
  unfold entries textLines
  split <;> rfl

/-- The text of a page: whole lines, and what the last one comes to. -/
theorem PageShown.text {shown : List (List Char)} {clipped : Bool}
    (parts : PageShown limits page shown clipped) (clean : ∀ line ∈ page, Clean line) :
    ∃ mid last text, page = mid ++ [last] ∧ pageText shown = mid.flatten ++ text ∧
      Tail limits last text := by
  obtain ⟨mid, last, final, rfl, rfl, ends⟩ := parts.split
  have clean_last := clean last (by simp)
  have filled : final ≠ [] := by
    cases ends with
    | whole short => exact clean_last.1
    | cut cap caps above =>
      intro empty
      have marker := (List.append_eq_nil_iff.mp empty).2
      rw [marker_eq] at marker
      cases marker
  refine ⟨mid, last, lineText final, rfl, ?_, ends.tail clean_last⟩
  obtain ⟨body, c, rfl⟩ := List.eq_nil_or_concat' final |>.resolve_left filled
  unfold pageText lineText
  rw [List.flatten_append, List.flatten_singleton, ← List.append_assoc]
  dsimp only
  rw [List.getLast?_concat, List.getLast?_concat]
  by_cases newline : c = '\n'
  · rw [newline, if_pos (by decide), if_pos rfl, List.dropLast_concat, List.dropLast_concat]
  · rw [if_neg (by simpa using newline), if_neg (by simpa using newline), List.append_assoc]

theorem flatten_ne_nil (clean : ∀ line ∈ mid, Clean line) (some_line : mid ≠ []) :
    mid.flatten ≠ [] := by
  intro empty
  cases mid with
  | nil => exact some_line rfl
  | cons line mid =>
    exact (clean line List.mem_cons_self).1 (List.append_eq_nil_iff.mp empty).1

/-- How many lines the text of a page has. -/
theorem length_textLines {text : List Char} (clean : ∀ line ∈ mid, Clean line)
    (plain : '\n' ∉ text) (filled : mid.flatten ++ text ≠ []) :
    (textLines (mid.flatten ++ text)).length =
      (mid.countP fun line => line.getLast? = some '\n') + 1 := by
  unfold textLines
  rw [if_neg filled, length_splitNewlinesFrom, List.count_append, count_flatten clean,
    List.count_eq_zero.mpr plain, Nat.add_zero]

/-- A line that is clipped behind its newline makes one more line. -/
theorem textLines_bad {body : List Char} (clean : ∀ line ∈ mid, Clean line) (plain : '\n' ∉ body) :
    ∃ lines, lines.length = (mid.countP fun line => line.getLast? = some '\n') + 1 ∧
      textLines (mid.flatten ++ (body ++ '\n' :: (lineClipMarker 0).toList)) =
        lines ++ [(lineClipMarker 0).toList] := by
  refine ⟨splitNewlinesFrom [] (mid.flatten ++ body), ?_, ?_⟩
  · rw [length_splitNewlinesFrom, List.count_append, count_flatten clean,
      List.count_eq_zero.mpr plain, Nat.add_zero]
  · unfold textLines
    rw [if_neg (by simp), ← List.append_assoc,
      splitNewlinesFrom_last (newline_not_mem_marker 0)]

/-- The lines of a page whose inner lines end with newlines. -/
theorem textLines_good {text : List Char} (clean : ∀ line ∈ mid, Clean line)
    (newlines : ∀ line ∈ mid, line.getLast? = some '\n') (plain : '\n' ∉ text) :
    splitNewlinesFrom [] (mid.flatten ++ text) = mid.map lineText ++ [text] := by
  induction mid with
  | nil =>
    rw [List.flatten_nil, List.nil_append, splitNewlinesFrom_plain plain]
    rfl
  | cons line mid ih =>
    have ended := eq_concat_of_newline (newlines line List.mem_cons_self)
    have first := (clean line List.mem_cons_self).text
    have later := ih (fun other mem => clean other (List.mem_cons_of_mem _ mem))
      fun other mem => newlines other (List.mem_cons_of_mem _ mem)
    rw [List.flatten_cons, List.map_cons, List.cons_append, ← later]
    generalize lineText line = body at ended first
    rw [ended, List.append_assoc, List.append_assoc]
    exact splitNewlinesFrom_line_end first (mid.flatten ++ text)

/-! ## One page -/

/-- A page that can be read is listed line by line. -/
theorem shown_of_readable {text : List Char} (one : IsPage limits limit (mid ++ [last]) rest)
    (clean : ∀ line ∈ mid ++ [last], Clean line) (tail : Tail limits last text)
    (readable : Readable limits (mid ++ [last])) :
    List.Forall₂ (Shown limits) (mid ++ [last]) (textLines (mid.flatten ++ text)) := by
  have clean_mid : ∀ line ∈ mid, Clean line := fun line mem => clean line (by simp [mem])
  have newlines : ∀ line ∈ mid, line.getLast? = some '\n' := by
    intro line mem
    exact readable.newlines line (by simpa using mem)
  cases tail with
  | good _ plain shown blank cut =>
    have filled : mid.flatten ++ text ≠ [] := by
      intro empty
      obtain ⟨no_front, no_text⟩ := List.append_eq_nil_iff.mp empty
      obtain ⟨newline, short⟩ := blank no_text
      have alone : mid = [] := by
        by_contra some_line
        exact flatten_ne_nil clean_mid some_line no_front
      rw [newline] at short
      exact short (readable.not_blank (by rw [alone, newline]; rfl))
    unfold textLines
    rw [if_neg filled, textLines_good clean_mid newlines plain]
    apply List.rel_append
    · rw [List.forall₂_map_right_iff]
      apply List.forall₂_same.mpr
      intro line mem
      obtain ⟨before, after, shape⟩ := List.append_of_mem mem
      have room := one.room (before ++ [line]) (after ++ [last]) (by rw [shape]; simp) (by simp)
        (by simp)
      exact .whole (room.short line (by simp))
    · exact .cons shown .nil
  | bad body plain shape cap caps above kept =>
    have newline : last.getLast? = some '\n' := by
      rw [shape, List.getLast?_concat]
    have short := readable.cut last cap (List.getLast?_concat) newline caps above
    exact absurd kept (Nat.ne_of_lt short)

/-- A page that is listed line by line can be read. -/
theorem readable_of_shown {text : List Char} (clean : ∀ line ∈ mid ++ [last], Clean line)
    (tail : Tail limits last text)
    (shown : List.Forall₂ (Shown limits) (mid ++ [last]) (textLines (mid.flatten ++ text))) :
    Readable limits (mid ++ [last]) := by
  have clean_mid : ∀ line ∈ mid, Clean line := fun line mem => clean line (by simp [mem])
  have count := shown.length_eq
  rw [List.length_append, List.length_singleton] at count
  cases tail with
  | good _ plain last_shown blank cut =>
    have filled : mid.flatten ++ text ≠ [] := by
      intro empty
      rw [empty] at count
      cases count
    rw [length_textLines clean_mid plain filled] at count
    have all := List.countP_eq_length.mp (Nat.succ.inj count).symm
    constructor
    · intro line mem
      rw [List.dropLast_concat] at mem
      simpa using all line mem
    · intro alone
      by_contra short
      have parts := List.append_inj' (show mid ++ [last] = [] ++ [['\n']] from alone) rfl
      have newline : last = ['\n'] := (List.cons.inj parts.2).1
      cases last_shown with
      | whole _ =>
        apply filled
        rw [parts.1, newline]
        rfl
      | cut long keep within =>
        rw [newline] at long
        exact short long
    · intro line cap same ended caps above
      rw [List.getLast?_concat, Option.some.injEq] at same
      subst same
      exact cut cap caps above ended
  | bad body plain shape cap caps above kept =>
    obtain ⟨lines, length, split⟩ := @textLines_bad mid body clean_mid plain
    rw [split] at shown
    have long := overCap_iff.mpr ⟨cap, caps, above⟩
    rw [split, List.length_append, List.length_singleton] at count
    have final := List.forall₂_drop mid.length shown
    rw [List.drop_left, List.drop_left' (by omega)] at final
    have marked : Shown limits last (lineClipMarker 0).toList := (List.forall₂_cons.mp final).1
    generalize marker : (lineClipMarker 0).toList = found at marked
    cases marked with
    | whole short => exact absurd long short
    | cut _ keep within =>
      obtain ⟨none_kept, none_left⟩ := marker_injective within marker.symm
      have filled := List.length_pos_of_ne_nil (clean last (by simp)).1
      omega

/-- A page never has more than one line too many, and then the last is a marker for nothing. -/
theorem textLines_bound {text : List Char} (clean : ∀ line ∈ mid ++ [last], Clean line)
    (tail : Tail limits last text) :
    (textLines (mid.flatten ++ text)).length ≤ mid.length + 1 ∨
      ∃ lines, lines.length = mid.length + 1 ∧
        textLines (mid.flatten ++ text) = lines ++ [(lineClipMarker 0).toList] := by
  have clean_mid : ∀ line ∈ mid, Clean line := fun line mem => clean line (by simp [mem])
  have bound := @List.countP_le_length _ (fun line : List Char => line.getLast? = some '\n') mid
  cases tail with
  | good _ plain shown blank cut =>
    by_cases empty : mid.flatten ++ text = []
    · rw [empty]
      exact .inl (Nat.zero_le _)
    · rw [length_textLines clean_mid plain empty]
      exact .inl (Nat.succ_le_succ bound)
  | bad body plain shape cap caps above kept =>
    obtain ⟨lines, length, split⟩ := @textLines_bad mid body clean_mid plain
    by_cases all : lines.length = mid.length + 1
    · exact .inr ⟨lines, all, split⟩
    · left
      rw [split, List.length_append, List.length_singleton]
      omega

/-- A page without lines is a blank line that is not clipped. -/
theorem blank_of_textLines {text : List Char} (clean : ∀ line ∈ mid ++ [last], Clean line)
    (tail : Tail limits last text) (nothing : textLines (mid.flatten ++ text) = []) :
    last = ['\n'] ∧ mid = [] ∧ ¬OverCap limits last := by
  have empty : mid.flatten ++ text = [] := by
    by_contra filled
    unfold textLines at nothing
    rw [if_neg filled] at nothing
    have count := length_splitNewlinesFrom [] (mid.flatten ++ text)
    rw [nothing] at count
    cases count
  obtain ⟨no_front, no_text⟩ := List.append_eq_nil_iff.mp empty
  have alone : mid = [] := by
    by_contra some_line
    exact flatten_ne_nil (fun line mem => clean line (by simp [mem])) some_line no_front
  cases tail with
  | good _ plain shown blank cut => exact ⟨(blank no_text).1, alone, (blank no_text).2⟩
  | bad body plain shape cap caps above kept => simp at no_text

/-! ## All pages -/

/-- The first entry of the pages from an offset on has no smaller number. -/
theorem entriesOf_first (offset : Nat) (shown : List (List (List Char))) :
    entriesOf offset shown = [] ∨ ∃ number line later, offset ≤ number ∧
      entriesOf offset shown = numbered number line :: later := by
  induction shown generalizing offset with
  | nil => exact .inl rfl
  | cons first later ih =>
    rw [entriesOf, entries_eq]
    cases textLines (pageText first) with
    | nil =>
      rw [underNumbers, List.nil_append]
      cases ih (offset + first.length) with
      | inl nothing => exact .inl nothing
      | inr found =>
        obtain ⟨number, line, others, above, shape⟩ := found
        exact .inr ⟨number, line, others, by omega, shape⟩
    | cons line lines => exact .inr ⟨offset, line, _, Nat.le_refl _, rfl⟩

/-- Numbered lines of which the first has another number are none. -/
theorem nil_of_entriesOf {offset start : Nat} {shown : List (List (List Char))}
    {lines : List (List Char)} (before : start < offset)
    (same : entriesOf offset shown = underNumbers start lines) : lines = [] := by
  cases lines with
  | nil => rfl
  | cons line lines =>
    cases entriesOf_first offset shown with
    | inl nothing =>
      rw [nothing] at same
      cases same
    | inr found =>
      obtain ⟨number, first, later, above, shape⟩ := found
      rw [shape, underNumbers, List.cons.injEq] at same
      have := (numbered_injective same.1).1
      omega

variable {lines : List (List Char)}

/-- The pages behind a marker for nothing do not go on with the next number. -/
theorem no_marker_next {shownPages : List (List (List Char))} {offset : Nat}
    (paging : Paging limits limit lines pages)
    (parts : List.Forall₂ (fun page shown => ∃ clipped, PageShown limits page shown clipped) pages
      shownPages)
    (clean : ∀ line ∈ lines, Clean line) {after : List (List Char)}
    (behind : entriesOf offset shownPages = underNumbers (offset + 1) after) :
    ¬List.Forall₂ (Shown limits) lines ([(lineClipMarker 0).toList] ++ after) := by
  intro each
  cases paging with
  | nil => cases each
  | @page page rest pages one later =>
    cases parts with
    | @cons _ first _ others part parts =>
      obtain ⟨clipped, part⟩ := part
      obtain ⟨mid, last, text, shape, whole, tail⟩ :=
        part.text fun line mem => clean line (List.mem_append_left _ mem)
      have clean_page : ∀ line ∈ mid ++ [last], Clean line := by
        intro line mem
        exact clean line (List.mem_append_left _ (by rwa [shape]))
      rw [entriesOf, entries_eq, whole] at behind
      cases found : textLines (mid.flatten ++ text) with
      | cons line lines =>
        rw [found, underNumbers, List.cons_append] at behind
        cases after with
        | nil => cases behind
        | cons next after =>
          rw [underNumbers, List.cons.injEq] at behind
          have := (numbered_injective behind.1).1
          omega
      | nil =>
        obtain ⟨newline, alone, short⟩ := blank_of_textLines clean_page tail found
        rw [shape, alone, List.nil_append, List.cons_append] at each
        have shown : Shown limits last (lineClipMarker 0).toList := (List.forall₂_cons.mp each).1
        generalize marker : (lineClipMarker 0).toList = line at shown
        cases shown with
        | whole _ =>
          rw [newline, marker_eq] at marker
          cases marker
        | cut long keep within => exact short long

/-- Pages that list the lines under their numbers list them page by page. -/
theorem readable_of_entries {shownPages : List (List (List Char))} {offset : Nat}
    (paging : Paging limits limit lines pages)
    (parts : List.Forall₂ (fun page shown => ∃ clipped, PageShown limits page shown clipped) pages
      shownPages)
    (clean : ∀ line ∈ lines, Clean line) {shown : List (List Char)}
    (each : List.Forall₂ (Shown limits) lines shown)
    (listing : entriesOf offset shownPages = underNumbers offset shown) :
    ∀ page ∈ pages, Readable limits page := by
  induction paging generalizing offset shown shownPages with
  | nil =>
    intro page mem
    cases mem
  | @page page rest pages one later ih =>
    cases parts with
    | @cons _ first _ others part parts =>
      obtain ⟨clipped, part⟩ := part
      have count := part.length
      obtain ⟨mid, last, text, shape, whole, tail⟩ :=
        part.text fun line mem => clean line (List.mem_append_left _ mem)
      rw [entriesOf, entries_eq, whole] at listing
      obtain ⟨after, split, behind⟩ := underNumbers_append listing
      have clean_page : ∀ line ∈ mid ++ [last], Clean line := by
        intro line mem
        exact clean line (List.mem_append_left _ (by rwa [shape]))
      have lengths := each.length_eq
      rw [split, List.length_append, List.length_append] at lengths
      rw [shape, List.length_append, List.length_singleton] at count lengths
      cases textLines_bound clean_page tail with
      | inl bound =>
        by_cases exact : (textLines (mid.flatten ++ text)).length = mid.length + 1
        · have front := List.forall₂_take page.length each
          have back := List.forall₂_drop page.length each
          have size : (textLines (mid.flatten ++ text)).length = page.length := by
            rw [exact, shape, List.length_append, List.length_singleton]
          rw [split, List.take_left, List.take_left' size] at front
          rw [split, List.drop_left, List.drop_left' size] at back
          rw [exact, ← count] at behind
          have others_readable := ih parts (fun line mem => clean line (List.mem_append_right _ mem))
            back behind
          intro found mem
          cases mem with
          | head =>
            rw [shape] at front ⊢
            exact readable_of_shown clean_page tail front
          | tail _ mem => exact others_readable found mem
        · have nothing := nil_of_entriesOf (by omega) behind
          rw [nothing, List.length_nil] at lengths
          omega
      | inr extra =>
        obtain ⟨front, size, marked⟩ := extra
        rw [marked] at split behind
        have back := List.forall₂_drop page.length each
        have page_size : front.length = page.length := by
          rw [size, shape, List.length_append, List.length_singleton]
        rw [split, List.append_assoc, List.drop_left, List.drop_left' page_size] at back
        exact absurd back (no_marker_next later parts
          (fun line mem => clean line (List.mem_append_right _ mem)) (by
            rw [List.length_append, List.length_singleton, size, ← count, ← Nat.add_assoc] at behind
            exact behind))

/-- Pages that can be read list the lines under their numbers. -/
theorem entries_of_readable {shownPages : List (List (List Char))} {offset : Nat}
    (paging : Paging limits limit lines pages)
    (parts : List.Forall₂ (fun page shown => ∃ clipped, PageShown limits page shown clipped) pages
      shownPages)
    (clean : ∀ line ∈ lines, Clean line) (readable : ∀ page ∈ pages, Readable limits page) :
    ∃ shown, List.Forall₂ (Shown limits) lines shown ∧
      entriesOf offset shownPages = underNumbers offset shown := by
  induction paging generalizing offset shownPages with
  | nil =>
    cases parts
    exact ⟨[], .nil, rfl⟩
  | @page page rest pages one later ih =>
    cases parts with
    | @cons _ first _ others part parts =>
      obtain ⟨clipped, part⟩ := part
      have count := part.length
      obtain ⟨mid, last, text, shape, whole, tail⟩ :=
        part.text fun line mem => clean line (List.mem_append_left _ mem)
      obtain ⟨shown, each, listing⟩ := @ih others (offset + first.length) parts
        (fun line mem => clean line (List.mem_append_right _ mem))
        fun page mem => readable page (List.mem_cons_of_mem _ mem)
      have front := readable page List.mem_cons_self
      rw [shape] at front one
      have listed_page := shown_of_readable one
        (fun line mem => clean line (List.mem_append_left _ (by rwa [shape]))) tail front
      rw [← shape] at listed_page
      refine ⟨_, List.rel_append listed_page each, ?_⟩
      rw [entriesOf, entries_eq, whole, listing, underNumbers_append_eq, ← listed_page.length_eq,
        count]

/-- A read at the number of a line starts with it. -/
theorem startsWith_line (some_limit : 0 < limit) {i : Nat}
    (found : (splitLines raw)[i]? = some line) : StartsWith limits raw limit (i + 1) line := by
  obtain ⟨inside, same⟩ := List.getElem?_eq_some_iff.mp found
  have place := List.drop_eq_getElem_cons inside
  rw [same] at place
  obtain ⟨page, rest, shape, some_line, one⟩ := @exists_page limits limit [] room_of_nil
    ((splitLines raw).drop i)
    (by rw [place]; exact List.cons_ne_nil _ _)
  rw [List.nil_append] at one
  obtain ⟨shown, clipped, spent, parts, whole⟩ :=
    @window_page limits limit page rest (splitLines raw) (i + 1) some_limit one shape
  unfold StartsWith
  rw [whole]
  dsimp only
  rw [place] at shape
  obtain ⟨mid, last, final, rfl, rfl, ends⟩ := parts.split
  cases mid with
  | nil =>
    have first : line = last := (List.cons.inj shape).1
    rw [first]
    refine ⟨final, [], rfl, ?_⟩
    cases ends with
    | whole short => exact .inl ⟨rfl, short⟩
    | cut cap caps above =>
      have long := overCap_iff.mpr ⟨cap, caps, above⟩
      exact .inr ⟨.cut long _ (charsForTokens_le _ _), long⟩
  | cons head mid =>
    have first : line = head := (List.cons.inj shape).1
    rw [first]
    have room := one.room [head] (mid ++ [last]) rfl (List.cons_ne_nil _ _) (by simp)
    exact ⟨head, mid ++ [final], rfl, .inl ⟨rfl, room.short head (by simp)⟩⟩

/-- Every page of the text can be read. -/
def EveryPage (limits : ReadLimits) (limit : Int) (raw : List Char) : Prop :=
  ∃ pages, Paging limits (clampFrom1 limit limits.readMaxLimit) (splitLines raw) pages ∧
    ∀ page ∈ pages, Readable limits page

/-- A text is read page by page just when every page can be read. -/
theorem text_read_iff (limits : ReadLimits) (raw : List Char) (fileSize : Nat) (limit : Int) :
    TextRead limits raw fileSize limit ↔ EveryPage limits limit raw := by
  have clean : ∀ line ∈ splitLines raw, Clean line := fun line mem => lines_newline mem
  obtain ⟨pages, paging⟩ :=
    exists_paging limits (clampFrom1 limit limits.readMaxLimit) (splitLines raw)
  constructor
  · intro read
    obtain ⟨reads, responses, shown, found, each, listing⟩ := read.listing
    obtain ⟨shownPages, parts, all, -⟩ := @readPages_listed limits raw fileSize pages limit 1 _
      (Nat.le_refl 1) (by omega) paging rfl
    rw [all reads responses found] at listing
    exact ⟨pages, paging, readable_of_entries paging parts clean each listing⟩
  · rintro ⟨pages, paging, readable⟩
    obtain ⟨shownPages, parts, all, reads, responses, found⟩ :=
      @readPages_listed limits raw fileSize pages limit 1 _ (Nat.le_refl 1) (by omega) paging rfl
    obtain ⟨shown, each, listing⟩ := entries_of_readable paging parts clean readable
    refine ⟨⟨reads, responses, shown, found, each, ?_⟩, ?_⟩
    · rw [all reads responses found, listing]
    · intro i line found
      apply startsWith_line _ found
      unfold clampFrom1
      omega

/-! ## Calls of `read_file` -/

/-- The responses of `read_file` from an offset on, each at the offset that the hint before it
names, with at most this many calls. -/
def readFiles (codecs : Codecs) (limits : ReadLimits) (disk : Disk) (path sessionId : String)
    (limit : Int) : Nat → Nat → Licenses → Option (List ReadResult)
  | 0, _, _ => none
  | reads + 1, offset, licenses =>
    let answer := readFile codecs limits disk licenses path offset limit sessionId
    match nextOffset answer.1 with
    | none => some [answer.1]
    | some next =>
      (readFiles codecs limits disk path sessionId limit reads next answer.2).map (answer.1 :: ·)

/-- A text file below the streaming threshold that the session has no license for. -/
structure TextFile (codecs : Codecs) (limits : ReadLimits) (disk : Disk) (licenses : Licenses)
    (path sessionId : String) (file : File) (raw : List Char) : Prop where
  there : disk.files path = some file
  decoded : fileText codecs file.data = some raw
  small : limits.fastPathThreshold ≤ 0 ∨ (file.data.length : Int) < limits.fastPathThreshold
  fresh : licenses.get (sessionId, path) = none

/-- A read from the start with the default limit is refused for the size of the file. -/
structure Refused (limits : ReadLimits) (limit : Int) (fileSize : Nat) : Prop where
  bounded : 0 < limits.maxWholeRead
  default : limit = limits.readDefaultLimit
  large : limits.maxWholeRead ≤ (fileSize : Int)

/-- Following the hints of `read_file` from offset 1 on ends, and lists every line once, in order,
under the number at which a read starts with it. -/
structure PagesRead (codecs : Codecs) (limits : ReadLimits) (disk : Disk) (licenses : Licenses)
    (path sessionId : String) (file : File) (raw : List Char) (limit : Int) : Prop where
  listing : ∃ reads responses shown,
    readFiles codecs limits disk path sessionId limit reads 1 licenses = some responses ∧
    List.Forall₂ (Shown limits) (splitLines raw) shown ∧
    responses.flatMap listed = underNumbers 1 shown
  offsets : ∀ (i : Nat) (line : List Char), (splitLines raw)[i]? = some line →
    (readFile codecs limits disk licenses path (i + 1 : Nat) limit sessionId).1 =
        readPage limits raw file.data.length limit (i + 1 : Nat) ∧
      StartsWith limits raw (clampFrom1 limit limits.readMaxLimit) (i + 1) line

section

variable {codecs : Codecs} {disk : Disk} {licenses : Licenses} {path sessionId : String}
  {file : File} {readLimit : Int}

/-- A page that is not the whole text licenses nothing. -/
theorem partial_page {offset limit : Nat}
    (goes_on : (nextOffset (paginateText limits raw fileSize offset limit).1).isSome = true) :
    (paginateText limits raw fileSize offset limit).2 = false := by
  unfold paginateText at *
  dsimp only at *
  generalize (decide (offset + (window limits (splitLines raw) offset limit).pageLines.length - 1 <
    (splitLines raw).length) || (window limits (splitLines raw) offset limit).clipped) = truncated
    at goes_on ⊢
  cases truncated with
  | false => cases goes_on
  | true => simp

/-- A decoded file with nothing licensed is answered like its text. -/
theorem paginate_readPage {encoding text : String} {offset : Int}
    (sniffed : sniffTextEncoding codecs file.data = some encoding)
    (decoded : decodeText codecs file.data encoding = some text)
    (fresh : licenses.get (sessionId, path) = none) :
    (paginate codecs limits licenses path file offset readLimit sessionId).1 =
        readPage limits text.toList file.data.length readLimit offset ∧
      ((nextOffset (readPage limits text.toList file.data.length readLimit offset)).isSome = true →
        (paginate codecs limits licenses path file offset readLimit sessionId).2 = licenses) := by
  unfold paginate readPage
  rw [sniffed]
  dsimp only
  rw [decoded]
  dsimp only
  have unlicensed : (if clampFrom1 offset ((splitLines text.toList).length + 1) != 1 ||
      sessionId == "" then (none, licenses) else licenses.licensed sessionId path) =
        (none, licenses) := by
    split
    · rfl
    · rw [Licenses.licensed, fresh]
  rw [unlicensed]
  have changed : ∀ start,
      unchangedSinceLastRead none sessionId start (revisionId (some file)) = false := by
    intro start
    unfold unchangedSinceLastRead
    split <;> rfl
  rw [changed, if_neg Bool.false_ne_true]
  refine ⟨rfl, fun goes_on => ?_⟩
  dsimp only
  rw [partial_page goes_on, if_neg Bool.false_ne_true]

/-- A call that is not refused answers a page of the text. -/
theorem TextFile.answer (text : TextFile codecs limits disk licenses path sessionId file raw)
    {offset : Int} (allowed : offset = 1 → ¬Refused limits readLimit file.data.length) :
    (readFile codecs limits disk licenses path offset readLimit sessionId).1 =
        readPage limits raw file.data.length readLimit offset ∧
      ((nextOffset (readPage limits raw file.data.length readLimit offset)).isSome = true →
        (readFile codecs limits disk licenses path offset readLimit sessionId).2 = licenses) := by
  have content := text.decoded
  unfold fileText at content
  obtain ⟨encoding, sniffed, found⟩ := Option.bind_eq_some_iff.mp content
  obtain ⟨shown, decoded, rfl⟩ := Option.map_eq_some_iff.mp found
  have page := @paginate_readPage limits codecs licenses path sessionId file readLimit encoding
    shown offset sniffed decoded text.fresh
  have whole : (decide (0 < limits.maxWholeRead) &&
      (offset == 1 && readLimit == limits.readDefaultLimit) &&
      decide (limits.maxWholeRead ≤ (file.data.length : Int))) = false := by
    by_contra refused
    simp only [Bool.not_eq_false, Bool.and_eq_true, decide_eq_true_eq, beq_iff_eq] at refused
    exact allowed refused.1.2.1 ⟨refused.1.1, refused.1.2.2, refused.2⟩
  have streamed : (decide (0 < limits.fastPathThreshold) &&
      decide (limits.fastPathThreshold ≤ (file.data.length : Int))) = false := by
    by_contra large
    simp only [Bool.not_eq_false, Bool.and_eq_true, decide_eq_true_eq] at large
    have small := text.small
    omega
  unfold readFile
  rw [text.there]
  dsimp only
  rw [whole, streamed, if_neg Bool.false_ne_true, if_neg Bool.false_ne_true]
  exact page

/-- The calls that follow the hints answer the pages of the text. -/
theorem TextFile.answers (text : TextFile codecs limits disk licenses path sessionId file raw)
    (allowed : ¬Refused limits readLimit file.data.length) (reads offset : Nat) :
    readFiles codecs limits disk path sessionId readLimit reads offset licenses =
      readPages limits raw file.data.length readLimit reads offset := by
  induction reads generalizing offset with
  | zero => rfl
  | succ reads ih =>
    have page : offset = (1 : Int) → ¬Refused limits readLimit file.data.length := fun _ => allowed
    obtain ⟨answer, kept⟩ := text.answer page
    unfold readFiles readPages
    dsimp only
    rw [answer]
    cases next : nextOffset (readPage limits raw file.data.length readLimit offset) with
    | none => rfl
    | some next =>
      dsimp only
      rw [kept (by rw [next]; rfl), ih]

/-- A refused file is listed nowhere. -/
theorem TextFile.refused (text : TextFile codecs limits disk licenses path sessionId file raw)
    (refused : Refused limits readLimit file.data.length) :
    (readFile codecs limits disk licenses path 1 readLimit sessionId).1 =
      .tooLarge path file.data.length := by
  have whole : (decide (0 < limits.maxWholeRead) &&
      ((1 : Int) == 1 && readLimit == limits.readDefaultLimit) &&
      decide (limits.maxWholeRead ≤ (file.data.length : Int))) = true := by
    simp [refused.bounded, refused.default, refused.large]
  unfold readFile
  rw [text.there]
  dsimp only
  rw [whole, if_pos rfl]

/-- Of a refused file that is not empty no read starts with the first line. -/
theorem TextFile.nothing (text : TextFile codecs limits disk licenses path sessionId file raw)
    (refused : Refused limits readLimit file.data.length)
    (read : PagesRead codecs limits disk licenses path sessionId file raw readLimit) :
    raw = [] := by
  cases lines : splitLines raw with
  | nil =>
    have whole := splitLines_flatten raw
    rw [lines] at whole
    exact whole.symm
  | cons first later =>
    have begins := (read.offsets 0 first (by rw [lines]; rfl)).1
    rw [Nat.zero_add, Nat.cast_one, text.refused refused] at begins
    cases begins

/-- The calls read a file page by page just when the first is not refused and every page can be
read. -/
theorem pages_read_iff (text : TextFile codecs limits disk licenses path sessionId file raw)
    (readLimit : Int) :
    PagesRead codecs limits disk licenses path sessionId file raw readLimit ↔
      (raw = [] ∨ ¬Refused limits readLimit file.data.length) ∧ EveryPage limits readLimit raw := by
  by_cases refused : Refused limits readLimit file.data.length
  · constructor
    · intro read
      obtain rfl := text.nothing refused read
      exact ⟨.inl rfl, [], .nil, by simp⟩
    · rintro ⟨empty, -⟩
      obtain rfl := empty.resolve_right (not_not_intro refused)
      have no_line : splitLines [] = [] := rfl
      refine ⟨⟨1, [.tooLarge path file.data.length], [], ?_, .nil, rfl⟩, by simp [no_line]⟩
      unfold readFiles
      dsimp only
      rw [Nat.cast_one, text.refused refused]
      rfl
  · have whole := text_read_iff limits raw file.data.length readLimit
    constructor
    · intro read
      obtain ⟨reads, responses, shown, found, each⟩ := read.listing
      rw [text.answers refused] at found
      exact ⟨.inr refused, whole.mp ⟨⟨reads, responses, shown, found, each⟩,
        fun i line found => (read.offsets i line found).2⟩⟩
    · rintro ⟨-, every⟩
      have read := whole.mpr every
      obtain ⟨reads, responses, shown, found, each⟩ := read.listing
      rw [← text.answers refused] at found
      exact ⟨⟨reads, responses, shown, found, each⟩,
        fun i line found => ⟨(text.answer fun _ => refused).1, read.offsets i line found⟩⟩

end

/-! ## Small files -/

/-- ASCII, which `utf-8` decodes byte by byte. -/
def asciiCodecs : Codecs where
  decode _ data := some (String.ofList (data.map fun byte => Char.ofNat byte.toNat))
  encode _ text := text.toList.map fun c => c.toNat.toUInt8

/-- A disk with one file. -/
def oneFile (data : Bytes) : Disk where
  files := fun path => if path = "a.txt" then some { data, mtime := 0 } else none

theorem oneFile_text {data : Bytes} {raw : List Char}
    (decoded : fileText asciiCodecs data = some raw) (small : data.length < 10485760) :
    TextFile asciiCodecs {} (oneFile data) [] "a.txt" "s" { data, mtime := 0 } raw := by
  refine ⟨rfl, decoded, .inr ?_, rfl⟩
  change (data.length : Int) < 10485760
  omega

theorem isPage_single (line : List Char) (rest : List (List Char)) : IsPage {} 1 [line] rest := by
  constructor
  · exact List.cons_ne_nil _ _
  · intro front back whole some_front some_back
    have size := congrArg List.length whole
    have front_size := List.length_pos_iff.mpr some_front
    have back_size := List.length_pos_iff.mpr some_back
    rw [List.length_append, List.length_singleton] at size
    omega
  · exact .inr fun room => absurd room.few (Nat.lt_irrefl 1)

theorem readable_single (filled : line ≠ ['\n']) (short : ¬OverCap {} line) :
    Readable {} [line] := by
  constructor
  · simp
  · intro blank
    exact absurd (List.singleton_inj.mp blank) filled
  · intro last cap found _ caps above
    obtain rfl : line = last := by simpa using found
    exact absurd (overCap_iff.mpr ⟨cap, caps, above⟩) short

/-- Two lines, read in two pages. -/
theorem pages_read_two_lines :
    PagesRead asciiCodecs {} (oneFile [97, 10, 98, 10]) [] "a.txt" "s"
      { data := [97, 10, 98, 10], mtime := 0 } ['a', '\n', 'b', '\n'] 1 := by
  have text : TextFile asciiCodecs {} (oneFile [97, 10, 98, 10]) [] "a.txt" "s"
      { data := [97, 10, 98, 10], mtime := 0 } ['a', '\n', 'b', '\n'] :=
    oneFile_text (by decide +kernel) (by decide)
  apply (pages_read_iff text 1).mpr
  refine ⟨.inr ?_, [[['a', '\n']], [['b', '\n']]], ?_, ?_⟩
  · intro refused
    exact absurd refused.default (by decide)
  · exact .page (isPage_single ['a', '\n'] _) (.page (isPage_single ['b', '\n'] []) .nil)
  · intro page mem
    rcases List.mem_pair.mp mem with rfl | rfl
    · exact readable_single (by decide) (by decide +kernel)
    · exact readable_single (by decide) (by decide +kernel)

/-- The file "a", form feed, "b", newline has two lines and one number. -/
theorem form_feed_misread : ¬∀ (codecs : Codecs) (limits : ReadLimits) (disk : Disk)
    (licenses : Licenses) (path sessionId : String) (file : File) (raw : List Char) (limit : Int),
    TextFile codecs limits disk licenses path sessionId file raw →
      PagesRead codecs limits disk licenses path sessionId file raw limit := by
  intro read
  have text : TextFile asciiCodecs {} (oneFile [97, 12, 98, 10]) [] "a.txt" "s"
      { data := [97, 12, 98, 10], mtime := 0 } ['a', Char.ofNat 0x0C, 'b', '\n'] :=
    oneFile_text (by decide +kernel) (by decide)
  obtain ⟨reads, responses, shown, found, each, listing⟩ :=
    (read _ _ _ _ _ _ _ _ 500 text).listing
  have allowed : ¬Refused {} 500 4 := fun refused => absurd refused.large (by decide)
  have pages := (text.answers allowed reads 1).symm.trans found
  have ended : nextOffset (readPage {} ['a', Char.ofNat 0x0C, 'b', '\n'] 4 500 1) = none := by
    decide +kernel
  have one : (listed (readPage {} ['a', Char.ofNat 0x0C, 'b', '\n'] 4 500 1)).length = 1 := by
    decide +kernel
  have two : (splitLines ['a', Char.ofNat 0x0C, 'b', '\n']).length = 2 := by decide
  cases reads with
  | zero => cases pages
  | succ reads =>
    have only : readPages {} ['a', Char.ofNat 0x0C, 'b', '\n'] 4 500 (reads + 1) 1 =
        some [readPage {} ['a', Char.ofNat 0x0C, 'b', '\n'] 4 500 1] := by
      rw [readPages, Nat.cast_one, ended]
    have same := Option.some.inj (only.symm.trans pages)
    rw [← same, List.flatMap_singleton] at listing
    have count := congrArg List.length listing
    rw [one] at count
    have lengths := each.length_eq
    rw [two] at lengths
    cases shown with
    | nil => cases lengths
    | cons first shown =>
      cases shown with
      | nil => cases lengths
      | cons second shown => simp [underNumbers] at count

end SherryAgent.Guarantees.PagedReads
