import Mathlib.Algebra.GroupWithZero.Nat
import Mathlib.Data.List.Sort
import Mathlib.Algebra.BigOperators.Group.List.Basic
import SherryAgent.Library.Occurrences
import SherryAgent.Source.PyText

/-!
# The fuzzy matcher of the edit tools

`agent/tools/pub_base/text_matcher.py`, over the characters of a text. Each strategy
lists the spans of the content it takes for the pattern; the first one that finds any
decides. A strategy that raises has no list.
-/

namespace SherryAgent.Source.TextMatcher

open SherryAgent.Library

abbrev Text := List Char

/-- `(start, end)`. -/
abbrev Span := Nat × Nat

/-- `\d`, `str.isalpha` and `SequenceMatcher(None, a, b).ratio()`. -/
structure Tables where
  isDigit : Char → Bool
  isAlpha : Char → Bool
  ratio : Text → Text → Rat

def apostrophe : Char := Char.ofNat 0x27

/-- `_UNICODE_MAP`, in its order: the curly quotes, the two dashes, the ellipsis and the
no-break space. -/
def unicodeMap : List (Char × Text) :=
  [(Char.ofNat 0x201c, ['"']), (Char.ofNat 0x201d, ['"']),
   (Char.ofNat 0x2018, [apostrophe]), (Char.ofNat 0x2019, [apostrophe]),
   (Char.ofNat 0x2014, ['-', '-']), (Char.ofNat 0x2013, ['-']),
   (Char.ofNat 0x2026, ['.', '.', '.']), (Char.ofNat 0xa0, [' '])]

/-- `text.split("\n")`. -/
def lines (text : Text) : List Text := text.splitOn '\n'

/-- `"\n".join(parts)`. -/
def join (parts : List Text) : Text := List.intercalate ['\n'] parts

/-- `line.strip()`. -/
def strip (line : Text) : Text := PyText.stripChars PyText.isSpace line

/-- `line.lstrip()`. -/
def lstrip (line : Text) : Text := line.dropWhile PyText.isSpace

/-- `text.replace(old, new)`. -/
def replace (old new text : Text) : Text := PyText.replaceChars old new text.length text

/-- `text.count(old)`. -/
def count (old text : Text) : Nat := PyText.countChars old text.length text

/-- `items[start:end]`. -/
def slice {α : Type} (items : List α) (start stop : Nat) : List α := (items.take stop).drop start

/-- A space or a tab. -/
def isBlank (c : Char) : Bool := c == ' ' || c == '\t'

/-! ## Lines -/

/-- `_line_positions`. -/
def linePositions (lines : List Text) (start stop totalLen : Nat) : Span :=
  let sp := ((lines.take start).map (·.length + 1)).sum
  let ep := ((lines.take stop).map (·.length + 1)).sum - 1
  (sp, min ep totalLen)

/-- `_find_normalized_matches`. -/
def findNormalizedMatches (content : Text) (contentLines contentNormLines : List Text)
    (patternNorm : Text) : List Span :=
  let plen := (lines patternNorm).length
  ((List.range (contentNormLines.length + 1 - plen)).filter fun i =>
    join (slice contentNormLines i (i + plen)) == patternNorm).map fun i =>
      linePositions contentLines i (i + plen) content.length

/-! ## The exact search -/

/-- `content.find(pattern, start)`. -/
def find (content pattern : Text) (start : Nat) : Option Nat :=
  if start ≤ content.length then (findFirst pattern (content.drop start)).map (· + start) else none

/-- The loop of `_strategy_exact`; every round starts one past the last match. -/
def exactLoop (content pattern : Text) : (fuel : Nat) → (start : Nat) → List Span
  | 0, _ => []
  | fuel + 1, start =>
    match find content pattern start with
    | none => []
    | some pos => (pos, pos + pattern.length) :: exactLoop content pattern fuel (pos + 1)

/-- `_strategy_exact`. -/
def strategyExact (content pattern : Text) : List Span :=
  exactLoop content pattern (content.length + 2) 0

/-! ## Line numbers copied with a snippet -/

/-- The remainder of a line behind `\d+` and a separator. -/
def afterNumber (tables : Tables) (separator line : Text) : Option Text :=
  let number := line.takeWhile tables.isDigit
  let rest := line.dropWhile tables.isDigit
  if number = [] then none
  else if separator.isPrefixOf rest then some (rest.drop separator.length) else none

/-- `_LINE_NUMBER_PREFIX_RES`: the first that matches. -/
def stripNumber (tables : Tables) (line : Text) : Option Text :=
  (afterNumber tables ['|'] line <|> afterNumber tables [':', ' '] line) <|>
    afterNumber tables ['\t'] line

/-- `_strip_line_number_prefix`. -/
def stripLineNumberPrefix (tables : Tables) (text : Text) : Option Text := do
  let stripped ← (lines text).mapM fun line =>
    if strip line = [] then some (line, false) else (stripNumber tables line).map (·, true)
  let result := join (stripped.map (·.1))
  if stripped.any (·.2) && result != text then some result else none

/-- `_strategy_line_number_prefix_stripped`. -/
def strategyLineNumberPrefixStripped (tables : Tables) (content pattern : Text) : List Span :=
  match stripLineNumberPrefix tables pattern with
  | none => []
  | some stripped => strategyExact content stripped

/-! ## Line by line -/

/-- `_strategy_line_trimmed`. -/
def strategyLineTrimmed (content pattern : Text) : List Span :=
  findNormalizedMatches content (lines content) ((lines content).map strip)
    (join ((lines pattern).map strip))

/-- `_strategy_indentation_flexible`. -/
def strategyIndentationFlexible (content pattern : Text) : List Span :=
  findNormalizedMatches content (lines content) ((lines content).map lstrip)
    (join ((lines pattern).map lstrip))

/-- `check[0] = check[0].strip()`, and the last line when there is more than one. -/
def trimBoundary : List Text → List Text
  | [] => []
  | [only] => [strip only]
  | first :: second :: rest =>
    strip first :: (second :: rest).dropLast ++ [strip ((second :: rest).getLast (by simp))]

/-- `_strategy_trimmed_boundary`. -/
def strategyTrimmedBoundary (content pattern : Text) : List Span :=
  let patternLines := trimBoundary (lines pattern)
  let contentLines := lines content
  let plen := patternLines.length
  ((List.range (contentLines.length + 1 - plen)).filter fun i =>
    join (trimBoundary (slice contentLines i (i + plen))) == join patternLines).map fun i =>
      linePositions contentLines i (i + plen) content.length

/-! ## Runs of blanks -/

/-- `re.sub(r"[ \t]+", " ", s)`; the flag says whether the previous character was a blank. -/
def collapseFrom : Bool → Text → Text
  | _, [] => []
  | previous, c :: rest =>
    if isBlank c then (if previous then [] else [' ']) ++ collapseFrom true rest
    else c :: collapseFrom false rest

/-- `normalize` of `_strategy_whitespace_normalized`. -/
def collapse (text : Text) : Text := collapseFrom false text

/-- The two loops that fill `orig_to_norm`, from position `ni` of the normalized text on;
`size` is its length. -/
def origToNorm (size : Nat) : (original : Text) → (ni : Nat) → (normalized : Text) → List Nat
  | [], _, _ => []
  | _ :: original, ni, [] => size :: origToNorm size original ni []
  | c :: original, ni, n :: normalized =>
    if c = n then ni :: origToNorm size original (ni + 1) normalized
    else if isBlank c && n == ' ' then
      if original.head?.any fun next => !isBlank next then
        ni :: origToNorm size original (ni + 1) normalized
      else ni :: origToNorm size original ni (n :: normalized)
    else ni :: origToNorm size original ni (n :: normalized)

/-- `n2o_start.get(npos)`: the first position that maps there. -/
def firstAt (places : List Nat) (npos : Nat) : Option Nat :=
  places.findIdx? (· == npos)

/-- `n2o_end.get(npos)`: the last position that maps there. -/
def lastAt (places : List Nat) (npos : Nat) : Option Nat :=
  (places.reverse.findIdx? (· == npos)).map fun back => places.length - 1 - back

/-- `normalized[ne - 1]`, where position -1 is the last one. -/
def charBefore (normalized : Text) (ne : Nat) : Option Char :=
  if ne = 0 then normalized.getLast? else normalized[ne - 1]?

/-- The span of one match. `min` of no position raises, whether its value is needed or not. -/
def mapWhitespacePosition (original normalized : Text) (places : List Nat) (spot : Span) :
    Option Span := do
  let (ns, ne) := spot
  let fallback ← places.findIdx? (ns ≤ ·)
  let os := (firstAt places ns).getD fallback
  let oe := match if ne = 0 then none else lastAt places (ne - 1) with
    | some last => last + 1
    | none => os + (ne - ns)
  let oe :=
    if ne < normalized.length ∧ charBefore normalized ne = some ' ' then
      oe + ((original.drop oe).takeWhile isBlank).length
    else oe
  pure (os, min oe original.length)

/-- `_map_whitespace_positions`. -/
def mapWhitespacePositions (original normalized : Text) (normMatches : List Span) :
    Option (List Span) :=
  let places := origToNorm normalized.length original 0 normalized
  normMatches.mapM (mapWhitespacePosition original normalized places)

/-- `_strategy_whitespace_normalized`. -/
def strategyWhitespaceNormalized (content pattern : Text) : Option (List Span) :=
  mapWhitespacePositions content (collapse content)
    (strategyExact (collapse content) (collapse pattern))

/-! ## Escapes -/

/-- `_strategy_escape_normalized`. -/
def strategyEscapeNormalized (content pattern : Text) : List Span :=
  let unescaped := replace ['\\', 'r'] ['\r']
    (replace ['\\', 't'] ['\t'] (replace ['\\', 'n'] ['\n'] pattern))
  if unescaped = pattern then [] else strategyExact content unescaped

/-- The value of a hexadecimal digit. -/
def hexValue (c : Char) : Option Nat :=
  if '0' ≤ c ∧ c ≤ '9' then some (c.toNat - 48)
  else if 'a' ≤ c ∧ c ≤ 'f' then some (c.toNat - 87)
  else if 'A' ≤ c ∧ c ≤ 'F' then some (c.toNat - 55)
  else none

/-- `int(digits, 16)`. -/
def hexNumber (digits : Text) : Option Nat :=
  digits.foldlM (fun value c => (hexValue c).map (16 * value + ·)) 0

/-- `_unescape_unicode`; `fuel` bounds the text's length. A lone surrogate stands in no
content, so a text with one is none. -/
def unescapeUnicode : (fuel : Nat) → Text → Option Text
  | 0, text => some text
  | _, [] => some []
  | fuel + 1, c :: rest =>
    let code := if c = '\\' ∧ rest.head? = some 'u' ∧ 5 ≤ rest.length then
      hexNumber ((rest.drop 1).take 4) else none
    match code with
    | none => (unescapeUnicode fuel rest).map (c :: ·)
    | some code =>
      if code.isValidChar then
        (unescapeUnicode fuel (rest.drop 5)).map (Char.ofNat code :: ·)
      else none

/-- `_strategy_unicode_escape_normalized`. -/
def strategyUnicodeEscapeNormalized (content pattern : Text) : List Span :=
  match unescapeUnicode pattern.length pattern with
  | none => []
  | some unescaped => if unescaped = pattern then [] else strategyExact content unescaped

/-! ## Typographic characters -/

/-- `_unicode_normalize`. -/
def unicodeNormalize (text : Text) : Text :=
  unicodeMap.foldl (fun text entry => replace [entry.1] entry.2 text) text

/-- `_UNICODE_MAP.get(char)`. -/
def replacement (c : Char) : Option Text :=
  (unicodeMap.find? (·.1 == c)).map (·.2)

/-- The loop of `_build_orig_to_norm_map`, with the entry behind the last character. -/
def buildOrigToNormMap : (normPos : Nat) → (original : Text) → List Nat
  | normPos, [] => [normPos]
  | normPos, c :: rest =>
    normPos :: buildOrigToNormMap
      (normPos + match replacement c with | some repl => repl.length | none => 1) rest

/-- `_map_norm_to_orig`: matches that begin inside a replacement are left out. -/
def mapNormToOrig (origToNorm : List Nat) (normMatches : List Span) : List Span :=
  normMatches.filterMap fun (ns, ne) =>
    (firstAt origToNorm.dropLast ns).map fun os =>
      (os, os + ((origToNorm.dropLast.drop os).takeWhile (· < ne)).length)

/-- `_strategy_unicode_normalized`. -/
def strategyUnicodeNormalized (content pattern : Text) : List Span :=
  let normPattern := unicodeNormalize pattern
  let normContent := unicodeNormalize content
  if normContent = content ∧ normPattern = pattern then []
  else
    let found := strategyExact normContent normPattern
    let found := if found = [] then strategyLineTrimmed normContent normPattern else found
    mapNormToOrig (buildOrigToNormMap 0 content) found

/-! ## Similarity -/

/-- `_strategy_block_anchor`. -/
def strategyBlockAnchor (tables : Tables) (content pattern : Text) : List Span :=
  let patternLines := lines (unicodeNormalize pattern)
  let normContentLines := lines (unicodeNormalize content)
  let contentLines := lines content
  let plen := patternLines.length
  if plen < 2 then []
  else
    let firstLine := strip (patternLines.headD [])
    let lastLine := strip (patternLines.getLastD [])
    let potential := (List.range (normContentLines.length + 1 - plen)).filter fun i =>
      strip (normContentLines.getD i []) == firstLine &&
        strip (normContentLines.getD (i + plen - 1) []) == lastLine
    let threshold : Rat := if potential.length ≤ 1 then 1 / 2 else 7 / 10
    let similarity (i : Nat) : Rat :=
      if plen ≤ 2 then 1
      else tables.ratio (join (slice normContentLines (i + 1) (i + plen - 1)))
        (join (slice patternLines 1 (plen - 1)))
    (potential.filter fun i => decide (threshold ≤ similarity i)).map fun i =>
      linePositions contentLines i (i + plen) content.length

/-- `_strategy_context_aware`. -/
def strategyContextAware (tables : Tables) (content pattern : Text) : List Span :=
  let patternLines := lines pattern
  let contentLines := lines content
  let plen := patternLines.length
  ((List.range (contentLines.length + 1 - plen)).filter fun i =>
    let high := (patternLines.zip (slice contentLines i (i + plen))).countP fun (pl, cl) =>
      decide (8 / 10 ≤ tables.ratio (strip pl) (strip cl))
    decide (plen ≤ 2 * high)).map fun i => linePositions contentLines i (i + plen) content.length

/-! ## The replacement text -/

/-- `repr` of the two suspects of `_detect_escape_drift`. -/
def reprOf (suspect : Char) : Text :=
  if suspect = apostrophe then ['"', '\\', '\\', apostrophe, '"']
  else [apostrophe, '\\', '\\', '"', apostrophe]

def quoteRepr (suspect : Char) : Text :=
  if suspect = apostrophe then ['"', apostrophe, '"'] else [apostrophe, '"', apostrophe]

/-- `needle in text`. -/
def isIn (needle text : Text) : Bool := text.tails.any (needle.isPrefixOf ·)

/-- `_detect_escape_drift`. -/
def detectEscapeDrift (content : Text) (spans : List Span) (oldString newString : Text) :
    Option Text :=
  let matched := spans.flatMap fun span => slice content span.1 span.2
  [apostrophe, '"'].findSome? fun quote =>
    let suspect := ['\\', quote]
    if isIn suspect newString && isIn suspect oldString && !isIn suspect matched then
      some ("Escape-drift detected: old_string and new_string contain ".toList ++ reprOf quote ++
        (" but the matched file region does not. " ++
          "Re-read the file and pass old_string/new_string without " ++
          "backslash-escaping ").toList ++ quoteRepr quote ++ ".".toList)
    else none

/-- `_first_meaningful_line`. -/
def firstMeaningfulLine (text : Text) : Option Text := (lines text).find? (strip · ≠ [])

/-- `_leading_ws`. -/
def leadingWs (line : Text) : Text := line.takeWhile isBlank

/-- `_reindent`. -/
def reindent (fileRegion oldString newString : Text) : Text :=
  if newString = [] then newString
  else match firstMeaningfulLine oldString, firstMeaningfulLine fileRegion with
    | some oldFirst, some fileFirst =>
      let oldIndent := leadingWs oldFirst
      let fileIndent := leadingWs fileFirst
      if oldIndent = fileIndent then newString
      else join ((lines newString).map fun line =>
        if strip line = [] then line
        else if oldIndent.isPrefixOf (leadingWs line) then
          fileIndent ++ line.drop oldIndent.length
        else fileIndent ++ line.dropWhile isBlank)
    | _, _ => newString

/-- The characters after which a quote opens. -/
def opens (previous : Char) : Bool := [' ', '\t', '\n', '\r', '(', '[', '{'].contains previous

/-- `_apply_curly_double_quotes`, behind the previous character. -/
def applyCurlyDoubleQuotes : (previous : Char) → Text → Text
  | _, [] => []
  | previous, c :: rest =>
    (if c ≠ '"' then c else if opens previous then Char.ofNat 0x201c else Char.ofNat 0x201d) ::
      applyCurlyDoubleQuotes c rest

/-- `_apply_curly_single_quotes`, behind the previous character. -/
def applyCurlySingleQuotes (tables : Tables) : (previous : Char) → Text → Text
  | _, [] => []
  | previous, c :: rest =>
    let next := rest.headD ' '
    (if c ≠ apostrophe then c
      else if tables.isAlpha previous && tables.isAlpha next then Char.ofNat 0x2019
      else if opens previous then Char.ofNat 0x2018
      else Char.ofNat 0x2019) :: applyCurlySingleQuotes tables c rest

/-- `_preserve_quote_style`. -/
def preserveQuoteStyle (tables : Tables) (fileRegion newString : Text) : Text :=
  let newString :=
    if (fileRegion.contains (Char.ofNat 0x201c) || fileRegion.contains (Char.ofNat 0x201d)) &&
        !(fileRegion.contains '"') then applyCurlyDoubleQuotes ' ' newString
    else newString
  if (fileRegion.contains (Char.ofNat 0x2018) || fileRegion.contains (Char.ofNat 0x2019)) &&
      !(fileRegion.contains apostrophe) then applyCurlySingleQuotes tables ' ' newString
  else newString

/-! ## Find and replace -/

abbrev Strategy := Text → Text → Option (List Span)

/-- `_STRATEGIES`. -/
def strategies (tables : Tables) : List (String × Strategy) :=
  [("exact", fun content pattern => some (strategyExact content pattern)),
   ("line_number_prefix_stripped", fun content pattern =>
     some (strategyLineNumberPrefixStripped tables content pattern)),
   ("line_trimmed", fun content pattern => some (strategyLineTrimmed content pattern)),
   ("whitespace_normalized", strategyWhitespaceNormalized),
   ("indentation_flexible", fun content pattern =>
     some (strategyIndentationFlexible content pattern)),
   ("escape_normalized", fun content pattern => some (strategyEscapeNormalized content pattern)),
   ("unicode_escape_normalized", fun content pattern =>
     some (strategyUnicodeEscapeNormalized content pattern)),
   ("trimmed_boundary", fun content pattern => some (strategyTrimmedBoundary content pattern)),
   ("unicode_normalized", fun content pattern => some (strategyUnicodeNormalized content pattern)),
   ("block_anchor", fun content pattern => some (strategyBlockAnchor tables content pattern)),
   ("context_aware", fun content pattern => some (strategyContextAware tables content pattern))]

/-- `BROAD_MATCHERS`. -/
def broadMatchers : List String :=
  ["line_trimmed", "whitespace_normalized", "indentation_flexible", "trimmed_boundary",
   "block_anchor", "context_aware"]

/-- `(new_content, match_count, strategy_name, error)`. -/
structure Outcome where
  newContent : Text
  matchCount : Nat
  strategy : Option String := none
  error : Option Text := none
  deriving DecidableEq

/-- One replacement: `result[:start] + adjusted + result[end:]`. -/
def splice (result : Text) (span : Span) (adjusted : Text) : Text :=
  result.take span.1 ++ adjusted ++ result.drop span.2

/-- The replacements, from the last span to the first. -/
def applyMatches (tables : Tables) (name : String) (content oldString newString : Text)
    (spans : List Span) : Text :=
  let sorted := spans.insertionSort fun a b => b.1 ≤ a.1
  sorted.foldl (fun result span =>
    let region := slice content span.1 span.2
    let adjusted := if name = "exact" then newString
      else preserveQuoteStyle tables region (reindent region oldString newString)
    splice result span adjusted) content

/-- The loop over the strategies; none when no strategy finds a match. -/
def tryStrategies (tables : Tables) (content oldString newString : Text) (replaceAll : Bool) :
    List (String × Strategy) → Option (Option Outcome)
  | [] => some none
  | (name, fn) :: rest =>
    if replaceAll && broadMatchers.contains name then
      tryStrategies tables content oldString newString replaceAll rest
    else do
      let spans ← fn content oldString
      if spans = [] then tryStrategies tables content oldString newString replaceAll rest
      else if 1 < spans.length ∧ replaceAll = false then
        pure (some { newContent := content, matchCount := 0
                     error := some (s!"Found {spans.length} matches for old_string. " ++
                       "Provide more context to make it unique, or use replace_all=True.").toList })
      else
        match if name = "exact" then none else detectEscapeDrift content spans oldString newString with
        | some drift => pure (some { newContent := content, matchCount := 0, error := some drift })
        | none =>
          pure (some { newContent := applyMatches tables name content oldString newString spans
                       matchCount := spans.length
                       strategy := some name })

/-- How many spans the broad matchers list. -/
def broadCount (tables : Tables) (content oldString : Text) : Option Nat :=
  let broad := (strategies tables).filter fun entry => broadMatchers.contains entry.1
  let counts : Option (List Nat) :=
    broad.mapM fun entry : String × Strategy => (entry.2 content oldString).map List.length
  counts.map List.sum

/-- `fuzzy_find_and_replace`; none when a strategy raises. -/
def fuzzyFindAndReplace (tables : Tables) (content oldString newString : Text)
    (replaceAll : Bool) : Option Outcome := do
  let failed (error : String) : Outcome :=
    { newContent := content, matchCount := 0, error := some error.toList }
  if oldString = [] then pure (failed "old_string cannot be empty")
  else if oldString = newString then pure (failed "old_string and new_string are identical")
  else
    match ← tryStrategies tables content oldString newString replaceAll (strategies tables) with
    | some outcome => pure outcome
    | none =>
      let fuzzy ← if replaceAll then broadCount tables content oldString else pure 0
      if fuzzy ≠ 0 then
        pure (failed ("Could not find a precise match for old_string, and replace_all=True " ++
          s!"accepts only precise matches ({fuzzy} fuzzy match(es) exist). " ++
          "Pass old_string exactly as the file spells it, or set replace_all=False " ++
          "to apply a single fuzzy match."))
      else pure (failed "Could not find a match for old_string in the file")

end SherryAgent.Source.TextMatcher
