import Mathlib.Data.List.Basic

/-!
# Python string operations the agent's code relies on

`str.strip`, `str.split`, `str.lower`, `str.replace`, `in`, `find`, `rfind` and
`fnmatch`, over the characters of a string. `lower` follows CPython where it can
produce an ASCII letter (which is all the callers compare against).
-/

namespace SherryAgent.Source.PyText

/-- The characters `str.strip()` removes (`str.isspace`). -/
def isSpace (c : Char) : Bool :=
  let n := c.toNat
  (9 ≤ n && n ≤ 13) || (28 ≤ n && n ≤ 32) || n == 0x85 || n == 0xA0 || n == 0x1680 ||
    (0x2000 ≤ n && n ≤ 0x200A) || n == 0x2028 || n == 0x2029 || n == 0x202F || n == 0x205F ||
    n == 0x3000

def stripChars (drop : Char → Bool) (text : List Char) : List Char :=
  ((text.dropWhile drop).reverse.dropWhile drop).reverse

def strip (text : String) : String :=
  String.ofList (stripChars isSpace text.toList)

/-- `U+212A` and `U+0130` are the two non-ASCII characters whose lower case
starts with an ASCII letter. -/
def lowerChar (c : Char) : List Char :=
  if c.toNat == 0x212A then ['k']
  else if c.toNat == 0x130 then ['i', Char.ofNat 0x307]
  else [c.toLower]

def lower (text : String) : String :=
  String.ofList (text.toList.flatMap lowerChar)

/-- `needle in text`. -/
def contains (needle text : String) : Bool :=
  text.toList.tails.any (needle.toList.isPrefixOf ·)

/-- Leftmost non-overlapping replacement; `fuel` bounds the text's length. -/
def replaceChars (old new : List Char) : (fuel : Nat) → List Char → List Char
  | 0, text => text
  | _, [] => []
  | fuel + 1, c :: rest =>
    if old.isPrefixOf (c :: rest) then new ++ replaceChars old new fuel ((c :: rest).drop old.length)
    else c :: replaceChars old new fuel rest

/-- `text.count(old)` for a non-empty `old`: how often `replaceChars` replaces. -/
def countChars (old : List Char) : (fuel : Nat) → List Char → Nat
  | 0, _ => 0
  | _, [] => 0
  | fuel + 1, c :: rest =>
    if old.isPrefixOf (c :: rest) then countChars old fuel ((c :: rest).drop old.length) + 1
    else countChars old fuel rest

/-- `text.replace(old, new)` for a non-empty `old`. -/
def replace (old new text : String) : String :=
  String.ofList (replaceChars old.toList new.toList text.toList.length text.toList)

/-- `text[text.find(first) : text.rfind(last) + 1]`, `none` unless `find` and
`rfind` succeed in that order. -/
def sliceBetween (first last : Char) (text : List Char) : Option (List Char) :=
  let start := text.idxOf first
  let fromEnd := text.reverse.idxOf last
  if start < text.length ∧ fromEnd < text.length ∧ start < text.length - 1 - fromEnd then
    some ((text.take (text.length - fromEnd)).drop start)
  else none

/-- `text.split()`. -/
def splitWords (text : String) : List String :=
  ((text.toList.splitOnP isSpace).filter (· ≠ [])).map String.ofList

/-- An element of a `fnmatch` pattern. -/
inductive GlobItem where
  | star
  | one
  | literal (c : Char)
  | oneOf (negated : Bool) (ranges : List (Char × Char))

def GlobItem.accepts : GlobItem → Char → Bool
  | .star, _ => false
  | .one, _ => true
  | .literal expected, c => c == expected
  | .oneOf negated ranges, c => negated != ranges.any fun range => range.1 ≤ c && c ≤ range.2

/-- The characters and ranges between brackets. -/
def globRanges : List Char → List (Char × Char)
  | first :: '-' :: last :: rest => (first, last) :: globRanges rest
  | c :: rest => (c, c) :: globRanges rest
  | [] => []

/-- What stands between the bracket just read and the one that closes it, and the rest:
a `]` that comes first, behind a `!` or not, closes nothing. -/
def globBracket (text : List Char) : Option (GlobItem × List Char) :=
  let negated := text.head? == some '!'
  let text := if negated then text.tail else text
  let leading := if text.head? == some ']' then 1 else 0
  let size := leading + ((text.drop leading).takeWhile (· != ']')).length
  if size < text.length then some (.oneOf negated (globRanges (text.take size)), text.drop (size + 1))
  else none

/-- `fnmatch.translate`; `fuel` bounds the pattern's length. -/
def globItems : (fuel : Nat) → List Char → List GlobItem
  | 0, _ => []
  | _, [] => []
  | fuel + 1, '*' :: rest => .star :: globItems fuel rest
  | fuel + 1, '?' :: rest => .one :: globItems fuel rest
  | fuel + 1, '[' :: rest =>
    match globBracket rest with
    | some (item, rest) => item :: globItems fuel rest
    | none => .literal '[' :: globItems fuel rest
  | fuel + 1, c :: rest => .literal c :: globItems fuel rest

def globMatch : List GlobItem → List Char → Bool
  | [], text => text.isEmpty
  | .star :: rest, text => text.tails.any fun suffix => globMatch rest suffix
  | _ :: _, [] => false
  | item :: rest, c :: text => item.accepts c && globMatch rest text

/-- `fnmatch.fnmatch(name, pattern)` where file names are case sensitive. -/
def fnmatch (name pattern : String) : Bool :=
  globMatch (globItems pattern.toList.length pattern.toList) name.toList

end SherryAgent.Source.PyText
