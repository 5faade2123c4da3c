import SherryAgent.Library.StrictJson
import SherryAgent.Source.PyText

/-!
# Repair of tool arguments

`agent/middlewares/invalid_tool_call_repair/repair.py`: the raw arguments of a tool call that is no
JSON, read as a mapping when a syntax repair is enough. Texts are lists of characters.
-/

namespace SherryAgent.Source.Agent.ToolArgsRepair

open SherryAgent.Library.StrictJson SherryAgent.Source

abbrev Mapping := List (List Nat × Value)

/-- The code points of a text. -/
def points (text : List Char) : List Nat := text.map Char.toNat

/-- `_try_mapping`. -/
def tryMapping (text : List Char) : Option Mapping :=
  match loads text with
  | some (.obj entries) => some entries
  | _ => none

/-! ## Trailing commas -/

/-- `in_string` and `escaped`. -/
inductive Quoting where
  | outside
  | inside
  | escaped
  deriving DecidableEq

def quoteStep (quoting : Quoting) (c : Char) : Quoting :=
  match quoting with
  | .outside => if c = '"' then .inside else .outside
  | .inside => if c = '"' then .outside else if c = '\\' then .escaped else .inside
  | .escaped => .inside

/-- Behind the blanks a brace or a bracket is closed. -/
def closesNext (rest : List Char) : Bool :=
  (rest.dropWhile isBlank).head?.any fun c => c == '\x7d' || c == ']'

/-- The loop of `_strip_trailing_commas`: the output, and whether it changed. -/
def stripCommasFrom (quoting : Quoting) : List Char → List Char × Bool
  | [] => ([], false)
  | c :: rest =>
    if quoting = .outside ∧ c = ',' ∧ closesNext rest = true then
      ((stripCommasFrom .outside rest).1, true)
    else
      let later := stripCommasFrom (quoteStep quoting c) rest
      (c :: later.1, later.2)

/-- `_strip_trailing_commas`. -/
def stripTrailingCommas (raw : List Char) : Option (List Char) :=
  let (out, changed) := stripCommasFrom .outside raw
  if changed then some out else none

/-! ## The unquoted tail -/

/-- `_KEY_COLON` at the start of a text: the key, and the text behind the match. -/
def keyColonAt : List Char → Option (List Char × List Char)
  | '"' :: rest =>
    let key := rest.takeWhile fun c => c != '"' && c != '\\'
    match rest.drop key.length with
    | '"' :: more =>
      match more.dropWhile PyText.isSpace with
      | ':' :: tail => some (key, tail.dropWhile PyText.isSpace)
      | _ => none
    | _ => none
  | _ => none

/-- `_KEY_COLON.finditer`: the keys, each with the text behind its match; `fuel` bounds the length. -/
def keyColonsFrom : Nat → List Char → List (List Char × List Char)
  | 0, _ => []
  | _, [] => []
  | fuel + 1, c :: rest =>
    match keyColonAt (c :: rest) with
    | some (key, behind) => (key, behind) :: keyColonsFrom fuel behind
    | none => keyColonsFrom fuel rest

def keyColons (raw : List Char) : List (List Char × List Char) := keyColonsFrom raw.length raw

/-- `_KEY_LIKE.search`. -/
def keyLike (value : List Char) : Bool :=
  value.tails.any fun
    | '"' :: rest => (rest.dropWhile PyText.isSpace).head? == some ':'
    | _ => false

/-- `_JSON_TOKEN_START`. -/
def jsonTokenStart : List Char := "\"\x7b[-0123456789tfnTFN".toList

/-- The last place of a character. -/
def rfind (c : Char) : List Char → Option Nat
  | [] => none
  | d :: rest =>
    match rfind c rest with
    | some i => some (i + 1)
    | none => if d = c then some 0 else none

def hexDigits (n : Nat) : List Char :=
  [Nat.digitChar (n / 0x1000 % 16), Nat.digitChar (n / 0x100 % 16), Nat.digitChar (n / 0x10 % 16),
    Nat.digitChar (n % 16)]

/-- What `json.dumps` writes for a character of a string. -/
def dumpsChar (c : Char) : List Char :=
  if c = '"' then ['\\', '"']
  else if c = '\\' then ['\\', '\\']
  else if c = '\n' then ['\\', 'n']
  else if c = '\r' then ['\\', 'r']
  else if c = '\t' then ['\\', 't']
  else if c.toNat = 8 then ['\\', 'b']
  else if c.toNat = 12 then ['\\', 'f']
  else if 0x20 ≤ c.toNat ∧ c.toNat ≤ 0x7E then [c]
  else if c.toNat < 0x10000 then '\\' :: 'u' :: hexDigits c.toNat
  else
    '\\' :: 'u' :: hexDigits (0xD800 + (c.toNat - 0x10000) / 0x400) ++
      '\\' :: 'u' :: hexDigits (0xDC00 + (c.toNat - 0x10000) % 0x400)

/-- `json.dumps(value)` of a string. -/
def dumps (value : List Char) : List Char := '"' :: value.flatMap dumpsChar ++ ['"']

/-- `parsed.get(key) == value`. -/
def boundTo (parsed : Mapping) (key value : List Char) : Bool :=
  match lookup parsed (points key) with
  | some (.str found) => found == points value
  | _ => false

/-- `_quote_unquoted_tail`. -/
def quoteUnquotedTail (raw : List Char) : Option Mapping :=
  match rfind '\x7d' raw with
  | none | some 0 => none
  | some close =>
    match (keyColons raw).getLast? with
    | none => none
    | some (key, behind) =>
      let valueStart := raw.length - behind.length
      if close ≤ valueStart then none
      else
        let value := (raw.take close).drop valueStart
        if value.head?.any (jsonTokenStart.contains ·) ||
            PyText.stripChars PyText.isSpace value != value then none
        else if keyLike value then none
        else
          match tryMapping (raw.take valueStart ++ dumps value ++ raw.drop close) with
          | none => none
          | some parsed =>
            let keys := (keyColons raw).map fun found => points found.1
            if !boundTo parsed key value then none
            else if (parsed.map (·.1)).all (keys.contains ·) &&
                keys.all ((parsed.map (·.1)).contains ·) then some parsed
            else none

/-- `repair_tool_args`. -/
def repairToolArgs (raw : List Char) : Option Mapping :=
  if PyText.stripChars PyText.isSpace raw = [] then none
  else
    match tryMapping raw with
    | some parsed => some parsed
    | none =>
      match (stripTrailingCommas raw).bind tryMapping with
      | some parsed => some parsed
      | none => quoteUnquotedTail raw

end SherryAgent.Source.Agent.ToolArgsRepair
