import Mathlib.Data.List.Basic

/-!
# Parsed JSON values as Python sees them

The result of `json.loads`: what `bool(value)`, `str(value)` and `dict.get` do
with it, and its text by `json.dumps` with `ensure_ascii=False` and the default separators. A float
keeps the text Python prints for it.
-/

namespace SherryAgent.Source

inductive Json where
  | null
  | bool (value : Bool)
  | int (value : Int)
  | float (repr : String)
  | str (value : String)
  | arr (items : List Json)
  | obj (items : List (String × Json))

namespace Json

/-- `bool(value)`. -/
def truthy : Json → Bool
  | .null => false
  | .bool value => value
  | .int value => value != 0
  | .float repr => repr != "0.0" && repr != "-0.0"
  | .str value => value != ""
  | .arr items => !items.isEmpty
  | .obj items => !items.isEmpty

mutual

/-- `repr(value)`, for strings that need no escaping. -/
def pyRepr : Json → String
  | .null => "None"
  | .bool value => if value then "True" else "False"
  | .int value => toString value
  | .float repr => repr
  | .str value => "'" ++ value ++ "'"
  | .arr items => "[" ++ reprItems items ++ "]"
  | .obj items => "\x7b" ++ reprFields items ++ "\x7d"

def reprItems : List Json → String
  | [] => ""
  | [item] => pyRepr item
  | item :: rest => pyRepr item ++ ", " ++ reprItems rest

def reprFields : List (String × Json) → String
  | [] => ""
  | [(key, value)] => "'" ++ key ++ "': " ++ pyRepr value
  | (key, value) :: rest => "'" ++ key ++ "': " ++ pyRepr value ++ ", " ++ reprFields rest

end

/-- `str(value)`. -/
def pyStr : Json → String
  | .str value => value
  | value => pyRepr value

/-- `entry.get(key)` of a dict; every other value has no keys. -/
def get (entry : Json) (key : String) : Json :=
  match entry with
  | .obj items => ((items.find? fun item => item.1 == key).map (·.2)).getD .null
  | _ => .null

/-- `str(entry.get(key) or "")`. -/
def getText (entry : Json) (key : String) : String :=
  let value := entry.get key
  if value.truthy then value.pyStr else ""

/-- `for item in (entry.get(key) or [])`: a string iterates over its characters, an
object over its keys; a number is a `TypeError` (`none`). -/
def getIter (entry : Json) (key : String) : Option (List Json) :=
  match entry.get key with
  | .arr items => some items
  | .str text => some (text.toList.map fun c => .str (String.singleton c))
  | .obj items => some (items.map fun item => .str item.1)
  | value => if value.truthy then none else some []

/-- `entry.get(key)` as an optional value: JSON `null` and a missing key are `None`. -/
def getOption (entry : Json) (key : String) : Option Json :=
  match entry.get key with
  | .null => none
  | value => some value

def isObject : Json → Bool
  | .obj _ => true
  | _ => false

end Json

end SherryAgent.Source

/-! ## `json.dumps` -/

namespace SherryAgent.Source.Json

/-- The two lower-case hex digits of a control character. -/
def hexByte (n : Nat) : List Char := [Nat.digitChar (n / 16), Nat.digitChar (n % 16)]

/-- What the encoder writes for a character of a string. -/
def escapeChar (c : Char) : List Char :=
  if c = '"' then ['\\', '"']
  else if c = '\\' then ['\\', '\\']
  else if c = '\n' then ['\\', 'n']
  else if c = '\r' then ['\\', 'r']
  else if c = '\t' then ['\\', 't']
  else if c.toNat = 8 then ['\\', 'b']
  else if c.toNat = 12 then ['\\', 'f']
  else if c.toNat < 0x20 then '\\' :: 'u' :: '0' :: '0' :: hexByte c.toNat
  else [c]

def escape (text : List Char) : List Char := text.flatMap escapeChar

/-- A float whose repr is not a JSON number. -/
def dumpsFloat (repr : String) : String :=
  if repr = "nan" then "NaN"
  else if repr = "inf" then "Infinity"
  else if repr = "-inf" then "-Infinity"
  else repr

def dumpsStr (text : String) : String := "\"" ++ String.ofList (escape text.toList) ++ "\""

mutual

/-- `json.dumps(value, ensure_ascii=False)`. -/
def dumps : Json → String
  | .null => "null"
  | .bool value => if value then "true" else "false"
  | .int value => toString value
  | .float repr => dumpsFloat repr
  | .str value => dumpsStr value
  | .arr items => "[" ++ dumpsItems items ++ "]"
  | .obj items => "\x7b" ++ dumpsFields items ++ "\x7d"

def dumpsItems : List Json → String
  | [] => ""
  | [item] => dumps item
  | item :: rest => dumps item ++ ", " ++ dumpsItems rest

def dumpsFields : List (String × Json) → String
  | [] => ""
  | [(key, value)] => dumpsStr key ++ ": " ++ dumps value
  | (key, value) :: rest => dumpsStr key ++ ": " ++ dumps value ++ ", " ++ dumpsFields rest

end

end SherryAgent.Source.Json
