import SherryAgent.Source.PyText

/-!
# The replay policy of the regression gate

`_safe_argv` of `agent/tools/pub_base/regression_gate.py` and the part of `shlex.split` it runs.
Strings are lists of characters.
-/

namespace SherryAgent.Source.PubBase

abbrev Token := List Char

/-- `str.lower`, the digits of `\d`, and the user's entries of the list setting. -/
structure GateEnv where
  lower : Token → Token
  isDigit : Char → Bool
  setting : List Token := []

/-! ## `shlex.split(command, posix=True)` -/

inductive LexState where
  | between
  | word
  | quoted (quote : Char)
  | escaped (back : Option Char)

/-- The lexer between two characters; `quoted` says that the token had quotes, so it counts even
when it is empty. -/
structure Lexer where
  state : LexState := .between
  token : Token := []
  quoted : Bool := false
  tokens : List Token := []

def lexSpace (c : Char) : Bool := c == ' ' || c == '\t' || c == '\r' || c == '\n'

def lexQuote (c : Char) : Bool := c == '"' || c == Char.ofNat 0x27

/-- The token is handed out, unless it is empty and had no quotes. -/
def Lexer.emit (lexer : Lexer) : Lexer :=
  if lexer.token = [] ∧ lexer.quoted = false then { lexer with state := .between }
  else { tokens := lexer.tokens ++ [lexer.token] }

def Lexer.read (lexer : Lexer) (c : Char) : Lexer :=
  match lexer.state with
  | .between =>
    if lexSpace c then lexer
    else if c = '\\' then { lexer with state := .escaped none }
    else if lexQuote c then { lexer with state := .quoted c }
    else { lexer with state := .word, token := [c] }
  | .word =>
    if lexSpace c then lexer.emit
    else if lexQuote c then { lexer with state := .quoted c }
    else if c = '\\' then { lexer with state := .escaped none }
    else { lexer with token := lexer.token ++ [c] }
  | .quoted quote =>
    if c = quote then { lexer with state := .word, quoted := true }
    else if c = '\\' ∧ quote = '"' then
      { lexer with state := .escaped (some quote), quoted := true }
    else { lexer with token := lexer.token ++ [c], quoted := true }
  | .escaped none => { lexer with state := .word, token := lexer.token ++ [c] }
  | .escaped (some quote) =>
    -- within quotes only the quote and the escape character can be escaped
    let kept := if c ≠ '\\' ∧ c ≠ quote then ['\\', c] else [c]
    { lexer with state := .quoted quote, token := lexer.token ++ kept }

/-- `none` is the `ValueError` of an open quotation or a trailing escape. -/
def shlexSplit (command : List Char) : Option (List Token) :=
  let lexer := command.foldl Lexer.read {}
  match lexer.state with
  | .between => some lexer.tokens
  | .word => some lexer.emit.tokens
  | .quoted _ => none
  | .escaped _ => none

/-! ## The policy -/

/-- `_SHELL_META`. -/
def shellMeta : List Char := [';', '&', '|', '<', '>', Char.ofNat 0x60, '$', '\n', '\r']

/-- `_ALLOWED_EXECUTABLES`. -/
def allowedExecutables : List Token :=
  ["pytest".toList, "py.test".toList, "vitest".toList, "jest".toList, "ruff".toList,
    "eslint".toList, "flake8".toList, "pylint".toList, "basedpyright".toList, "pyright".toList,
    "mypy".toList, "tsc".toList, "prettier".toList, "black".toList, "cargo".toList, "go".toList,
    "npm".toList, "pnpm".toList, "yarn".toList, "npx".toList, "make".toList, "cmake".toList,
    "uv".toList, "python".toList, "python3".toList, "py".toList]

/-- `_PYTHON_MODULES`. -/
def pythonModules : List Token :=
  ["pytest".toList, "ruff".toList, "mypy".toList, "pyright".toList, "basedpyright".toList,
    "unittest".toList]

/-- `_PACKAGE_RUNNERS`. -/
def packageRunners : List Token := ["npm".toList, "pnpm".toList, "yarn".toList]

/-- `_FORMATTERS`. -/
def formatters : List Token := ["black".toList, "prettier".toList, "ruff".toList]

/-- `_READ_ONLY_FLAGS`. -/
def readOnlyFlags : List Token := ["--check".toList, "--diff".toList, "-c".toList]

/-- `_formatter_is_read_only`; the executable stands first in `argv`. -/
def formatterIsReadOnly (executable : Token) (argv : List Token) : Bool :=
  if executable = "ruff".toList ∧ argv[1]? ≠ some "format".toList then true
  else argv.tail.any readOnlyFlags.contains

/-- `Path(token).name` of a POSIX path: the last part that is not empty or a dot. -/
def pathName (token : Token) : Token :=
  ((token.splitOnP (· == '/')).filter fun part => part != [] && part != ['.']).getLastD []

/-- `_executable_name`. -/
def executableName (env : GateEnv) (token : Token) : Token :=
  let name := env.lower (pathName token)
  if ".exe".toList.isSuffixOf name then name.take (name.length - 4) else name

/-- `_get_allowed_executables`. -/
def getAllowedExecutables (env : GateEnv) : List Token :=
  allowedExecutables ++
    (env.setting.map fun name => env.lower (PyText.stripChars PyText.isSpace name)).filter
      (· != [])

/-- `_is_python_executable`. -/
def isPythonExecutable (env : GateEnv) (name : Token) : Bool :=
  ["python".toList, "python3".toList, "py".toList].contains name ||
    ("python3.".toList.isPrefixOf name && name.drop 8 != [] && (name.drop 8).all env.isDigit)

/-- The arguments of an interpreter: `-m` and a module that may be run. -/
def modulePermitted (env : GateEnv) : List Token → Bool
  | flag :: name :: _ => flag == "-m".toList && pythonModules.contains (executableName env name)
  | _ => false

/-- The branches of `_safe_argv` by the first executable. -/
def shapePermitted (env : GateEnv) (executable : Token) (args : List Token) : Bool :=
  let allowed := getAllowedExecutables env
  if isPythonExecutable env executable then modulePermitted env args
  else if !allowed.contains executable then false
  else if executable = "uv".toList then
    match args with
    | sub :: target :: rest =>
      sub == "run".toList &&
        (if isPythonExecutable env (executableName env target) then modulePermitted env rest
        else allowed.contains (executableName env target))
    | _ => false
  else if packageRunners.contains executable then
    match args with
    | sub :: rest =>
      ["test".toList, "run".toList, "exec".toList, "x".toList].contains sub &&
        (if ["exec".toList, "x".toList].contains sub then
          match rest with
          | target :: _ => allowed.contains (executableName env target)
          | [] => false
        else true)
    | [] => false
  else if executable = "npx".toList then
    match args with
    | target :: _ => allowed.contains (executableName env target)
    | [] => false
  else true

/-- A formatter at the front of these arguments would rewrite files. -/
def formatterRewrites (env : GateEnv) : List Token → Bool
  | tool :: args =>
    formatters.contains (executableName env tool) &&
      !formatterIsReadOnly (executableName env tool) (tool :: args)
  | [] => false

/-- The three checks at the end of `_safe_argv`. -/
def rewriteSeen (env : GateEnv) (executable : Token) (argv : List Token) : Bool :=
  formatterRewrites env argv ||
    (packageRunners.contains executable && formatterRewrites env (argv.drop 2)) ||
    (executable == "npx".toList && formatterRewrites env (argv.drop 1))

/-- `_safe_argv`. -/
def safeArgv (env : GateEnv) (command : List Char) : Option (List Token) :=
  if PyText.stripChars PyText.isSpace command = [] ∨ command.any shellMeta.contains then none
  else
    match shlexSplit command with
    | none => none
    | some [] => none
    | some (first :: args) =>
      let executable := executableName env first
      if !shapePermitted env executable args then none
      else if rewriteSeen env executable (first :: args) then none
      else some (first :: args)

end SherryAgent.Source.PubBase
