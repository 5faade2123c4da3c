import SherryAgent.Source.PubBase.RegressionGate

/-!
# Replayed verification commands

- `safe_replay_iff`: an accepted command runs an allowed tool and rewrites nothing, unless a
  formatter without a report-only flag stands behind `uv run` or an interpreter, or a second wrapper
  hides the tool
- `uv_formatter_replayed`: such a command is accepted
-/

namespace SherryAgent.Guarantees.ReplayPolicy

open SherryAgent.Source SherryAgent.Source.PubBase

variable {env : GateEnv} {command : List Char} {executable first tool name : Token}
  {argv args : List Token}

/-! ## The effective tool -/

/-- A wrapper of two words: `python -m`, `uv run`, `npm exec` and its like. -/
def wraps (env : GateEnv) (first sub : Token) : Bool :=
  let name := executableName env first
  (isPythonExecutable env name && sub == "-m".toList) ||
    (name == "uv".toList && sub == "run".toList) ||
    (packageRunners.contains name && ["exec".toList, "x".toList].contains sub)

/-- The tool behind every wrapper, and its arguments. A wrapper with nothing behind it is a tool. -/
def effective (env : GateEnv) : List Token → List Token
  | first :: sub :: rest =>
    if wraps env first sub && !rest.isEmpty then effective env rest
    else if executableName env first = "npx".toList then effective env (sub :: rest)
    else first :: sub :: rest
  | argv => argv

/-- The tool is a formatter: `black`, `prettier` or `ruff format`. -/
def Formats (name : Token) (args : List Token) : Prop :=
  name = "black".toList ∨ name = "prettier".toList ∨
    (name = "ruff".toList ∧ args.head? = some "format".toList)

/-- One of the arguments makes a formatter report only. -/
def Reports (args : List Token) : Prop := ∃ flag ∈ args, flag ∈ readOnlyFlags

/-- What the command runs is on the allowlist or an allowed module, and a formatter only reports. -/
structure Harmless (env : GateEnv) (tool : Token) (args : List Token) : Prop where
  reports : Formats (executableName env tool) args → Reports args
  allowed : executableName env tool ∈ getAllowedExecutables env ∨
    executableName env tool ∈ pythonModules

/-- Every argv the command is accepted as has a harmless effective tool. -/
def SafeReplay (env : GateEnv) (command : List Char) : Prop :=
  ∀ argv, safeArgv env command = some argv →
    ∃ tool args, effective env argv = tool :: args ∧ Harmless env tool args

/-- The wrappers whose branches ask of what they run only whether it is on the allowlist. -/
inductive Fronts (env : GateEnv) : List Token → List Token → Prop
  | uvRun (uv target : Token) (rest : List Token) :
      executableName env uv = "uv".toList →
      isPythonExecutable env (executableName env target) = false →
      Fronts env (uv :: "run".toList :: target :: rest) (target :: rest)
  | packageRunner (runner sub target : Token) (rest : List Token) :
      executableName env runner ∈ packageRunners → sub = "exec".toList ∨ sub = "x".toList →
      Fronts env (runner :: sub :: target :: rest) (target :: rest)
  | npx (npx target : Token) (rest : List Token) : executableName env npx = "npx".toList →
      Fronts env (npx :: target :: rest) (target :: rest)

/-- The tool stands behind a second wrapper that is on the allowlist. -/
def Hidden (env : GateEnv) (argv : List Token) (tool : Token) (args : List Token) : Prop :=
  ∃ wrapper rest, Fronts env argv (wrapper :: rest) ∧
    executableName env wrapper ∈ getAllowedExecutables env ∧
    effective env (wrapper :: rest) = tool :: args ∧ tool :: args ≠ wrapper :: rest

/-- What the checks do not look at: a formatter that would rewrite behind `uv run` or an
interpreter, and whatever stands behind a second wrapper. -/
inductive Unseen (env : GateEnv) : List Token → Prop
  | uvRun (uv tool : Token) (args : List Token) :
      executableName env uv = "uv".toList → Formats (executableName env tool) args →
      ¬Reports args → Unseen env (uv :: "run".toList :: tool :: args)
  | interpreter (python tool : Token) (args : List Token) :
      isPythonExecutable env (executableName env python) = true →
      executableName env tool = "ruff".toList → args.head? = some "format".toList →
      ¬Reports args → Unseen env (python :: "-m".toList :: tool :: args)
  | uvInterpreter (uv python tool : Token) (args : List Token) :
      executableName env uv = "uv".toList →
      isPythonExecutable env (executableName env python) = true →
      executableName env tool = "ruff".toList → args.head? = some "format".toList →
      ¬Reports args → Unseen env (uv :: "run".toList :: python :: "-m".toList :: tool :: args)
  | hiddenFormatter (argv : List Token) (tool : Token) (args : List Token) :
      Hidden env argv tool args → Formats (executableName env tool) args → ¬Reports args →
      Unseen env argv
  | hiddenTool (argv : List Token) (tool : Token) (args : List Token) :
      Hidden env argv tool args → executableName env tool ∉ getAllowedExecutables env →
      executableName env tool ∉ pythonModules → Unseen env argv

/-- The command has no shell operators and splits into these tokens. -/
def SplitsInto (command : List Char) (argv : List Token) : Prop :=
  ¬(PyText.stripChars PyText.isSpace command = [] ∨ command.any shellMeta.contains = true) ∧
    shlexSplit command = some argv

/-! ## The checks -/

theorem formatterRewrites_iff :
    formatterRewrites env (tool :: args) = true ↔
      Formats (executableName env tool) args ∧ ¬Reports args := by
  have reports : args.any readOnlyFlags.contains = true ↔ Reports args := by
    rw [List.any_eq_true]
    simp [Reports]
  unfold formatterRewrites formatterIsReadOnly Formats
  rw [← reports, Bool.and_eq_true, List.contains_iff_mem]
  simp only [formatters, List.mem_cons, List.not_mem_nil, or_false, List.getElem?_cons_succ,
    ← List.head?_eq_getElem?, List.tail_cons, Bool.not_eq_true']
  generalize executableName env tool = name
  have exclusive : name = "ruff".toList → ¬(name = "black".toList ∨ name = "prettier".toList) := by
    intro ruff
    subst ruff
    decide
  generalize "black".toList = black at exclusive ⊢
  generalize "prettier".toList = prettier at exclusive ⊢
  generalize "ruff".toList = ruff at exclusive ⊢
  generalize some "format".toList = format
  by_cases checks : name = ruff ∧ args.head? ≠ format
  · rw [if_pos checks]
    grind
  · rw [if_neg checks]
    grind

theorem python_plain (listed : name ∈ formatters ++ packageRunners ++ ["npx".toList, "uv".toList]) :
    isPythonExecutable env name = false := by
  simp only [formatters, packageRunners, List.cons_append, List.nil_append, List.mem_cons,
    List.not_mem_nil, or_false] at listed
  obtain rfl | rfl | rfl | rfl | rfl | rfl | rfl | rfl := listed <;> rfl

theorem formatter_of_formats (formats : Formats name args) : name ∈ formatters := by
  obtain rfl | rfl | ruff := formats
  · decide
  · decide
  · rw [ruff.1]
    decide

theorem allowed_default (listed : name ∈ allowedExecutables) :
    name ∈ getAllowedExecutables env := List.mem_append_left _ listed

theorem allowed_formatter (listed : name ∈ formatters) : name ∈ getAllowedExecutables env := by
  apply allowed_default
  simp only [formatters, List.mem_cons, List.not_mem_nil, or_false] at listed
  obtain rfl | rfl | rfl := listed <;> decide

theorem modulePermitted_iff : modulePermitted env args = true ↔
    ∃ tool more, args = "-m".toList :: tool :: more ∧ executableName env tool ∈ pythonModules := by
  constructor
  · intro permitted
    cases args with
    | nil => cases permitted
    | cons flag rest =>
      cases rest with
      | nil => cases permitted
      | cons tool more =>
        rw [modulePermitted, Bool.and_eq_true, beq_iff_eq, List.contains_iff_mem] at permitted
        obtain ⟨rfl, listed⟩ := permitted
        exact ⟨tool, more, rfl, listed⟩
  · intro shape
    obtain ⟨tool, more, rfl, listed⟩ := shape
    rw [modulePermitted, Bool.and_eq_true, beq_iff_eq, List.contains_iff_mem]
    exact ⟨rfl, listed⟩

/-- Of the modules only `ruff format` formats. -/
theorem ruff_of_module (listed : name ∈ pythonModules) (formats : Formats name args) :
    name = "ruff".toList ∧ args.head? = some "format".toList := by
  obtain rfl | rfl | ruff := formats
  · exact absurd listed (by decide)
  · exact absurd listed (by decide)
  · exact ruff

/-! ## Stripping -/

/-- The names that are wrappers for some second word, interpreters apart. -/
def wrapperNames : List Token := packageRunners ++ ["npx".toList, "uv".toList]

theorem wraps_plain (plain : isPythonExecutable env (executableName env first) = false)
    (unwrapped : executableName env first ∉ packageRunners ++ ["uv".toList]) (sub : Token) :
    wraps env first sub = false := by
  rw [List.mem_append, List.mem_singleton, not_or] at unwrapped
  unfold wraps
  dsimp only
  rw [plain, beq_eq_false_iff_ne.mpr unwrapped.2,
    Bool.eq_false_iff.mpr fun inside => unwrapped.1 (List.contains_iff_mem.mp inside)]
  rfl

theorem effective_plain (plain : isPythonExecutable env (executableName env tool) = false)
    (unwrapped : executableName env tool ∉ wrapperNames) :
    effective env (tool :: args) = tool :: args := by
  rw [wrapperNames, List.mem_append, List.mem_cons, List.mem_singleton, not_or, not_or]
    at unwrapped
  cases args with
  | nil => rfl
  | cons sub rest =>
    rw [effective, wraps_plain plain (by simpa using ⟨unwrapped.1, unwrapped.2.2⟩) sub,
      Bool.false_and, if_neg Bool.false_ne_true, if_neg unwrapped.2.1]

theorem effective_formatter (listed : executableName env tool ∈ formatters) :
    effective env (tool :: args) = tool :: args := by
  apply effective_plain (python_plain (List.mem_append_left _ (List.mem_append_left _ listed)))
  simp only [formatters, List.mem_cons, List.not_mem_nil, or_false] at listed
  obtain same | same | same := listed <;> rw [same] <;> decide

theorem effective_module (listed : executableName env tool ∈ pythonModules) :
    effective env (tool :: args) = tool :: args := by
  simp only [pythonModules, List.mem_cons, List.not_mem_nil, or_false] at listed
  apply effective_plain
  · obtain same | same | same | same | same | same := listed <;> rw [same] <;> rfl
  · obtain same | same | same | same | same | same := listed <;> rw [same] <;> decide

theorem effective_wraps {sub : Token} (wrapped : wraps env first sub = true) :
    effective env (first :: sub :: tool :: args) = effective env (tool :: args) := by
  rw [effective, wrapped]
  rfl

theorem wraps_interpreter (python : isPythonExecutable env (executableName env first) = true) :
    wraps env first "-m".toList = true := by
  rw [wraps, python]
  rfl

theorem wraps_uv (named : executableName env first = "uv".toList) :
    wraps env first "run".toList = true := by
  rw [wraps, named]
  rfl

/-- Behind those wrappers the next command is stripped in turn. -/
theorem effective_fronts {inner : List Token} (fronts : Fronts env argv inner) :
    effective env argv = effective env inner := by
  cases fronts with
  | uvRun uv target rest named plain => exact effective_wraps (wraps_uv named)
  | packageRunner runner sub target rest listed runs =>
    apply effective_wraps
    rw [wraps, List.contains_iff_mem.mpr listed]
    obtain rfl | rfl := runs <;> simp
  | npx npx target rest named =>
    have plain : isPythonExecutable env (executableName env npx) = false := by
      rw [named]
      exact python_plain (by decide)
    rw [effective, wraps_plain plain (by rw [named]; decide), Bool.false_and,
      if_neg Bool.false_ne_true, if_pos named]

theorem effective_ne_nil (something : argv ≠ []) : effective env argv ≠ [] := by
  fun_induction effective env argv with
  | case1 first sub rest wrapped ih =>
    apply ih
    intro empty
    rw [empty] at wrapped
    simp at wrapped
  | case2 first sub rest wrapped named ih => exact ih (List.cons_ne_nil _ _)
  | case3 first sub rest wrapped other => exact List.cons_ne_nil _ _
  | case4 argv short => exact something

/-! ## Acceptance -/

theorem harmless_of_unseen (allowed : executableName env tool ∈ getAllowedExecutables env ∨
      executableName env tool ∈ pythonModules)
    (seen : ¬(Formats (executableName env tool) args ∧ ¬Reports args)) :
    Harmless env tool args := by
  refine ⟨?_, allowed⟩
  intro formats
  by_contra silent
  exact seen ⟨formats, silent⟩

/-! ## The branches -/

/-- The shape and the last checks pass. -/
structure Accepted (env : GateEnv) (first : Token) (args : List Token) : Prop where
  shape : shapePermitted env (executableName env first) args = true
  unseen : rewriteSeen env (executableName env first) (first :: args) = false

theorem safeArgv_iff : safeArgv env command = some argv ↔
    ∃ first args, argv = first :: args ∧ SplitsInto command argv ∧ Accepted env first args := by
  unfold safeArgv SplitsInto
  split
  · rename_i refused
    constructor
    · intro accepted
      cases accepted
    · intro shape
      obtain ⟨-, -, -, ⟨plain, -⟩, -⟩ := shape
      exact absurd refused plain
  · rename_i plain
    cases split_into : shlexSplit command with
    | none => simp
    | some tokens =>
      cases tokens with
      | nil =>
        simp only [Option.some.injEq]
        constructor
        · intro none_there
          cases none_there
        · intro shape
          obtain ⟨first, args, rfl, ⟨-, same⟩, -⟩ := shape
          cases same
      | cons first args =>
        dsimp only
        constructor
        · intro accepted
          split at accepted
          · cases accepted
          · rename_i shape
            split at accepted
            · cases accepted
            · rename_i unseen
              have same := Option.some.inj accepted
              subst same
              exact ⟨first, args, rfl, ⟨plain, rfl⟩, by simpa using shape, by simpa using unseen⟩
        · intro shape
          obtain ⟨head, rest, rfl, ⟨-, same⟩, accepted⟩ := shape
          obtain ⟨rfl, rfl⟩ := List.cons.inj (Option.some.inj same)
          rw [if_neg (by simp [accepted.shape]), if_neg (by simp [accepted.unseen])]

/-- A command behind a wrapper: the tool itself, which was looked at, or another wrapper. -/
theorem harmless_fronts {rest : List Token} (fronts : Fronts env argv (tool :: rest))
    (listed : executableName env tool ∈ getAllowedExecutables env)
    (looked : ¬(Formats (executableName env tool) rest ∧ ¬Reports rest))
    (seen : ¬Unseen env argv) :
    ∃ tool args, effective env argv = tool :: args ∧ Harmless env tool args := by
  rw [effective_fronts fronts]
  by_cases same : effective env (tool :: rest) = tool :: rest
  · exact ⟨tool, rest, same, harmless_of_unseen (.inl listed) looked⟩
  · obtain ⟨inner, args, shown⟩ :=
      List.exists_cons_of_ne_nil (@effective_ne_nil env _ (List.cons_ne_nil tool rest))
    have hidden : Hidden env argv inner args := ⟨tool, rest, fronts, listed, shown, shown ▸ same⟩
    refine ⟨inner, args, shown, harmless_of_unseen ?_ ?_⟩
    · by_contra unlisted
      rw [not_or] at unlisted
      exact seen (.hiddenTool argv inner args hidden unlisted.1 unlisted.2)
    · exact fun rewrites => seen (.hiddenFormatter argv inner args hidden rewrites.1 rewrites.2)

/-- A module behind an interpreter. -/
theorem harmless_interpreter (python : isPythonExecutable env (executableName env first) = true)
    (permitted : modulePermitted env args = true) (seen : ¬Unseen env (first :: args)) :
    ∃ tool more, effective env (first :: args) = tool :: more ∧ Harmless env tool more := by
  obtain ⟨tool, more, rfl, listed⟩ := modulePermitted_iff.mp permitted
  refine ⟨tool, more, ?_, harmless_of_unseen (.inr listed) ?_⟩
  · rw [effective_wraps (wraps_interpreter python), effective_module listed]
  · intro rewrites
    obtain ⟨ruff, format⟩ := ruff_of_module listed rewrites.1
    exact seen (.interpreter first tool more python ruff format rewrites.2)

/-- The branch of `uv`. -/
theorem shapePermitted_uv : shapePermitted env "uv".toList args = true ↔
    ∃ target rest, args = "run".toList :: target :: rest ∧
      (if isPythonExecutable env (executableName env target) = true then
        modulePermitted env rest = true
      else executableName env target ∈ getAllowedExecutables env) := by
  have plain : isPythonExecutable env "uv".toList = false := python_plain (by decide)
  have listed : (getAllowedExecutables env).contains "uv".toList = true :=
    List.contains_iff_mem.mpr (allowed_default (by decide))
  unfold shapePermitted
  dsimp only
  rw [if_neg (by rw [plain]; decide), if_neg (by rw [listed]; decide), if_pos rfl]
  constructor
  · intro permitted
    cases args with
    | nil => cases permitted
    | cons sub rest =>
      cases rest with
      | nil => cases permitted
      | cons target rest =>
        rw [Bool.and_eq_true, beq_iff_eq] at permitted
        obtain ⟨rfl, permitted⟩ := permitted
        refine ⟨target, rest, rfl, ?_⟩
        split at permitted
        · rename_i python
          rwa [if_pos python]
        · rename_i other
          rwa [if_neg other, ← List.contains_iff_mem]
  · intro shape
    obtain ⟨target, rest, rfl, permitted⟩ := shape
    dsimp only
    rw [Bool.and_eq_true, beq_iff_eq]
    refine ⟨rfl, ?_⟩
    split at permitted
    · rename_i python
      rwa [if_pos python]
    · rename_i other
      rwa [if_neg other, List.contains_iff_mem]

theorem harmless_uv (named : executableName env first = "uv".toList)
    (shape : shapePermitted env "uv".toList args = true) (seen : ¬Unseen env (first :: args)) :
    ∃ tool more, effective env (first :: args) = tool :: more ∧ Harmless env tool more := by
  obtain ⟨target, rest, rfl, permitted⟩ := shapePermitted_uv.mp shape
  by_cases python : isPythonExecutable env (executableName env target) = true
  · rw [if_pos python] at permitted
    obtain ⟨tool, more, rfl, listed⟩ := modulePermitted_iff.mp permitted
    refine ⟨tool, more, ?_, harmless_of_unseen (.inr listed) ?_⟩
    · rw [effective_wraps (wraps_uv named), effective_wraps (wraps_interpreter python),
        effective_module listed]
    · intro rewrites
      obtain ⟨ruff, format⟩ := ruff_of_module listed rewrites.1
      exact seen (.uvInterpreter first target tool more named python ruff format rewrites.2)
  · rw [if_neg python] at permitted
    apply harmless_fronts (.uvRun first target rest named (Bool.not_eq_true _ ▸ python)) permitted
    · intro rewrites
      exact seen (.uvRun first target rest named rewrites.1 rewrites.2)
    · exact seen

theorem runner_plain (runner : executable ∈ packageRunners) :
    isPythonExecutable env executable = false ∧ executable ∈ getAllowedExecutables env ∧
      executable ∉ formatters ++ ["npx".toList, "uv".toList] := by
  refine ⟨python_plain (List.mem_append_left _ (List.mem_append_right _ runner)), ?_, ?_⟩
  · apply allowed_default
    simp only [packageRunners, List.mem_cons, List.not_mem_nil, or_false] at runner
    obtain rfl | rfl | rfl := runner <;> decide
  · simp only [packageRunners, List.mem_cons, List.not_mem_nil, or_false] at runner
    obtain rfl | rfl | rfl := runner <;> decide

/-- The branch of the package runners. -/
theorem shapePermitted_runner (runner : executable ∈ packageRunners)
    (shape : shapePermitted env executable args = true) :
    ∃ sub rest, args = sub :: rest ∧ (sub = "exec".toList ∨ sub = "x".toList →
      ∃ target more, rest = target :: more ∧
        executableName env target ∈ getAllowedExecutables env) := by
  obtain ⟨plain, -, other⟩ := @runner_plain env _ runner
  have different : executable ≠ "uv".toList := by
    intro same
    rw [same] at other
    exact other (by decide)
  unfold shapePermitted at shape
  dsimp only at shape
  rw [if_neg (by rw [plain]; decide)] at shape
  by_cases listed : (getAllowedExecutables env).contains executable = true
  · rw [if_neg (by rw [listed]; decide), if_neg different,
      if_pos (List.contains_iff_mem.mpr runner)] at shape
    cases args with
    | nil => cases shape
    | cons sub rest =>
      refine ⟨sub, rest, rfl, ?_⟩
      intro runs
      dsimp only at shape
      have executes : ["exec".toList, "x".toList].contains sub = true := by
        rw [List.contains_iff_mem]
        obtain rfl | rfl := runs <;> decide
      rw [if_pos executes, Bool.and_eq_true] at shape
      cases rest with
      | nil => cases shape.2
      | cons target more => exact ⟨target, more, rfl, List.contains_iff_mem.mp shape.2⟩
  · rw [if_pos (by simpa using listed)] at shape
    cases shape

theorem harmless_runner (runner : executableName env first ∈ packageRunners)
    (accepted : Accepted env first args) (seen : ¬Unseen env (first :: args)) :
    ∃ tool more, effective env (first :: args) = tool :: more ∧ Harmless env tool more := by
  obtain ⟨sub, rest, rfl, runs⟩ := shapePermitted_runner runner accepted.shape
  by_cases executes : sub = "exec".toList ∨ sub = "x".toList
  · obtain ⟨target, more, rfl, listed⟩ := runs executes
    apply harmless_fronts (.packageRunner first sub target more runner executes) listed
    · intro rewrites
      have unseen := accepted.unseen
      unfold rewriteSeen at unseen
      simp only [Bool.or_eq_false_iff, Bool.and_eq_false_iff] at unseen
      have looked := unseen.1.2.resolve_left
        (by rw [List.contains_iff_mem.mpr runner]; decide)
      have found : formatterRewrites env (target :: more) = true :=
        formatterRewrites_iff.mpr rewrites
      rw [List.drop_succ_cons, List.drop_succ_cons, List.drop_zero, found] at looked
      cases looked
    · exact seen
  · obtain ⟨plain, listed, other⟩ := @runner_plain env _ runner
    simp only [List.mem_append, List.mem_cons, List.not_mem_nil, or_false, not_or] at other
    have unwrapped : wraps env first sub = false := by
      rw [not_or] at executes
      unfold wraps
      simp only [plain, beq_eq_false_iff_ne.mpr other.2.2, Bool.false_and, Bool.false_or]
      rw [Bool.and_eq_false_iff]
      apply Or.inr
      rw [← Bool.not_eq_true, List.contains_iff_mem]
      simpa using executes
    refine ⟨first, sub :: rest, ?_, harmless_of_unseen (.inl listed) ?_⟩
    · rw [effective, unwrapped, Bool.false_and, if_neg Bool.false_ne_true, if_neg other.2.1]
    · exact fun rewrites => other.1 (formatter_of_formats rewrites.1)

/-- The branch of `npx`. -/
theorem shapePermitted_npx (shape : shapePermitted env "npx".toList args = true) :
    ∃ target more, args = target :: more ∧
      executableName env target ∈ getAllowedExecutables env := by
  have plain : isPythonExecutable env "npx".toList = false := python_plain (by decide)
  have listed : (getAllowedExecutables env).contains "npx".toList = true :=
    List.contains_iff_mem.mpr (allowed_default (by decide))
  unfold shapePermitted at shape
  dsimp only at shape
  rw [if_neg (by rw [plain]; decide), if_neg (by rw [listed]; decide), if_neg (by decide),
    if_neg (by decide), if_pos rfl] at shape
  cases args with
  | nil => cases shape
  | cons target more => exact ⟨target, more, rfl, List.contains_iff_mem.mp shape⟩

theorem harmless_npx (named : executableName env first = "npx".toList)
    (accepted : Accepted env first args) (seen : ¬Unseen env (first :: args)) :
    ∃ tool more, effective env (first :: args) = tool :: more ∧ Harmless env tool more := by
  have shape := accepted.shape
  have unseen := accepted.unseen
  rw [named] at shape unseen
  obtain ⟨target, more, rfl, listed⟩ := shapePermitted_npx shape
  apply harmless_fronts (.npx first target more named) listed
  · intro rewrites
    unfold rewriteSeen at unseen
    rw [Bool.or_eq_false_iff, Bool.and_eq_false_iff] at unseen
    have looked := unseen.2.resolve_left (by decide)
    have found : formatterRewrites env (target :: more) = true :=
      formatterRewrites_iff.mpr rewrites
    rw [List.drop_succ_cons, List.drop_zero, found] at looked
    cases looked
  · exact seen

/-- A command that starts with the tool itself. -/
theorem harmless_bare (plain : isPythonExecutable env (executableName env first) = false)
    (notUv : executableName env first ≠ "uv".toList)
    (notRunner : executableName env first ∉ packageRunners)
    (notNpx : executableName env first ≠ "npx".toList) (accepted : Accepted env first args) :
    ∃ tool more, effective env (first :: args) = tool :: more ∧ Harmless env tool more := by
  refine ⟨first, args, effective_plain plain ?_, harmless_of_unseen (.inl ?_) ?_⟩
  · rw [wrapperNames, List.mem_append, List.mem_cons, List.mem_singleton, not_or, not_or]
    exact ⟨notRunner, notNpx, notUv⟩
  · have shape := accepted.shape
    unfold shapePermitted at shape
    dsimp only at shape
    rw [if_neg (by rw [plain]; decide)] at shape
    by_contra unlisted
    rw [if_pos (by simpa using unlisted)] at shape
    cases shape
  · intro rewrites
    have unseen := accepted.unseen
    unfold rewriteSeen at unseen
    rw [formatterRewrites_iff.mpr rewrites] at unseen
    cases unseen

theorem harmless_of_accepted (accepted : Accepted env first args)
    (seen : ¬Unseen env (first :: args)) :
    ∃ tool more, effective env (first :: args) = tool :: more ∧ Harmless env tool more := by
  by_cases python : isPythonExecutable env (executableName env first) = true
  · have shape := accepted.shape
    unfold shapePermitted at shape
    dsimp only at shape
    rw [if_pos python] at shape
    exact harmless_interpreter python shape seen
  · by_cases uv : executableName env first = "uv".toList
    · have shape := accepted.shape
      rw [uv] at shape
      exact harmless_uv uv shape seen
    · by_cases runner : executableName env first ∈ packageRunners
      · exact harmless_runner runner accepted seen
      · by_cases npx : executableName env first = "npx".toList
        · exact harmless_npx npx accepted seen
        · exact harmless_bare (Bool.not_eq_true _ ▸ python) uv runner npx accepted

/-! ## The commands that go unseen -/

theorem formatterRewrites_other (other : executableName env tool ∉ formatters) :
    formatterRewrites env (tool :: args) = false := by
  rw [formatterRewrites,
    Bool.eq_false_iff.mpr fun inside => other (List.contains_iff_mem.mp inside), Bool.false_and]

/-- The last checks look at nothing behind `uv` and the interpreters. -/
theorem rewriteSeen_other (other : executable ∉ formatters) (notRunner : executable ∉ packageRunners)
    (notNpx : executable ≠ "npx".toList) (named : executableName env first = executable) :
    rewriteSeen env executable (first :: args) = false := by
  rw [rewriteSeen, formatterRewrites_other (by rwa [named]),
    Bool.eq_false_iff.mpr fun inside => notRunner (List.contains_iff_mem.mp inside),
    beq_eq_false_iff_ne.mpr notNpx]
  rfl

theorem rewriteSeen_uv (named : executableName env first = "uv".toList) :
    rewriteSeen env (executableName env first) (first :: args) = false :=
  rewriteSeen_other (by rw [named]; decide) (by rw [named]; decide) (by rw [named]; decide) rfl

theorem rewriteSeen_interpreter
    (python : isPythonExecutable env (executableName env first) = true) :
    rewriteSeen env (executableName env first) (first :: args) = false := by
  have absent : executableName env first ∉
      formatters ++ packageRunners ++ ["npx".toList, "uv".toList] := by
    intro listed
    rw [python_plain listed] at python
    cases python
  simp only [List.mem_append, not_or, List.mem_cons] at absent
  exact rewriteSeen_other absent.1.1 absent.1.2 absent.2.1 rfl

/-- What another wrapper is behind is no formatter. -/
theorem formatter_of_stripped {rest : List Token}
    (stripped : effective env (tool :: rest) ≠ tool :: rest) :
    executableName env tool ∉ formatters :=
  fun listed => stripped (effective_formatter listed)

/-- A command with a second wrapper is accepted. -/
theorem accepted_nested {rest : List Token} (fronts : Fronts env argv (tool :: rest))
    (listed : executableName env tool ∈ getAllowedExecutables env)
    (other : executableName env tool ∉ formatters) :
    ∃ first args, argv = first :: args ∧ Accepted env first args := by
  have looked : formatterRewrites env (tool :: rest) = false := formatterRewrites_other other
  cases fronts with
  | uvRun uv target rest named plain =>
    refine ⟨uv, _, rfl, ?_, rewriteSeen_uv named⟩
    rw [named, shapePermitted_uv]
    refine ⟨tool, rest, rfl, ?_⟩
    rwa [if_neg (by rw [plain]; decide)]
  | packageRunner runner sub target rest among executes =>
    obtain ⟨plain, permitted, different⟩ := @runner_plain env _ among
    simp only [List.mem_append, List.mem_cons, List.not_mem_nil, or_false, not_or] at different
    refine ⟨runner, _, rfl, ?_, ?_⟩
    · unfold shapePermitted
      dsimp only
      rw [if_neg (by rw [plain]; decide), if_neg (by simpa using permitted),
        if_neg different.2.2, if_pos (List.contains_iff_mem.mpr among),
        List.contains_iff_mem.mpr listed]
      obtain rfl | rfl := executes <;> decide
    · rw [rewriteSeen, formatterRewrites_other different.1, List.drop_succ_cons,
        List.drop_succ_cons, List.drop_zero, looked, beq_eq_false_iff_ne.mpr different.2.1,
        Bool.and_false]
      rfl
  | npx npx target rest named =>
    have plain : isPythonExecutable env "npx".toList = false := python_plain (by decide)
    have permitted : (getAllowedExecutables env).contains "npx".toList = true :=
      List.contains_iff_mem.mpr (allowed_default (by decide))
    refine ⟨npx, _, rfl, ?_, ?_⟩
    · unfold shapePermitted
      dsimp only
      rw [named, if_neg (by rw [plain]; decide), if_neg (by rw [permitted]; decide),
        if_neg (by decide), if_neg (by decide), if_pos rfl]
      exact List.contains_iff_mem.mpr listed
    · have notRunner : packageRunners.contains "npx".toList = false := by decide
      rw [rewriteSeen, formatterRewrites_other (by rw [named]; decide), named, notRunner,
        Bool.false_and, List.drop_succ_cons, List.drop_zero, looked, Bool.and_false]
      rfl

theorem hidden_accepted (hidden : Hidden env argv tool args) :
    ∃ first behind, argv = first :: behind ∧ Accepted env first behind ∧
      effective env argv = tool :: args := by
  obtain ⟨wrapper, rest, fronts, listed, shown, stripped⟩ := hidden
  rw [← shown] at stripped
  obtain ⟨first, behind, rfl, accepted⟩ :=
    accepted_nested fronts listed (formatter_of_stripped stripped)
  exact ⟨first, behind, rfl, accepted, by rw [effective_fronts fronts, shown]⟩

/-- Such a command is accepted, and its tool is harmful. -/
theorem unseen_replayed (unseen : Unseen env argv) :
    ∃ first args, argv = first :: args ∧ Accepted env first args ∧
      ∃ tool more, effective env argv = tool :: more ∧ ¬Harmless env tool more := by
  cases unseen with
  | uvRun uv tool args named formats silent =>
    have formatter := formatter_of_formats formats
    have other : isPythonExecutable env (executableName env tool) = false :=
      python_plain (List.mem_append_left _ (List.mem_append_left _ formatter))
    refine ⟨uv, _, rfl, ⟨?_, rewriteSeen_uv named⟩, tool, args, ?_,
      fun harmless => silent (harmless.reports formats)⟩
    · rw [named, shapePermitted_uv]
      refine ⟨tool, args, rfl, ?_⟩
      rw [if_neg (by rw [other]; decide)]
      exact allowed_formatter formatter
    · rw [effective_wraps (wraps_uv named), effective_formatter formatter]
  | interpreter python tool args interpreted ruff format silent =>
    have listed : executableName env tool ∈ pythonModules := by
      rw [ruff]
      decide
    refine ⟨python, _, rfl, ⟨?_, rewriteSeen_interpreter interpreted⟩, tool, args, ?_,
      fun harmless => silent (harmless.reports (.inr (.inr ⟨ruff, format⟩)))⟩
    · unfold shapePermitted
      dsimp only
      rw [if_pos interpreted, modulePermitted_iff]
      exact ⟨tool, args, rfl, listed⟩
    · rw [effective_wraps (wraps_interpreter interpreted), effective_module listed]
  | uvInterpreter uv python tool args named interpreted ruff format silent =>
    have listed : executableName env tool ∈ pythonModules := by
      rw [ruff]
      decide
    refine ⟨uv, _, rfl, ⟨?_, rewriteSeen_uv named⟩, tool, args, ?_,
      fun harmless => silent (harmless.reports (.inr (.inr ⟨ruff, format⟩)))⟩
    · rw [named, shapePermitted_uv]
      refine ⟨python, _, rfl, ?_⟩
      rw [if_pos interpreted, modulePermitted_iff]
      exact ⟨tool, args, rfl, listed⟩
    · rw [effective_wraps (wraps_uv named), effective_wraps (wraps_interpreter interpreted),
        effective_module listed]
  | hiddenFormatter argv tool args hidden formats silent =>
    obtain ⟨first, behind, rfl, accepted, tooled⟩ := hidden_accepted hidden
    exact ⟨first, behind, rfl, accepted, tool, args, tooled,
      fun harmless => silent (harmless.reports formats)⟩
  | hiddenTool argv tool args hidden unlisted other =>
    obtain ⟨first, behind, rfl, accepted, tooled⟩ := hidden_accepted hidden
    exact ⟨first, behind, rfl, accepted, tool, args, tooled,
      fun harmless => harmless.allowed.elim unlisted other⟩

/-- A command is replayed safely exactly when it is none of those. -/
theorem safe_replay_iff (env : GateEnv) (command : List Char) :
    SafeReplay env command ↔ ∀ argv, SplitsInto command argv → ¬Unseen env argv := by
  constructor
  · intro safe argv splits unseen
    obtain ⟨first, args, rfl, accepted, tool, more, tooled, harmful⟩ := unseen_replayed unseen
    obtain ⟨other, others, shown, harmless⟩ :=
      safe _ (safeArgv_iff.mpr ⟨first, args, rfl, splits, accepted⟩)
    rw [tooled] at shown
    obtain ⟨rfl, rfl⟩ := List.cons.inj shown
    exact harmful harmless
  · intro seen argv accepted
    obtain ⟨first, args, rfl, splits, accepted⟩ := safeArgv_iff.mp accepted
    exact harmless_of_accepted accepted (seen _ splits)

/-- The default environment, for ASCII names. -/
def asciiEnv : GateEnv := { lower := fun name => name.map Char.toLower, isDigit := Char.isDigit }

/-- `uv run black .` would rewrite the tree. -/
theorem uv_formatter_replayed : ¬∀ env command, SafeReplay env command := by
  intro safe
  have accepted : safeArgv asciiEnv "uv run black .".toList =
      some ["uv".toList, "run".toList, "black".toList, ".".toList] := by decide
  obtain ⟨tool, args, shown, harmless⟩ := safe asciiEnv _ _ accepted
  have tooled : effective asciiEnv ["uv".toList, "run".toList, "black".toList, ".".toList] =
      ["black".toList, ".".toList] := by decide
  rw [tooled] at shown
  obtain ⟨rfl, rfl⟩ := List.cons.inj shown
  obtain ⟨flag, member, reports⟩ := harmless.reports (.inl (by decide))
  rw [List.mem_singleton.mp member] at reports
  exact absurd reports (by decide)

/-- A second wrapper hides the formatter as well. -/
example : (safeArgv asciiEnv "pnpm exec uv run black .".toList).map (effective asciiEnv) =
    some ["black".toList, ".".toList] := by
  decide

end SherryAgent.Guarantees.ReplayPolicy
