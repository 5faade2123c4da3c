import SherryAgent.Source.Taskflow.Flow
import SherryAgent.Source.PyText

/-!
# Full step lists given by a caller

`validate_steps_list` and `_find_dependency_cycle` of `_shared.py`, and the
normalisation and merge rules of `taskflow_update_steps.py`. The caller's list
is raw JSON.
-/

namespace SherryAgent.Source.Taskflow

/-! ## Dependency cycles -/

inductive Colour where
  | white | grey | black
  deriving DecidableEq

structure CycleSearch where
  colour : List (String × Colour) := []
  path : List String := []

def CycleSearch.colourOf (search : CycleSearch) (node : String) : Colour :=
  ((search.colour.find? (·.1 == node)).map (·.2)).getD .white

def CycleSearch.paint (search : CycleSearch) (node : String) (colour : Colour) : CycleSearch :=
  { search with colour := (node, colour) :: search.colour }

def prerequisites (graph : List (String × List String)) (node : String) : List String :=
  ((graph.find? (·.1 == node)).map (·.2)).getD []

/-- `_visit`: depth first over the prerequisites; the recursion follows grey
nodes, so `fuel` above the number of nodes is never used up. -/
def visit (graph : List (String × List String)) :
    (fuel : Nat) → String → CycleSearch → CycleSearch × Option (List String)
  | 0, _, search => (search, none)
  | fuel + 1, node, search =>
    let search := search.paint node .grey
    let search := { search with path := search.path ++ [node] }
    let (search, found) := (prerequisites graph node).foldl
      (fun (search, found) dep =>
        match found with
        | some cycle => (search, some cycle)
        | none =>
          match search.colourOf dep with
          | .grey => (search, some (search.path.drop (search.path.idxOf dep) ++ [dep]))
          | .white => visit graph fuel dep search
          | .black => (search, none))
      (search, none)
    match found with
    | some cycle => (search, some cycle)
    | none => ({ search with path := search.path.dropLast }.paint node .black, none)

/-- `_find_dependency_cycle`, on the graph from step id to prerequisite ids. -/
def findDependencyCycle (graph : List (String × List String)) : Option (List String) :=
  (graph.foldl (fun (search, found) (node, _) =>
    match found with
    | some cycle => (search, some cycle)
    | none =>
      match search.colourOf node with
      | .white => visit graph (graph.length + 1) node search
      | _ => (search, none))
    (({} : CycleSearch), none)).2

/-! ## `validate_steps_list` -/

/-- A non-blank string; `none` for anything else. -/
def Json.nonBlank : Json → Option String
  | .str text => if PyText.strip text == "" then none else some (PyText.strip text)
  | _ => none

def allNonBlank (items : List Json) : Bool := items.all fun item => (Json.nonBlank item).isSome

/-- The dependency ids of a validated step, stripped. -/
def Json.dependencyIds (step : Json) : List String :=
  match step.get "depends_on" with
  | .arr items => items.filterMap Json.nonBlank
  | _ => []

def hasKey (step : Json) (key : String) : Bool :=
  match step with
  | .obj items => items.any (·.1 == key)
  | _ => false

/-- The error of one entry of `depends_on`. -/
def dependencyError (stepId : String) (dep : Json) : Option String :=
  match Json.nonBlank dep with
  | none => some s!"Error: step '{stepId}' has an invalid depends_on entry"
  | some depId =>
    if depId == stepId then some s!"Error: step '{stepId}' cannot depend on itself" else none

/-- The error of a status that is not a valid one. A list or an object is not hashable: the lookup
among the valid ones raises a `TypeError`, where every other status is answered with a text. -/
def statusError (stepId : String) : Json → String
  | .arr _ => "TypeError: unhashable type: 'list'"
  | .obj _ => "TypeError: unhashable type: 'dict'"
  | status =>
    let status := status.pyRepr
    let valid := ", ".intercalate (StepStatus.all.map (·.value))
    s!"Error: step '{stepId}' has invalid status {status} (expected one of: {valid})"

/-- The error of one step, given the ids of the earlier ones. -/
def stepError (index : Nat) (seen : List String) (step : Json) : Option String :=
  if !step.isObject then some s!"Error: steps[{index}] must be an object"
  else
    match Json.nonBlank (step.get "step_id") with
    | none => some s!"Error: steps[{index}].step_id is required"
    | some stepId =>
      if seen.contains stepId then some s!"Error: duplicate step_id '{stepId}'"
      else if (Json.nonBlank (step.get "task")).isNone then
        some s!"Error: step '{stepId}' task is required"
      else
        match (match step.get "status" with
          | .str text => StepStatus.ofValue text
          | _ => none) with
        | none => some (statusError stepId (step.get "status"))
        | some _ =>
          match step.get "depends_on" with
          | .arr deps =>
            match deps.findSome? (dependencyError stepId) with
            | some text => some text
            | none =>
              if hasKey step "file_deps" then
                match step.get "file_deps" with
                | .arr files =>
                  if allNonBlank files then none
                  else some s!"Error: step '{stepId}' has an invalid file_deps entry"
                | _ => some s!"Error: step '{stepId}' file_deps must be a list"
              else none
          | _ => some s!"Error: step '{stepId}' depends_on must be a list"

/-- The per-step checks in order; `.inr` carries the ids seen. -/
def validateEach : (index : Nat) → (seen : List String) → List Json → String ⊕ List String
  | _, seen, [] => .inr seen
  | index, seen, step :: rest =>
    match stepError index seen step with
    | some text => .inl text
    | none =>
      validateEach (index + 1) (seen ++ ((Json.nonBlank (step.get "step_id")).toList)) rest

/-- The id of a validated step, stripped. -/
def Json.stepId (step : Json) : String := (Json.nonBlank (step.get "step_id")).getD ""

/-- `validate_steps_list`. -/
def validateStepsList (steps : List Json) : Option String :=
  match validateEach 0 [] steps with
  | .inl text => some text
  | .inr seen =>
    match steps.findSome? (fun step =>
      ((Json.dependencyIds step).find? (!seen.contains ·)).map fun dep =>
        (Json.stepId step, dep)) with
    | some (stepId, dep) =>
      some s!"Error: step '{stepId}' depends_on references unknown step_id '{dep}'"
    | none =>
      match findDependencyCycle (steps.map fun step => (Json.stepId step, Json.dependencyIds step)) with
      | some cycle =>
        let text := " -> ".intercalate cycle
        some s!"Error: dependency cycle: {text}"
      | none => none

/-! ## `taskflow_update_steps`: normalisation and merge -/

/-- An optional text field of a step dict. -/
def Json.textField (step : Json) (key : String) : Option String :=
  (step.getOption key).map fun value => if value.truthy then value.pyStr else ""

def Json.intField (step : Json) (key : String) : Option Int :=
  match step.get key with
  | .int value => some value
  | _ => none

/-- `retry_policy` of a step dict, a malformed one read as absent. -/
def Json.retryPolicy (step : Json) : Option RetryPolicy :=
  match step.get "retry_policy" with
  | .obj items =>
    let raw := Json.obj items
    some {
      maxRetries := (Json.intField raw "max_retries").getD 0
      retryDelaySeconds := Json.intField raw "retry_delay_seconds"
      retryOn := match raw.get "retry_on" with
        | .arr kinds => kinds.map Json.pyStr
        | _ => [] }
  | _ => none

/-- `_normalize_steps` on one validated step: the contract fields stripped, the
caller's other fields kept. -/
def normalizeStep (step : Json) : Step :=
  { stepId := PyText.strip (step.get "step_id").pyStr
    task := PyText.strip (step.get "task").pyStr
    dependsOn := ((step.getIter "depends_on").getD []).map fun dep => PyText.strip dep.pyStr
    status := StepStatus.ofValue (step.get "status").pyStr
    retryCount := (Json.intField step "retry_count").getD 0
    childSessionKey := Json.textField step "child_session_key"
    responseSchema := step.getOption "response_schema"
    judgeCriteria := Json.textField step "judge_criteria"
    validationCriteria := Json.textField step "validation_criteria"
    judgeFeedback := Json.textField step "judge_feedback"
    retryPolicy := Json.retryPolicy step
    functionalRole := Json.textField step "functional_role"
    stepModel := Json.textField step "step_model"
    stepTimeoutSeconds := Json.intField step "step_timeout_seconds"
    fileDeps := (step.getIter "file_deps").map (·.map Json.pyStr)
    failReason := Json.textField step "fail_reason"
    blockReason := Json.textField step "block_reason"
    skipReason := Json.textField step "skip_reason"
    cancelReason := Json.textField step "cancel_reason" }

/-- `_STRUCTURAL_STATUSES`. -/
def StepStatus.structural : StepStatus → Bool
  | .ready | .blocked => true
  | _ => false

/-- The immutability rules for a step that exists already. -/
def mergeRules (old new : Step) : Option String :=
  let sid := new.stepId
  let oldStatus := stepStatus old
  let newStatus := stepStatus new
  let oldText := oldStatus.value
  let newText := newStatus.value
  match oldStatus with
  | .dispatched =>
    if newStatus.structural then
      some (s!"Error: step '{sid}' is dispatched and cannot be downgraded " ++
        s!"to status={newText}")
    else none
  | .done =>
    if newStatus ≠ .done then
      some (s!"Error: step '{sid}' is done; its status cannot be changed " ++
        s!"(got status={newText})")
    else if new.task ≠ PyText.strip old.task then
      some s!"Error: step '{sid}' is done; its task cannot be changed"
    else if new.dependsOn.mergeSort ≠ (old.dependsOn.map PyText.strip).mergeSort then
      some s!"Error: step '{sid}' is done; its depends_on cannot be changed"
    else none
  | _ =>
    if newStatus.structural then none
    else some (s!"Error: step '{sid}' (status={oldText}) cannot become status={newText}; " ++
      "use taskflow_step(action='dispatch') or taskflow_step(action='resume')")

/-- The child key of a running or finished step is retained. -/
def retainChildKey (old new : Step) : Except String Step :=
  match stepStatus old with
  | .dispatched | .done =>
    let sid := new.stepId
    let oldText := (stepStatus old).value
    let oldKey := PyText.strip (old.childSessionKey.getD "")
    let providedKey := PyText.strip (new.childSessionKey.getD "")
    if providedKey != "" && providedKey != oldKey then
      let stored := if oldKey == "" then "(none)" else oldKey
      .error (s!"Error: step '{sid}' is {oldText}; its child_session_key is immutable " ++
        s!"(stored={stored}, provided={providedKey})")
    else if oldKey == "" then
      .error s!"Error: step '{sid}' is {oldText} but has no recorded child_session_key"
    else .ok { new with childSessionKey := some oldKey }
  | _ => .ok new

/-- One incoming step against the existing list. -/
def mergeStep (existing : List Step) (new : Step) : Except String Step :=
  match byId existing new.stepId with
  | none =>
    if (stepStatus new).structural then .ok new
    else
      let sid := new.stepId
      let status := (stepStatus new).value
      .error (s!"Error: new step '{sid}' must be ready or blocked " ++
        s!"(got status={status}); dispatch through taskflow_step(action='dispatch')")
  | some old =>
    match mergeRules old new with
    | some text => .error text
    | none => retainChildKey old new

/-- `_merge_steps`. -/
def mergeSteps (existing incoming : List Step) : Except String (List Step) :=
  incoming.mapM (mergeStep existing)

end SherryAgent.Source.Taskflow
