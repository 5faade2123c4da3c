import SherryAgent.Library.Resumption
import SherryAgent.Source.Taskflow.Mutation

/-!
# The atomic operations of the task-flow tools

The store holds the row of one flow of one session, the flow-local dispatch lock
and the children spawned for the flow. A tool call is a program over these
operations; everything outside the process (the subagent runtime, the judges,
the planner, the child registry) answers as it likes.
-/

namespace SherryAgent.Source.Taskflow

open SherryAgent.Library.Resumption

/-- Which `get_flow` call of the family reads. -/
inductive ReadSite where
  /-- The first read of a tool that reads once. -/
  | tool
  /-- `taskflow_resume`, by child key. -/
  | resume (childSessionKey : String)
  /-- `_taskflow_dispatch_locked`, for the requested ids. -/
  | dispatch (stepIds : List String)
  /-- `_auto_dispatch_ready_locked`, for the wave's ids. -/
  | wave (readyIds : List String)
  /-- The first read of `taskflow_wait_all`. -/
  | waitAll
  /-- `_retry_settled_steps`, for the settled pairs. -/
  | settled (pairs : List (String × String))
  /-- The re-read after a revision conflict. -/
  | conflict
  /-- The read-back of a successful `update_flow`, or of a finished wave. -/
  | updated
  deriving DecidableEq

/-- Which path of the family spawns a child. -/
inductive SpawnSite where
  | resumeRetry | judgeRetry | wave | dispatch | runTask | waitAll
  deriving DecidableEq

/-- One `dispatch_child` call. -/
structure SpawnRequest where
  site : SpawnSite
  task : String
  requesterSessionKey : String
  feedback : String := ""
  contract : SpawnContract := {}

/-- The answer of `spawn_subagent_direct`. -/
structure SpawnResult where
  accepted : Bool
  childSessionKey : String := ""
  error : String := ""

inductive StepVerdict where
  | pass | retry | block
  deriving DecidableEq

structure JudgeResult where
  verdict : StepVerdict
  reason : String := ""
  feedback : String := ""

/-- How the poll loop of `taskflow_wait_all` ends; at the deadline, which of the children have
settled. -/
inductive PollOutcome where
  | settled | timedOut (settled : List Bool) | lookupFailed (error : String)

inductive CasOutcome where
  | stored
  | conflict (latestRevision : Int)
  | notFound

inductive Op where
  | getFlow (site : ReadSite)
  | updateFlow (write : Write)
  | createFlow (flow : Flow)
  | markFlowSuperseded (supersededBy : String)
  | bindFlowTodo (content : String)
  | acquireDispatchLock
  | releaseDispatchLock
  | spawn (request : SpawnRequest)
  | sleep (seconds : Int)
  | judge (task criteria result : String)
  | poll (targets : List (String × String))
  | planner (prompt : String)
  | evidenceGate
  | goalGate
  /-- Refusals of `taskflow_create` and `taskflow_plan` that come from the
  session's other flows (a similar active flow, too many active flows). -/
  | admission

abbrev Op.Ans : Op → Type
  | .getFlow _ => Option Flow
  | .updateFlow _ => CasOutcome
  | .createFlow _ => Bool
  | .markFlowSuperseded _ => Bool
  | .bindFlowTodo _ => Except String Unit
  | .acquireDispatchLock => Unit
  | .releaseDispatchLock => Unit
  | .spawn _ => SpawnResult
  | .sleep _ => Unit
  | .judge _ _ _ => JudgeResult
  | .poll _ => PollOutcome
  | .planner _ => Except String String
  | .evidenceGate => Option String
  | .goalGate => Option String
  | .admission => Option String

/-- The task-flow effects. -/
abbrev effects : Effects := ⟨Op, Op.Ans⟩

abbrev Tool := Prog effects

abbrev History := List (Event effects)

/-- What the environment contributes to one operation. -/
inductive Input where
  | tick
  | todoBound (outcome : Except String Unit)
  | spawned (result : SpawnResult)
  | judged (result : JudgeResult)
  | polled (outcome : PollOutcome)
  | planned (text : Except String String)
  | gate (rejection : Option String)

structure Store where
  row : Option Flow
  dispatchLocked : Bool := false
  spawned : List (SpawnRequest × String) := []

/-- `UPDATE ... WHERE flow_id = ? AND expected_revision = ?` on the row. -/
def Store.cas (store : Store) (w : Write) : CasOutcome × Store :=
  match store.row with
  | none => (.notFound, store)
  | some row =>
    if row.expectedRevision = w.expectedRevision then
      (.stored, { store with row := some (w.update row) })
    else (.conflict row.expectedRevision, store)

/-- One atomic operation; `none` when it is not enabled, or when the environment's
contribution is not one for this operation. -/
def exec : (op : Op) → Store → Input → Option (op.Ans × Store)
  | .getFlow _, store, _ => some (store.row, store)
  | .updateFlow w, store, _ => some (store.cas w)
  | .createFlow flow, store, _ =>
    match store.row with
    | none => some (true, { store with row := some flow })
    | some _ => some (false, store)
  | .markFlowSuperseded successor, store, _ =>
    match store.row with
    | none => some (false, store)
    | some row => some (true, { store with row := some (row.supersede successor) })
  | .bindFlowTodo _, store, .todoBound outcome => some (outcome, store)
  | .acquireDispatchLock, store, _ =>
    if store.dispatchLocked then none else some ((), { store with dispatchLocked := true })
  | .releaseDispatchLock, store, _ => some ((), { store with dispatchLocked := false })
  | .spawn request, store, .spawned result =>
    if result.accepted && result.childSessionKey != "" then
      some (result, { store with spawned := store.spawned ++ [(request, result.childSessionKey)] })
    else some (result, store)
  | .sleep _, store, _ => some ((), store)
  | .judge _ _ _, store, .judged result => some (result, store)
  | .poll _, store, .polled outcome => some (outcome, store)
  | .planner _, store, .planned text => some (text, store)
  | .evidenceGate, store, .gate rejection => some (rejection, store)
  | .goalGate, store, .gate rejection => some (rejection, store)
  | .admission, store, .gate rejection => some (rejection, store)
  | _, _, _ => none

/-! ## The operations as programs -/

def getFlow (site : ReadSite) : Tool (Option Flow) := Prog.perform (E := effects) (.getFlow site)

/-- `update_flow`: the compare-and-swap, then the read-back of the row. -/
inductive UpdateOutcome where
  | updated (flow : Flow)
  | conflict (latestRevision : Int)
  | notFound

def updateFlow (w : Write) : Tool UpdateOutcome := do
  match ← Prog.perform (E := effects) (.updateFlow w) with
  | .conflict latest => pure (.conflict latest)
  | .notFound => pure .notFound
  | .stored =>
    match ← getFlow .updated with
    | none => pure .notFound
    | some flow => pure (.updated flow)

/-- `dispatch_child`: an accepted spawn's key, or the text of the `RuntimeError`. -/
def dispatchChild (request : SpawnRequest) : Tool (Except String String) := do
  let result ← Prog.perform (E := effects) (.spawn request)
  if result.accepted && result.childSessionKey != "" then pure (.ok result.childSessionKey)
  else pure (.error s!"RuntimeError: status={result.accepted} error={result.error}")

/-- The back-off before a retry: `asyncio.sleep` for a positive delay. -/
def backOff (seconds : Int) : Tool Unit :=
  if 0 < seconds then Prog.perform (E := effects) (.sleep seconds) else pure ()

/-- The attempts of `update_flow_with_conflict_retry`: `remaining` attempts are
left, the callback is rebuilt on `current` for attempt number `attempt`. Success
returns the updated row and the row the last callback ran on, which is what the
callback's captured variables were computed from. -/
def conflictRetry (flowId : String) (build : BuildState) (kwargs : UpdateKwargs)
    (childKeys : List String) : (remaining attempt : Nat) → Int → Flow →
    Tool (Except String (Flow × Flow))
  | 0, attempt, _, _ => pure (.error (recordUnpersistedChildrenError flowId childKeys (attempt - 1)))
  | remaining + 1, attempt, revision, current => do
    match ← updateFlow { expectedRevision := revision, build, current, attempt, kwargs } with
    | .updated flow => pure (.ok (flow, current))
    | .notFound => pure (.error (recordUnpersistedChildrenError flowId childKeys attempt))
    | .conflict _ =>
      if remaining = 0 then
        pure (.error (recordUnpersistedChildrenError flowId childKeys attempt))
      else
        match ← getFlow .conflict with
        | none => pure (.error (recordUnpersistedChildrenError flowId childKeys attempt))
        | some fresh =>
          if isTerminal fresh.status then
            pure (.error (recordUnpersistedChildrenError flowId childKeys attempt))
          else
            conflictRetry flowId build kwargs childKeys remaining (attempt + 1)
              fresh.expectedRevision fresh

/-- `update_flow_with_conflict_retry`. -/
def updateFlowWithConflictRetry (env : Env) (flowId : String) (expectedRevision : Int)
    (originFlow : Flow) (build : BuildState) (childKeys : List String)
    (kwargs : UpdateKwargs := {}) : Tool (Except String (Flow × Flow)) :=
  conflictRetry flowId build kwargs childKeys env.infra.persistMaxAttempts 1
    expectedRevision originFlow

end SherryAgent.Source.Taskflow
