import SherryAgent.Contracts.Agent.Guardrails
import SherryAgent.Library.Machine

/-!
# Broken loops

The tool calls of one turn, one after the other. A tool whose results repeat is blocked for
good, as is a repeated call, but the release of the recovery mode asks only whether a tool is
blocked, not why.

* `loop_breaking_final` — what holds of the calls of every run, and which runs keep a tool
  closed whose results repeated.
* `repeating_tool_released` — another tool's failures open the way to the handler again.
-/

namespace SherryAgent.Guarantees.LoopBreaking

open SherryAgent.Source SherryAgent.Source.Agent SherryAgent.Contracts.Agent
open SherryAgent.Library.Machine

/-! ## A turn -/

/-- A call, what the handler answers it if it is reached, and what became of it. -/
structure Entry where
  request : ToolCallRequest
  result : Option ToolResultMessage
  outcome : Outcome

structure Turn where
  gs : TurnGuardrailState := {}
  log : List Entry := []

/-- One tool call; `none` for a handler that raises. -/
def Turn.step (digests : Digests) (config : ToolCallGuardrailConfig) (turn : Turn)
    (call : ToolCallRequest × Option ToolResultMessage) : Option Turn :=
  let (gs, outcome) := wrapToolCall digests config turn.gs call.1 call.2
  some { gs, log := turn.log ++ [⟨call.1, call.2, outcome⟩] }

namespace Entry

/-- The call reaches the handler. -/
def reached (entry : Entry) : Bool :=
  match entry.outcome with
  | .refused _ => false
  | _ => true

/-- A successful call of a tool that clears the blocks. -/
def clears (entry : Entry) : Bool := entry.reached && entry.result.any (clearsBlocks entry.request)

/-- The executed call is answered BLOCK for this reason. -/
def BlockedFor (kind : Pathology) (entry : Entry) : Prop :=
  ∃ answer, entry.outcome = .evaluated .block (some kind) answer

/-- The executed call is answered BLOCK for any other reason. -/
def otherwiseBlocked (entry : Entry) : Bool :=
  match entry.outcome with
  | .evaluated action pathology _ => otherBlock action pathology
  | _ => false

end Entry

/-- Such an entry is on the log, and no call has cleared the blocks since. -/
def Since (start : Entry → Prop) (log : List Entry) : Prop :=
  ∃ before entry between, log = before ++ entry :: between ∧ start entry ∧
    ∀ later ∈ between, later.clears = false

/-- A call of this tool that is answered BLOCK for result repetition. -/
def Repeating (name : String) (entry : Entry) : Prop :=
  entry.BlockedFor .resultRepetition ∧ entry.request.name = name

/-- A call of this tool with these arguments that is answered BLOCK for signature repetition. -/
def Repeated (name : String) (args : List (String × Json)) (entry : Entry) : Prop :=
  entry.BlockedFor .toolRepetition ∧ entry.request.name = name ∧ entry.request.args = args

/-- After its block for result repetition a tool does not reach the handler. -/
def ResultsFinal (log : List Entry) : Prop :=
  ∀ before later after, log = before ++ later :: after →
    Since (Repeating later.request.name) before → later.reached = false

/-- After its block for signature repetition a call does not reach the handler. -/
def SignaturesFinal (log : List Entry) : Prop :=
  ∀ before later after, log = before ++ later :: after →
    Since (Repeated later.request.name later.request.args) before → later.reached = false

/-- The executed calls that are answered BLOCK for any other reason. -/
def otherBlocks (log : List Entry) : Nat := log.countP Entry.otherwiseBlocked

/-- Those from the last call on that cleared the blocks. -/
def recentBlocks (log : List Entry) : Nat :=
  log.foldl (fun count entry =>
    (if entry.clears then 0 else count) + (if entry.otherwiseBlocked then 1 else 0)) 0

/-- The precheck does not release a tool whose results repeated. -/
def KeepsClosed (digests : Digests) (config : ToolCallGuardrailConfig) (turn : Turn)
    (call : ToolCallRequest × Option ToolResultMessage) : Prop :=
  Releases digests config turn.gs call.1 → ¬Since (Repeating call.1.name) turn.log

/-- In recovery mode no call that passes the precheck clears the blocks. -/
def Steady (digests : Digests) (config : ToolCallGuardrailConfig) (turn : Turn)
    (call : ToolCallRequest × Option ToolResultMessage) : Prop :=
  (wrapToolCallPrecheck digests config turn.gs call.1).1 = none → turn.gs.recoveryMode = true →
    ∀ message ∈ call.2, clearsBlocks call.1 message = false

/-! ## The log -/

theorem since_concat {start : Entry → Prop} {log : List Entry} {entry : Entry}
    (since : Since start (log ++ [entry])) : start entry ∨ Since start log ∧ entry.clears = false := by
  obtain ⟨before, first, between, shape, starts, uncleared⟩ := since
  rcases List.eq_nil_or_concat between with rfl | ⟨others, last, rfl⟩
  · obtain ⟨-, same⟩ := List.append_inj' shape rfl
    simp only [List.cons.injEq, and_true] at same
    exact .inl (same ▸ starts)
  · rw [List.concat_eq_append, ← List.cons_append, ← List.append_assoc] at shape
    obtain ⟨rest, same⟩ := List.append_inj' shape rfl
    simp only [List.cons.injEq, and_true] at same
    subst same
    refine .inr ⟨⟨before, first, others, rest, starts, fun later member => ?_⟩, ?_⟩
    · exact uncleared later (by simp [member])
    · exact uncleared _ (by simp)

/-- A property of each entry and the entries before it, on a log with one more entry. -/
theorem forall_split_concat {P : List Entry → Entry → Prop} {log : List Entry} {entry : Entry} :
    (∀ before later after, log ++ [entry] = before ++ later :: after → P before later) ↔
      (∀ before later after, log = before ++ later :: after → P before later) ∧ P log entry := by
  constructor
  · intro all
    refine ⟨fun before later after shape => ?_, all log entry [] rfl⟩
    exact all before later (after ++ [entry]) (by simp [shape])
  · rintro ⟨earlier, last⟩ before later after shape
    rcases List.eq_nil_or_concat after with rfl | ⟨others, final, rfl⟩
    · obtain ⟨rfl, same⟩ := List.append_inj' shape rfl
      simp only [List.cons.injEq, and_true] at same
      exact same ▸ last
    · rw [List.concat_eq_append, ← List.cons_append, ← List.append_assoc] at shape
      exact earlier before later others (List.append_inj' shape rfl).1

theorem resultsFinal_concat {log : List Entry} {entry : Entry} :
    ResultsFinal (log ++ [entry]) ↔
      ResultsFinal log ∧ (Since (Repeating entry.request.name) log → entry.reached = false) := by
  unfold ResultsFinal
  exact @forall_split_concat
    (fun before later => Since (Repeating later.request.name) before → later.reached = false) log entry

theorem signaturesFinal_concat {log : List Entry} {entry : Entry} :
    SignaturesFinal (log ++ [entry]) ↔
      SignaturesFinal log ∧
        (Since (Repeated entry.request.name entry.request.args) log → entry.reached = false) := by
  unfold SignaturesFinal
  exact @forall_split_concat (fun before later =>
    Since (Repeated later.request.name later.request.args) before → later.reached = false) log entry

theorem otherBlocks_concat (log : List Entry) (entry : Entry) :
    otherBlocks (log ++ [entry]) =
      otherBlocks log + (if entry.otherwiseBlocked then 1 else 0) := by
  simp [otherBlocks, List.countP_cons]

theorem recentBlocks_concat (log : List Entry) (entry : Entry) :
    recentBlocks (log ++ [entry]) =
      (if entry.clears then 0 else recentBlocks log) + (if entry.otherwiseBlocked then 1 else 0) := by
  simp [recentBlocks]

/-! ## One call -/

variable {digests : Digests} {config : ToolCallGuardrailConfig}

theorem step_cases {turn next : Turn} {request : ToolCallRequest} {result : Option ToolResultMessage}
    (stepped : Turn.step digests config turn (request, result) = some next) :
    ∃ gs outcome, Wrapped digests config turn.gs request result gs outcome ∧
      next = { gs, log := turn.log ++ [⟨request, result, outcome⟩] } := by
  obtain rfl := Option.some.inj stepped
  exact ⟨_, _, wrapToolCall_wrapped result, rfl⟩

/-- A call that reaches the handler has passed the precheck. -/
theorem passes_of_reached {gs after : TurnGuardrailState} {request : ToolCallRequest}
    {result : Option ToolResultMessage} {outcome : Outcome}
    (wrapped : Wrapped digests config gs request result after outcome)
    (reached : Entry.reached ⟨request, result, outcome⟩ = true) :
    ∃ passed, Passes digests config gs passed request := by
  cases wrapped with
  | refused => cases reached
  | raised passes => exact ⟨_, passes⟩
  | evaluated passes _ => exact ⟨_, passes⟩

theorem clearOnProgress_eq {gs : TurnGuardrailState} {request : ToolCallRequest}
    {message : ToolResultMessage} (clears : clearsBlocks request message = false) :
    gs.clearOnProgress request message.isError = gs := by
  unfold TurnGuardrailState.clearOnProgress
  exact if_neg (by simpa [clearsBlocks] using clears)

/-! ## Signatures -/

/-- Every call that has been blocked for its repetition is on the blocked signatures. -/
structure Signed (digests : Digests) (turn : Turn) : Prop where
  blocked : ∀ name args, Since (Repeated name args) turn.log →
    signature name (digests.argsHash args) ∈ turn.gs.blockedSignatures
  final : SignaturesFinal turn.log

theorem Signed.step {turn next : Turn} {call : ToolCallRequest × Option ToolResultMessage}
    (signed : Signed digests turn) (stepped : Turn.step digests config turn call = some next) :
    Signed digests next := by
  obtain ⟨request, result⟩ := call
  obtain ⟨gs, outcome, wrapped, rfl⟩ := step_cases stepped
  constructor
  · intro name args since
    rcases since_concat since with ⟨⟨answer, ended⟩, rfl, rfl⟩ | ⟨earlier, uncleared⟩
    · dsimp only at ended
      subst ended
      generalize kind : some Pathology.toolRepetition = reported at wrapped
      cases wrapped with
      | evaluated passes evaluates => exact evaluates.signed rfl kind.symm
    · have before := signed.blocked name args earlier
      cases wrapped with
      | refused => exact before
      | raised passes => exact passes.signatures ▸ before
      | evaluated passes evaluates =>
        rw [clearOnProgress_eq uncleared] at evaluates
        exact evaluates.signatures _ (passes.signatures ▸ before)
  · rw [signaturesFinal_concat]
    refine ⟨signed.final, fun since => ?_⟩
    by_contra reached
    obtain ⟨passed, passes⟩ := passes_of_reached wrapped (by simpa using reached)
    exact passes.unsigned (signed.blocked _ _ since)

theorem signed_of_run {turn : Turn} {cond : Turn → ToolCallRequest × Option ToolResultMessage → Prop}
    (run : Runs (Turn.step digests config) cond {} turn) : Signed digests turn := by
  apply run.invariant (Signed digests)
  · constructor
    · rintro name args ⟨before, entry, between, shape, -⟩
      simp at shape
    · intro before later after shape
      simp at shape
  · intro u u' call signed _ stepped
    exact signed.step stepped

/-! ## Repeated results -/

/-- Every tool whose results repeated is blocked. -/
structure Closed (turn : Turn) : Prop where
  blocked : ∀ name, Since (Repeating name) turn.log → name ∈ turn.gs.blockedTools
  final : ResultsFinal turn.log

/-- A call that is no release does not pass for such a tool, and takes no other one off. -/
theorem Closed.passes {turn : Turn} {request : ToolCallRequest} {result : Option ToolResultMessage}
    {passed : TurnGuardrailState} (closed : Closed turn)
    (keeps : KeepsClosed digests config turn (request, result))
    (passes : Passes digests config turn.gs passed request) {name : String}
    (since : Since (Repeating name) turn.log) : name ≠ request.name ∧ name ∈ passed.blockedTools := by
  have blocked := closed.blocked name since
  have other : name ≠ request.name := by
    rintro rfl
    rcases passes.released with ⟨releases, -⟩ | ⟨unblocked, -⟩
    · exact keeps releases since
    · exact unblocked blocked
  exact ⟨other, passes.tools blocked other⟩

theorem Closed.step {turn next : Turn} {call : ToolCallRequest × Option ToolResultMessage}
    (closed : Closed turn) (keeps : KeepsClosed digests config turn call)
    (stepped : Turn.step digests config turn call = some next) : Closed next := by
  obtain ⟨request, result⟩ := call
  obtain ⟨gs, outcome, wrapped, rfl⟩ := step_cases stepped
  constructor
  · intro name since
    rcases since_concat since with ⟨⟨answer, ended⟩, rfl⟩ | ⟨earlier, uncleared⟩
    · dsimp only at ended
      subst ended
      generalize kind : some Pathology.resultRepetition = reported at wrapped
      cases wrapped with
      | evaluated passes evaluates =>
        exact evaluates.closed rfl (by simp [← kind])
    · cases wrapped with
      | refused => exact closed.blocked name earlier
      | raised passes => exact (closed.passes keeps passes earlier).2
      | evaluated passes evaluates =>
        rw [clearOnProgress_eq uncleared] at evaluates
        exact evaluates.tools _ (closed.passes keeps passes earlier).2
  · rw [resultsFinal_concat]
    refine ⟨closed.final, fun since => ?_⟩
    by_contra reached
    obtain ⟨passed, passes⟩ := passes_of_reached wrapped (by simpa using reached)
    exact (closed.passes keeps passes since).1 rfl

/-- A call that passes the precheck reaches the handler. -/
theorem reached_of_through {turn next : Turn} {request : ToolCallRequest}
    {result : Option ToolResultMessage}
    (through : (wrapToolCallPrecheck digests config turn.gs request).1 = none)
    (stepped : Turn.step digests config turn (request, result) = some next) :
    ∃ outcome, next.log = turn.log ++ [⟨request, result, outcome⟩] ∧
      Entry.reached ⟨request, result, outcome⟩ = true := by
  obtain ⟨gs, outcome, wrapped, rfl⟩ := step_cases stepped
  refine ⟨outcome, rfl, ?_⟩
  cases wrapped with
  | refused stopped =>
    rw [stopped] at through
    cases through
  | raised passes => rfl
  | evaluated passes evaluates => rfl

/-- The tools whose results repeated stay closed exactly when none of them is released. -/
theorem resultsFinal_iff {turn : Turn}
    (run : Runs (Turn.step digests config) (fun _ _ => True) {} turn) :
    ResultsFinal turn.log ↔ Runs (Turn.step digests config) (KeepsClosed digests config) {} turn := by
  constructor
  · intro final
    induction run with
    | refl => exact .refl
    | tail earlier last ih =>
      rename_i u v
      obtain ⟨⟨request, result⟩, -, stepped⟩ := last
      obtain ⟨gs, outcome, wrapped, rfl⟩ := step_cases stepped
      obtain ⟨before, now⟩ := resultsFinal_concat.mp final
      refine .tail (ih before) ⟨(request, result), fun releases since => ?_, stepped⟩
      obtain ⟨other, log, reached⟩ := reached_of_through releases.through stepped
      obtain ⟨-, same⟩ := List.append_inj' log rfl
      simp only [List.cons.injEq, Entry.mk.injEq, true_and, and_true] at same
      subst same
      exact absurd (now since) (by simp [reached])
  · intro kept
    have closed : Closed turn := by
      apply kept.invariant Closed
      · constructor
        · rintro name ⟨before, entry, between, shape, -⟩
          simp at shape
        · intro before later after shape
          simp at shape
      · intro u u' call closed keeps stepped
        exact closed.step keeps stepped
    exact closed.final

/-! ## Other blocks -/

/-- Outside of recovery mode nothing is counted, and each block after the first is a violation. -/
structure Counted (config : ToolCallGuardrailConfig) (gs : TurnGuardrailState) (blocks : Nat) :
    Prop where
  idle : gs.recoveryMode = false → blocks = 0
  violations : 0 ≤ gs.recoveryViolationCount
  counted : (blocks : Int) ≤ gs.recoveryViolationCount + 1
  bounded : (blocks : Int) ≤ config.recoveryMaxViolations + 1

section Counts

variable {gs passed after : TurnGuardrailState} {request : ToolCallRequest} {blocks : Nat}

theorem Counted.passes (counted : Counted config gs blocks)
    (passes : Passes digests config gs passed request) : Counted config passed blocks := by
  obtain ⟨recovery, violations⟩ := passes.recovery
  exact ⟨fun idle => counted.idle (recovery ▸ idle), violations ▸ counted.violations,
    violations ▸ counted.counted, counted.bounded⟩

/-- A call that clears the blocks starts a new count. -/
theorem Counted.clearOnProgress (counted : Counted config gs blocks)
    (bounded : 0 ≤ config.recoveryMaxViolations) (message : ToolResultMessage) :
    Counted config (gs.clearOnProgress request message.isError)
      (if clearsBlocks request message then 0 else blocks) := by
  cases clears : clearsBlocks request message with
  | false =>
    rw [clearOnProgress_eq clears]
    exact counted
  | true =>
    have cleared : gs.clearOnProgress request message.isError = gs.clearBlockAccumulators :=
      if_pos (by simpa [clearsBlocks] using clears)
    rw [cleared]
    refine ⟨fun _ => rfl, Int.le_refl 0, by simp [TurnGuardrailState.clearBlockAccumulators], ?_⟩
    simp only [if_true]
    omega

theorem Counted.evaluates (counted : Counted config gs blocks)
    (bounded : 0 ≤ config.recoveryMaxViolations)
    (enabled : config.recoveryModeEnabled = true) {argsHash : String} {action : GuardrailAction}
    (evaluates : Evaluates config request argsHash gs after action) :
    Counted config after
      (blocks + (if otherBlock action after.pathology then 1 else 0)) := by
  have grows := evaluates.violations
  obtain ⟨idle, violations, bound, within⟩ := counted
  cases other : otherBlock action after.pathology with
  | false =>
    simp only [Bool.false_eq_true, if_false, Nat.add_zero]
    refine ⟨fun ended => idle ?_, by omega, by omega, within⟩
    cases recovering : gs.recoveryMode with
    | false => rfl
    | true =>
      rw [evaluates.recovery recovering] at ended
      cases ended
  | true =>
    simp only [if_true]
    obtain ⟨recovering, again⟩ := evaluates.counted enabled other
    cases before : gs.recoveryMode with
    | false =>
      have none_before := idle before
      refine ⟨fun ended => ?_, by omega, by omega, by omega⟩
      rw [recovering] at ended
      cases ended
    | true =>
      obtain ⟨next, allowed⟩ := again before
      refine ⟨fun ended => ?_, by omega, by omega, by omega⟩
      rw [recovering] at ended
      cases ended

end Counts

theorem Counted.step {turn next : Turn} {call : ToolCallRequest × Option ToolResultMessage}
    (counted : Counted config turn.gs (recentBlocks turn.log))
    (bounded : 0 ≤ config.recoveryMaxViolations) (enabled : config.recoveryModeEnabled = true)
    (stepped : Turn.step digests config turn call = some next) :
    Counted config next.gs (recentBlocks next.log) := by
  obtain ⟨request, result⟩ := call
  obtain ⟨gs, outcome, wrapped, rfl⟩ := step_cases stepped
  rw [recentBlocks_concat]
  cases wrapped with
  | refused => exact counted
  | raised passes => exact counted.passes passes
  | evaluated passes evaluates =>
    exact ((counted.passes passes).clearOnProgress bounded _).evaluates bounded enabled evaluates

theorem counted_of_run {turn : Turn} {cond : Turn → ToolCallRequest × Option ToolResultMessage → Prop}
    (bounded : 0 ≤ config.recoveryMaxViolations) (enabled : config.recoveryModeEnabled = true)
    (run : Runs (Turn.step digests config) cond {} turn) :
    Counted config turn.gs (recentBlocks turn.log) := by
  apply run.invariant fun turn => Counted config turn.gs (recentBlocks turn.log)
  · refine ⟨fun _ => rfl, Int.le_refl 0, by simp [recentBlocks], ?_⟩
    simp only [recentBlocks, List.foldl_nil]
    omega
  · intro u u' call counted _ stepped
    exact counted.step bounded enabled stepped

/-- Where no recovery is cut short, every block counts. -/
theorem otherBlocks_of_steady {turn : Turn} (bounded : 0 ≤ config.recoveryMaxViolations)
    (enabled : config.recoveryModeEnabled = true)
    (run : Runs (Turn.step digests config) (Steady digests config) {} turn) :
    otherBlocks turn.log = recentBlocks turn.log := by
  have whole : Counted config turn.gs (recentBlocks turn.log) ∧
      otherBlocks turn.log = recentBlocks turn.log := by
    apply run.invariant fun turn =>
      Counted config turn.gs (recentBlocks turn.log) ∧ otherBlocks turn.log = recentBlocks turn.log
    · have start : Runs (Turn.step digests config) (Steady digests config) {} {} := .refl
      exact ⟨counted_of_run bounded enabled start, rfl⟩
    · rintro u u' ⟨request, result⟩ ⟨counted, same⟩ steady stepped
      refine ⟨counted.step bounded enabled stepped, ?_⟩
      obtain ⟨gs, outcome, wrapped, rfl⟩ := step_cases stepped
      rw [recentBlocks_concat, otherBlocks_concat, same]
      congr 1
      cases clears : Entry.clears ⟨request, result, outcome⟩ with
      | false => rfl
      | true =>
        rw [Entry.clears, Bool.and_eq_true] at clears
        obtain ⟨passed, passes⟩ := passes_of_reached wrapped clears.1
        apply counted.idle
        by_contra recovering
        obtain ⟨message, answered, clearing⟩ := (Option.any_eq_true _ _).mp clears.2
        have kept := steady passes.through (by simpa using recovering) message answered
        rw [kept] at clearing
        cases clearing
  exact whole.2

/-- In every turn: the tools whose results repeated stay closed until the blocks are cleared
exactly when the recovery mode releases none of them; a blocked call stays blocked; and the
other blocks since the last clearing, or all of them where no recovery is cleared, are at most
one more than the violations. -/
theorem loop_breaking_final {digests : Digests} {config : ToolCallGuardrailConfig} {turn : Turn}
    (run : Runs (Turn.step digests config) (fun _ _ => True) {} turn) :
    (ResultsFinal turn.log ↔
        Runs (Turn.step digests config) (KeepsClosed digests config) {} turn) ∧
      SignaturesFinal turn.log ∧
      (config.recoveryModeEnabled = true → 0 ≤ config.recoveryMaxViolations →
        (recentBlocks turn.log : Int) ≤ config.recoveryMaxViolations + 1 ∧
          (Runs (Turn.step digests config) (Steady digests config) {} turn →
            (otherBlocks turn.log : Int) ≤ config.recoveryMaxViolations + 1)) := by
  refine ⟨resultsFinal_iff run, (signed_of_run run).final, fun enabled bounded => ?_⟩
  have counted := counted_of_run bounded enabled run
  refine ⟨counted.bounded, fun steady => ?_⟩
  rw [otherBlocks_of_steady bounded enabled steady]
  exact counted.bounded

/-! ## A released tool -/

def plainDigests : Digests where
  argsHash args := String.join (args.map (·.1))
  resultHash content := content

/-- One page after the other, with the same answer. -/
def polls : List (ToolCallRequest × Option ToolResultMessage) :=
  ["a", "b", "c", "d", "e", "f"].map fun page =>
    ({ name := "poll", args := [(page, .null)] },
      some { content := .str "pending", toolCallId := "", name := some "poll" })

def poll : ToolCallRequest × Option ToolResultMessage :=
  ({ name := "poll", args := [("g", .null)] },
    some { content := .str "pending", toolCallId := "", name := some "poll" })

def failure : ToolCallRequest × Option ToolResultMessage :=
  ({ name := "build" },
    some { content := .str "no such target", toolCallId := "", name := some "build",
           status := "error" })

/-- After the sixth entry blocks a tool for its results, nothing clears the blocks, and the
tool is reached again at the end. -/
def reopens : List Entry → Bool
  | [_, _, _, _, _, blocked, b₁, b₂, b₃, b₄, b₅, later] =>
    (match blocked.outcome with
      | .evaluated .block (some .resultRepetition) _ => true
      | _ => false) &&
    blocked.request.name == later.request.name && [b₁, b₂, b₃, b₄, b₅].all (!·.clears) &&
    later.reached
  | _ => false

theorem not_resultsFinal_of_reopens {log : List Entry} (opens : reopens log = true) :
    ¬ResultsFinal log := by
  unfold reopens at opens
  split at opens
  · rename_i e₁ e₂ e₃ e₄ e₅ blocked b₁ b₂ b₃ b₄ b₅ later
    simp only [Bool.and_eq_true, beq_iff_eq] at opens
    obtain ⟨⟨⟨barred, same⟩, uncleared⟩, reached⟩ := opens
    intro final
    have refused := final [e₁, e₂, e₃, e₄, e₅, blocked, b₁, b₂, b₃, b₄, b₅] later [] rfl
      ⟨[e₁, e₂, e₃, e₄, e₅], blocked, [b₁, b₂, b₃, b₄, b₅], rfl, ⟨?_, same⟩, ?_⟩
    · rw [refused] at reached
      cases reached
    · split at barred
      · rename_i answer ended
        exact ⟨answer, ended⟩
      · cases barred
    · simpa using uncleared
  · cases opens

/-- With the defaults: the failures of `build` enter the recovery mode, which releases `poll`. -/
theorem repeating_tool_released : ∃ turn,
    Runs (Turn.step plainDigests {}) (fun _ _ => True) {} turn ∧ ¬ResultsFinal turn.log := by
  have played : (play (Turn.step plainDigests {}) (fun _ _ => true) {}
      (polls ++ List.replicate 5 failure ++ [poll])).any (fun turn => reopens turn.log) = true := by
    decide +kernel
  obtain ⟨turn, run, opens⟩ := Runs.exists_of_play played
  exact ⟨turn, run.mono fun _ _ _ => trivial, not_resultsFinal_of_reopens opens⟩

/-- Without the failures `poll` stays closed. -/
theorem repeating_tool_stays_closed : ∃ turn : Turn, turn.log.length = 7 ∧
    turn.gs.blockedTools = ["poll"] ∧ ResultsFinal turn.log ∧
    (otherBlocks turn.log : Int) ≤ 2 := by
  have played : (play (Turn.step plainDigests {})
      (fun turn call => !decide (Releases plainDigests {} turn.gs call.1) && !turn.gs.recoveryMode)
      {} (polls ++ [poll])).any
        (fun turn => turn.log.length == 7 && turn.gs.blockedTools == ["poll"]) = true := by
    decide +kernel
  obtain ⟨turn, run, ended⟩ := Runs.exists_of_play played
  simp only [Bool.and_eq_true, beq_iff_eq] at ended
  have final := loop_breaking_final (run.mono fun _ _ _ => trivial)
  refine ⟨turn, ended.1, ended.2, final.1.mpr (run.mono fun u call allowed releases => ?_),
    (final.2.2 rfl (by decide)).2 (run.mono fun u call allowed _ recovering => ?_)⟩
  · simp [releases] at allowed
  · simp [recovering] at allowed

end SherryAgent.Guarantees.LoopBreaking
