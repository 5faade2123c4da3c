import SherryAgent.Contracts.Taskflow.Counters

/-!
# The retry budget of a step

Failure retries, judge retries and the retries of `taskflow_wait_all` share the counter in
the step's record. The judge's retries have a budget of their own in the configuration.

* `retries_exceed_policy` — the judge retries beyond the step's policy, and a replacement
  decided on a counter that another call has changed is not counted;
* `replacements_counted` — in every interleaving in which each replacement finds the
  counter it was decided on, each one counts up by one, and a step gets at most as many as
  the larger of the two budgets.
-/

namespace SherryAgent.Guarantees.RetryBudget

open SherryAgent.Source SherryAgent.Source.Taskflow SherryAgent.Contracts.Taskflow
  SherryAgent.Library.KeyedList SherryAgent.Library.Resumption

/-- The replacement children a call has persisted for a step. -/
def persisted (id : String) (h : History) : Nat :=
  ((storedWrites h).map fun wr => ((replacedBy wr.build).map Prod.fst).count id).sum

/-- The replacement children persisted for a step by all calls. -/
def replacements (id : String) (w : FlowWorld) : Nat :=
  w.total fun thread => persisted id thread.history

/-- The counter of the step with an id. -/
def counter (id : String) (flow : Flow) : Option Int :=
  (firstById flow.state.steps id).map stepRetryCount

/-- The counter in the stored row. -/
def storedCounter (id : String) (w : FlowWorld) : Option Int := w.store.row.bind (counter id)

/-- `max_retries` of the step's policy. -/
def policyBudget (step : Step) : Int :=
  match normalizePolicy step with
  | none => 0
  | some policy => policy.maxRetries

/-- The larger of the policy's budget and the judge's. -/
def retryBudget (env : Env) (step : Step) : Int :=
  max (policyBudget step) env.infra.judgeMaxRetries

/-- Any interleaving of the retrying calls. -/
def retryingCalls (_ : FlowWorld) (choice : Choice Call Input) : Bool :=
  match choice with
  | .start call => retryCall call
  | .run .. => true

/-- The counters a write replaces are those its call decided on. -/
def undisturbed (h : History) (row : Flow) (wr : Write) : Bool :=
  (replacedBy wr.build).all fun entry => (reads h).all fun read =>
    !deciding read.1 || counter entry.1 read.2 == counter entry.1 row

/-- The condition on a step: a write that succeeds claims no later revision than its call
read, and no other call has changed the counter of a step it replaces. -/
def undisturbedRetries (w : FlowWorld) (choice : Choice Call Input) : Bool :=
  match choice with
  | .start call => retryCall call
  | .run .. =>
    match w.pending choice, w.store.row with
    | some (thread, .updateFlow wr), some row =>
      row.expectedRevision != wr.expectedRevision ||
        (decide (wr.expectedRevision ≤ wr.current.expectedRevision) &&
          undisturbed thread.history row wr)
    | _, _ => true

variable {env : Env}

/-! ## Rows with the same steps -/

/-- What no retrying call changes of a step. -/
def shape (step : Step) : String × Option RetryPolicy := (step.stepId, step.retryPolicy)

/-- The row lists the steps of the initial one. -/
def Kin (initial flow : Flow) : Prop :=
  flow.state.steps.map shape = initial.state.steps.map shape

theorem Kin.ids {initial flow : Flow} (kin : Kin initial flow) :
    stepIds flow.state.steps = stepIds initial.state.steps := by
  have ids := congrArg (List.map Prod.fst) kin
  simpa [List.map_map, Function.comp_def, shape] using ids

theorem Carried.kin {initial row row' : Flow} {replaced : List (String × Int)}
    (carried : Carried replaced row.state.steps row'.state.steps) (kin : Kin initial row) :
    Kin initial row' := by
  have same : row'.state.steps.map shape = row.state.steps.map shape := by
    generalize row.state.steps = old at carried
    generalize row'.state.steps = new at carried ⊢
    induction carried with
    | nil => rfl
    | cons head _ ih => simp [shape, head.stepId, head.retryPolicy, ih]
  exact same.trans kin

/-- Rows with the same steps agree on a step's policy. -/
theorem Kin.policy {initial row read : Flow} {step seen : Step} (kin : Kin initial row)
    (kin_read : Kin initial read) (distinct : (stepIds initial.state.steps).Nodup)
    (member : step ∈ row.state.steps) (seen_member : seen ∈ read.state.steps)
    (same : seen.stepId = step.stepId) : seen.retryPolicy = step.retryPolicy := by
  have listed : shape step ∈ initial.state.steps.map shape := kin ▸ List.mem_map_of_mem member
  have seen_listed : shape seen ∈ initial.state.steps.map shape :=
    kin_read ▸ List.mem_map_of_mem seen_member
  have single : ((initial.state.steps.map shape).map Prod.fst).Nodup := by
    simpa [List.map_map, Function.comp_def, shape] using distinct
  have equal := List.inj_on_of_nodup_map single seen_listed listed same
  exact (Prod.mk.inj equal).2

theorem firstById_of_distinct {steps : List Step} {step : Step}
    (distinct : (stepIds steps).Nodup) (member : step ∈ steps) :
    firstById steps step.stepId = some step := by
  cases found : firstById steps step.stepId with
  | none =>
    have missing := List.find?_eq_none.mp found step member
    simp at missing
  | some other =>
    obtain ⟨listed, same⟩ := firstById_mem found
    rw [List.inj_on_of_nodup_map distinct listed member same]

theorem counter_of_member {flow : Flow} {step : Step}
    (distinct : (stepIds flow.state.steps).Nodup) (member : step ∈ flow.state.steps) :
    counter step.stepId flow = some (stepRetryCount step) := by
  simp [counter, firstById_of_distinct distinct member]

/-! ## One write -/

/-- What every allowed run keeps. -/
structure Budgeted (env : Env) (initial : Flow) (w : FlowWorld) : Prop where
  sound : Sound env w
  calls : ∀ t ∈ w.threads, retryCall t.request = true
  row : ∃ row, w.store.row = some row ∧ Kin initial row
  reads : ∀ t ∈ w.threads, ∀ read ∈ reads t.history, Kin initial read.2
  counted : ∀ row, w.store.row = some row → ∀ step ∈ row.state.steps,
    (replacements step.stepId w : Int) ≤ stepRetryCount step
  bounded : ∀ row, w.store.row = some row → ∀ step ∈ row.state.steps,
    (replacements step.stepId w : Int) ≤ retryBudget env step

variable {initial : Flow} {w w' : FlowWorld}

theorem persisted_append (id : String) (h : History) (event : Event effects) :
    persisted id (h ++ [event]) = persisted id h +
      ((storing event.op event.ans).toList.map fun wr =>
        ((replacedBy wr.build).map Prod.fst).count id).sum := by
  simp [persisted, storedWrites, seen_append]

/-- The counter a replacement was decided on, when no other call has changed it, and the
budget that was left. -/
theorem replaced_step {thread : Thread effects Call Reply} {plan : Plan} {row : Flow}
    {wr : Write} {step : Step} {count : Int} (distinct : (stepIds initial.state.steps).Nodup)
    (planned : Planned env thread.request thread.history plan) (build : wr.build = plan.build)
    (kin : Kin initial row) (kin_reads : ∀ read ∈ reads thread.history, Kin initial read.2)
    (found : undisturbed thread.history row wr = true) (member : step ∈ row.state.steps)
    (replaced : (step.stepId, count) ∈ replacedBy wr.build) :
    count = stepRetryCount step + 1 ∧ count ≤ retryBudget env step := by
  rw [build] at replaced
  obtain ⟨read, seen_read, decides, seen, listed, same, counts, within⟩ :=
    replaced_counts planned replaced
  have kin_read := kin_reads read seen_read
  have agreed : counter step.stepId read.2 = counter step.stepId row := by
    simp only [undisturbed, build, List.all_eq_true] at found
    simpa [decides] using found _ replaced read seen_read
  have read_counter := counter_of_member (kin_read.ids ▸ distinct) listed
  rw [same, agreed, counter_of_member (kin.ids ▸ distinct) member, Option.some.injEq]
    at read_counter
  have policy := kin.policy kin_read distinct member listed same
  rw [counts, ← read_counter]
  refine ⟨rfl, ?_⟩
  simp only [retriesRemaining, normalizePolicy, policy, ← read_counter] at within
  simp only [retryBudget, policyBudget, normalizePolicy]
  cases given : step.retryPolicy with
  | none =>
    simp [given] at within
    simp
    omega
  | some policy =>
    simp [given] at within
    simp
    omega

/-- What a write that succeeds does to the counters and to the replacements. -/
structure Replaces (env : Env) (w w' : FlowWorld) (row : Flow) (wr : Write) : Prop where
  carried : Carried (replacedBy wr.build) row.state.steps (wr.update row).state.steps
  total : ∀ id, replacements id w' = replacements id w +
    ((replacedBy wr.build).map Prod.fst).count id
  counts : ∀ step ∈ row.state.steps, ∀ count, (step.stepId, count) ∈ replacedBy wr.build →
    count = stepRetryCount step + 1 ∧ count ≤ retryBudget env step
  single : ((replacedBy wr.build).map Prod.fst).Nodup

theorem replaces_stored {i : Nat} {thread : Thread effects Call Reply} {wr : Write} {row : Flow}
    (distinct : (stepIds initial.state.steps).Nodup) (before : Budgeted env initial w)
    (fires : (system env).Fires w w' i thread (.updateFlow wr) .stored)
    (stands : w.store.row = some row) (matching : row.expectedRevision = wr.expectedRevision)
    (bound : wr.expectedRevision ≤ wr.current.expectedRevision)
    (found : undisturbed thread.history row wr = true) : Replaces env w w' row wr := by
  have member := System.Fires.mem fires
  have kin_reads := before.reads thread member
  obtain ⟨row', stands', kin⟩ := before.row
  obtain rfl : row' = row := Option.some.inj (stands'.symm.trans stands)
  obtain ⟨plan, planned, based⟩ := before.sound.based member
    (System.Fires.issued fires before.sound.honours) stands matching bound
  have read_distinct : ∀ read ∈ reads thread.history, (stepIds read.2.state.steps).Nodup :=
    fun read seen_read => (kin_reads read seen_read).ids ▸ distinct
  have listed : ∀ read ∈ reads thread.history,
      stepIds read.2.state.steps = stepIds row'.state.steps :=
    fun read seen_read => (kin_reads read seen_read).ids.trans kin.ids.symm
  have single := replaced_single planned read_distinct
  constructor
  · exact update_carried planned based (before.calls thread member) listed (kin.ids ▸ distinct)
      single
  · intro id
    obtain ⟨after, -, history, balance⟩ := System.Fires.total fires fun t => persisted id t.history
    rw [history, persisted_append] at balance
    simp [storing] at balance
    simp only [replacements]
    omega
  · intro step inside count replaced
    exact replaced_step distinct planned based.build kin kin_reads found inside replaced
  · rw [based.build]
    exact single

/-- The counters of the steps, before and after. -/
theorem Replaces.step {row : Flow} {wr : Write} (replaces : Replaces env w w' row wr)
    {old new : Step} (carries : Carries (replacedBy wr.build) old new) (member : old ∈ row.state.steps)
    (counted : (replacements old.stepId w : Int) ≤ stepRetryCount old)
    (bounded : (replacements old.stepId w : Int) ≤ retryBudget env old) :
    (replacements new.stepId w' : Int) ≤ stepRetryCount new ∧
      (replacements new.stepId w' : Int) ≤ retryBudget env new := by
  have same : retryBudget env new = retryBudget env old := by
    simp [retryBudget, policyBudget, normalizePolicy, carries.retryPolicy]
  rw [carries.stepId, same, replaces.total]
  by_cases replaced : old.stepId ∈ (replacedBy wr.build).map Prod.fst
  · obtain ⟨⟨id, count⟩, inside, rfl⟩ := List.mem_map.mp replaced
    obtain ⟨counts, within⟩ := replaces.counts old member count inside
    have once := List.nodup_iff_count_le_one.mp replaces.single old.stepId
    have written := carries.counted count inside
    simp only [stepRetryCount, written]
    simp only [stepRetryCount] at counts counted
    omega
  · have none_new : ((replacedBy wr.build).map Prod.fst).count old.stepId = 0 :=
      List.count_eq_zero.mpr replaced
    have later := carries.kept replaced
    omega

/-! ## All interleavings -/

/-- A step of a call leaves the row and the replacements alone, or stores a write. -/
theorem effect_cases {i : Nat} {input : Input} {thread : Thread effects Call Reply} {op : Op}
    {ans : op.Ans} (distinct : (stepIds initial.state.steps).Nodup)
    (before : Budgeted env initial w) (allowed : undisturbedRetries w (.run i input) = true)
    (fires : (system env).Fires w w' i thread op ans) :
    (w'.store.row = w.store.row ∧ ∀ id, replacements id w' = replacements id w) ∨
      ∃ wr row, w.store.row = some row ∧ w'.store.row = some (wr.update row) ∧
        Replaces env w w' row wr := by
  have issued := System.Fires.issued fires before.sound.honours
  have calls := before.calls thread (System.Fires.mem fires)
  cases Fires.rowEffect fires with
  | kept same unstored read =>
    refine .inl ⟨same, fun id => ?_⟩
    obtain ⟨after, -, history, balance⟩ := System.Fires.total fires fun t => persisted id t.history
    rw [history, persisted_append] at balance
    simp [unstored] at balance
    simp only [replacements]
    omega
  | @stored wr row stands matching written =>
    simp only [undisturbedRetries, System.Fires.pending fires input, stands, matching,
      bne_self_eq_false, Bool.false_or, Bool.and_eq_true, decide_eq_true_eq] at allowed
    exact .inr ⟨wr, row, stands, written,
      replaces_stored distinct before fires stands matching allowed.1 allowed.2⟩
  | created absent written =>
    obtain ⟨row, stands, -⟩ := before.row
    rw [absent] at stands
    cases stands
  | superseded stands written =>
    obtain ⟨successor, supersedes⟩ := issued
    rw [supersedes] at calls
    cases calls

theorem budgeted_fires {i : Nat} {input : Input} {thread : Thread effects Call Reply} {op : Op}
    {ans : op.Ans} (distinct : (stepIds initial.state.steps).Nodup)
    (before : Budgeted env initial w) (allowed : undisturbedRetries w (.run i input) = true)
    (fires : (system env).Fires w w' i thread op ans) :
    (∃ row, w'.store.row = some row ∧ Kin initial row) ∧
      ∀ row, w'.store.row = some row → ∀ step ∈ row.state.steps,
        (replacements step.stepId w' : Int) ≤ stepRetryCount step ∧
          (replacements step.stepId w' : Int) ≤ retryBudget env step := by
  obtain ⟨row, stands, kin⟩ := before.row
  rcases effect_cases distinct before allowed fires with ⟨same, total⟩ |
    ⟨wr, row', stands', written, replaces⟩
  · refine ⟨⟨row, same.trans stands, kin⟩, fun row stands step member => ?_⟩
    rw [same] at stands
    rw [total]
    exact ⟨before.counted row stands step member, before.bounded row stands step member⟩
  · obtain rfl : row' = row := Option.some.inj (stands'.symm.trans stands)
    refine ⟨⟨_, written, Carried.kin replaces.carried kin⟩, fun after stood new inside => ?_⟩
    obtain rfl : wr.update row' = after := Option.some.inj (written.symm.trans stood)
    obtain ⟨old, member, carries⟩ := exists_of_forall₂ replaces.carried inside
    exact replaces.step carries member (before.counted row' stands old member)
      (before.bounded row' stands old member)

theorem budgeted_step {choice : Choice Call Input}
    (distinct : (stepIds initial.state.steps).Nodup) (before : Budgeted env initial w)
    (allowed : undisturbedRetries w choice = true) (stepped : (system env).step w choice = some w') :
    Budgeted env initial w' := by
  have calls := System.serves_step (P := fun call => retryCall call = true) before.calls
    (fun _ started => by subst started; exact allowed) stepped
  have sound := sound_step before.sound stepped
  rcases System.step_cases _ stepped with
    ⟨call, rfl, store, threads⟩ | ⟨i, input, thread, op, ans, rfl, fires⟩
  · have total : ∀ id, replacements id w' = replacements id w := by
      intro id
      simp [replacements, World.total, threads, persisted]
    constructor
    · exact sound
    · exact calls
    · rw [store]
      exact before.row
    · intro t member read seen_read
      rw [threads] at member
      rcases List.mem_append.mp member with old | new
      · exact before.reads t old read seen_read
      · rw [List.mem_singleton.mp new] at seen_read
        cases seen_read
    · intro row stands step member
      rw [store] at stands
      rw [total]
      exact before.counted row stands step member
    · intro row stands step member
      rw [store] at stands
      rw [total]
      exact before.bounded row stands step member
  · obtain ⟨row, counters⟩ := budgeted_fires distinct before allowed fires
    constructor
    · exact sound
    · exact calls
    · exact row
    · intro t member read seen_read
      rcases System.Fires.thread_cases fires member with old | ⟨-, history⟩
      · exact before.reads t old read seen_read
      · rw [history, reads, seen_append] at seen_read
        rcases List.mem_append.mp seen_read with earlier | now
        · exact before.reads thread (System.Fires.mem fires) read earlier
        · have now : reading op ans = some read := by simpa using now
          cases Fires.rowEffect fires with
          | kept same unstored answers =>
            obtain ⟨stands, there, kin⟩ := before.row
            rw [answers read.1 read.2 now, Option.some.injEq] at there
            rw [there]
            exact kin
          | _ => cases now
    · exact fun row stands step member => (counters row stands step member).1
    · exact fun row stands step member => (counters row stands step member).2

theorem policyBudget_nonneg (step : Step) : 0 ≤ policyBudget step := by
  unfold policyBudget normalizePolicy
  cases step.retryPolicy with
  | none => simp
  | some policy => simp

theorem budgeted_run (distinct : (stepIds initial.state.steps).Nodup)
    (run : (system env).Runs (fun v choice => undisturbedRetries v choice = true)
      (initialWorld (some initial)) w) : Budgeted env initial w := by
  have start : Budgeted env initial (initialWorld (some initial)) := by
    have none_yet : ∀ id, replacements id (initialWorld (some initial)) = 0 := fun id => rfl
    constructor
    · exact sound_initial _
    · exact fun t member => absurd member List.not_mem_nil
    · exact ⟨initial, rfl, rfl⟩
    · exact fun t member => absurd member List.not_mem_nil
    · intro row stands step member
      rw [none_yet]
      exact Int.le_max_left 0 _
    · intro row stands step member
      rw [none_yet]
      exact le_trans (policyBudget_nonneg step) (Int.le_max_left _ _)
  exact System.Runs.invariant _ run start fun _ _ _ before allowed stepped =>
    budgeted_step distinct before allowed stepped

/-- In every interleaving of the retrying calls in which each replacement finds the counter
it was decided on, a step is given at most as many replacements as the larger of its
policy's and the judge's budget, and each of them counts up by one. -/
theorem replacements_counted {flow : Flow} (distinct : (stepIds flow.state.steps).Nodup)
    (run : (system env).Runs (fun v choice => undisturbedRetries v choice = true)
      (initialWorld (some flow)) w) :
    (∀ step ∈ flow.state.steps, (replacements step.stepId w : Int) ≤ retryBudget env step) ∧
    ∀ (choice : Choice Call Input) (w' : FlowWorld), undisturbedRetries w choice = true →
      (system env).step w choice = some w' → ∀ step ∈ flow.state.steps,
      replacements step.stepId w' = replacements step.stepId w ∨
        (replacements step.stepId w' = replacements step.stepId w + 1 ∧
          ∃ count, storedCounter step.stepId w = some count ∧
            storedCounter step.stepId w' = some (count + 1)) := by
  have budgeted := budgeted_run distinct run
  obtain ⟨row, stands, kin⟩ := budgeted.row
  -- Every step of the initial flow is still in the row, with its policy.
  have present : ∀ step ∈ flow.state.steps, ∃ now ∈ row.state.steps, shape now = shape step := by
    intro step member
    have listed : shape step ∈ row.state.steps.map shape := by
      rw [kin]
      exact List.mem_map_of_mem member
    exact List.mem_map.mp listed
  constructor
  · intro step member
    obtain ⟨now, inside, same⟩ := present step member
    obtain ⟨id, policy⟩ := Prod.mk.inj same
    have bounded := budgeted.bounded row stands now inside
    rw [id] at bounded
    simpa only [retryBudget, policyBudget, normalizePolicy, policy] using bounded
  · intro choice w' allowed stepped step member
    obtain ⟨now, inside, same⟩ := present step member
    have id : now.stepId = step.stepId := congrArg Prod.fst same
    rw [← id]
    rcases System.step_cases _ stepped with
      ⟨call, -, -, threads⟩ | ⟨i, input, thread, op, ans, rfl, fires⟩
    · exact .inl (by simp [replacements, World.total, threads, persisted])
    · rcases effect_cases distinct budgeted allowed fires with ⟨-, total⟩ |
        ⟨wr, row', stands', written, replaces⟩
      · exact .inl (total _)
      · obtain rfl : row' = row := Option.some.inj (stands'.symm.trans stands)
        have row_distinct : (stepIds row'.state.steps).Nodup := kin.ids ▸ distinct
        have total := replaces.total now.stepId
        by_cases replaced : now.stepId ∈ (replacedBy wr.build).map Prod.fst
        · refine .inr ⟨?_, stepRetryCount now, ?_, ?_⟩
          · have once := List.count_eq_one_of_mem replaces.single replaced
            omega
          · simp [storedCounter, stands, counter_of_member row_distinct inside]
          · obtain ⟨new, listed, carries⟩ := exists_of_forall₂ replaces.carried.flip inside
            obtain ⟨⟨other, count⟩, entry, rfl⟩ := List.mem_map.mp replaced
            have counts := (replaces.counts now inside count entry).1
            have written_count := carries.counted count entry
            have found := counter_of_member
              (replaces.carried.stepIds ▸ row_distinct) listed
            rw [carries.stepId] at found
            simp only [storedCounter, written, Option.bind_some, found, Option.some.injEq]
            simp only [stepRetryCount, written_count]
            simp only [stepRetryCount] at counts
            omega
        · have none_new : ((replacedBy wr.build).map Prod.fst).count now.stepId = 0 :=
            List.count_eq_zero.mpr replaced
          exact .inl (by omega)

/-! ## Retries of one step -/

/-- A step with one retry, dispatched to the child `k`. -/
def retriedStep : Step :=
  { stepId := "s", task := "collect", status := some .dispatched, childSessionKey := some "k"
    retryPolicy := some { maxRetries := 1, retryDelaySeconds := some 0 } }

def retriedFlow : Flow := { flowId := "flow", state := { steps := [retriedStep] } }

def judgedFlow : Flow :=
  { flowId := "flow", state := { steps := [{ retriedStep with judgeCriteria := some "complete" }] } }

def retryDigests : List (String × String) :=
  [("k\x1fok", "3f8eaa702abe49b4"), ("c1\x1fok", "06877634b6847577"),
    ("k\x1ferror: a", "55998ad2c4f27034"), ("k\x1ferror: b", "d96ebaa73623cf85"),
    ("k2\x1fok", "2fc0a214597f89b1"), ("k2\x1ferror: a", "db2d14b5f0608984")]

/-- The repository's configuration, with a judge that may retry twice. -/
def judgingEnv : Env := scenarioEnv retryDigests []

/-- A configuration without judge retries. -/
def strictEnv : Env := { judgingEnv with infra := { judgeMaxRetries := 0 } }

def resumeWith (child result : String) : Call :=
  .resume { childSessionKey := child, result }

def startedAs (key : String) : Input := .spawned { accepted := true, childSessionKey := key }

def judgedRetry : Input := .judged { verdict := .retry }

/-- Two resumes in turn, each judged RETRY. -/
def judgedTwice : List (Choice Call Input) :=
  [.start (resumeWith "k" "ok"), .run 0 .tick, .run 0 judgedRetry, .run 0 (startedAs "c1"),
    .run 0 .tick, .run 0 .tick, .start (resumeWith "c1" "ok"), .run 1 .tick, .run 1 judgedRetry,
    .run 1 (startedAs "c2"), .run 1 .tick, .run 1 .tick]

/-- Two failures of one child, both read before either is stored. -/
def failuresAtOnce : List (Choice Call Input) :=
  [.start (resumeWith "k" "error: a"), .start (resumeWith "k" "error: b"), .run 0 .tick,
    .run 1 .tick, .run 0 (startedAs "c1"), .run 1 (startedAs "c2"), .run 0 .tick, .run 0 .tick,
    .run 1 .tick, .run 1 .tick, .run 1 .tick, .run 1 .tick]

/-- The first failure is stored while a result for the other step, which claims the row's
next revision, has been computed from the row before it. -/
def laterRevision : List (Choice Call Input) :=
  [.start (resumeWith "k" "error: a"),
    .start (.resume { childSessionKey := "k2", result := "ok", expectedRevision := some 2 }),
    .run 0 .tick, .run 1 .tick, .run 0 (startedAs "c1"), .run 0 .tick, .run 0 .tick, .run 1 .tick,
    .run 1 .tick, .start (resumeWith "k" "error: b"), .run 2 .tick, .run 2 (startedAs "c2"),
    .run 2 .tick, .run 2 .tick]

def twoStepFlow : Flow :=
  { flowId := "flow", state := { steps := [retriedStep,
      { stepId := "t", task := "report", status := some .dispatched
        childSessionKey := some "k2" }] } }

/-- Two steps with one id; the first has been retried five times. -/
def repeatedIdFlow : Flow :=
  { flowId := "flow", state := { steps := [{ retriedStep with retryCount := 5 },
      { retriedStep with childSessionKey := some "k2" }] } }

/-- The judge gives a step with one retry two replacements. -/
theorem judge_exceeds_policy : ∃ w : FlowWorld,
    (system judgingEnv).Runs (fun v choice => retryingCalls v choice = true)
      (initialWorld (some judgedFlow)) w ∧
    replacements "s" w = 2 ∧ storedCounter "s" w = some 2 := by
  have played : ((system judgingEnv).play retryingCalls (initialWorld (some judgedFlow))
      judgedTwice).any (fun w => replacements "s" w == 2 && storedCounter "s" w == some 2) =
        true := by
    decide +kernel
  obtain ⟨w, run, holds⟩ := System.Runs.exists_of_play played
  simp only [Bool.and_eq_true, beq_iff_eq] at holds
  exact ⟨w, run, holds.1, holds.2⟩

/-- Two replacements, and the counter says one. -/
theorem replacement_uncounted : ∃ w : FlowWorld,
    (system strictEnv).Runs (fun v choice => retryingCalls v choice = true)
      (initialWorld (some retriedFlow)) w ∧
    replacements "s" w = 2 ∧ storedCounter "s" w = some 1 := by
  have played : ((system strictEnv).play retryingCalls (initialWorld (some retriedFlow))
      failuresAtOnce).any (fun w => replacements "s" w == 2 && storedCounter "s" w == some 1) =
        true := by
    decide +kernel
  obtain ⟨w, run, holds⟩ := System.Runs.exists_of_play played
  simp only [Bool.and_eq_true, beq_iff_eq] at holds
  exact ⟨w, run, holds.1, holds.2⟩

/-- A write at a claimed revision takes the counter back. -/
theorem counter_taken_back : ∃ w : FlowWorld,
    (system strictEnv).Runs (fun v choice => retryingCalls v choice = true)
      (initialWorld (some twoStepFlow)) w ∧
    replacements "s" w = 2 ∧ storedCounter "s" w = some 1 := by
  have played : ((system strictEnv).play retryingCalls (initialWorld (some twoStepFlow))
      laterRevision).any (fun w => replacements "s" w == 2 && storedCounter "s" w == some 1) =
        true := by
    decide +kernel
  obtain ⟨w, run, holds⟩ := System.Runs.exists_of_play played
  simp only [Bool.and_eq_true, beq_iff_eq] at holds
  exact ⟨w, run, holds.1, holds.2⟩

/-- A replacement of the second step with an id is counted at the first. -/
theorem counter_of_namesake : ∃ w : FlowWorld,
    (system strictEnv).Runs (fun v choice => retryingCalls v choice = true)
      (initialWorld (some repeatedIdFlow)) w ∧
    replacements "s" w = 1 ∧ storedCounter "s" w = some 1 := by
  have played : ((system strictEnv).play retryingCalls (initialWorld (some repeatedIdFlow))
      [.start (resumeWith "k2" "error: a"), .run 0 .tick, .run 0 (startedAs "c1"), .run 0 .tick,
        .run 0 .tick]).any
      (fun w => replacements "s" w == 1 && storedCounter "s" w == some 1) = true := by
    decide +kernel
  obtain ⟨w, run, holds⟩ := System.Runs.exists_of_play played
  simp only [Bool.and_eq_true, beq_iff_eq] at holds
  exact ⟨w, run, holds.1, holds.2⟩

/-- The policy's budget is exceeded by the judge's retries, by two replacements decided on
one counter and behind a claimed revision; and with a repeated id a replacement takes a
counter from five to one. -/
theorem retries_exceed_policy :
    policyBudget retriedStep = 1 ∧ strictEnv.infra.judgeMaxRetries = 0 ∧
    (∃ w, (system judgingEnv).Runs (fun v choice => retryingCalls v choice = true)
      (initialWorld (some judgedFlow)) w ∧ replacements "s" w = 2) ∧
    (∃ w, (system strictEnv).Runs (fun v choice => retryingCalls v choice = true)
      (initialWorld (some retriedFlow)) w ∧ replacements "s" w = 2 ∧
        storedCounter "s" w = some 1) ∧
    (∃ w, (system strictEnv).Runs (fun v choice => retryingCalls v choice = true)
      (initialWorld (some twoStepFlow)) w ∧ replacements "s" w = 2 ∧
        storedCounter "s" w = some 1) ∧
    counter "s" repeatedIdFlow = some 5 ∧
    ∃ w, (system strictEnv).Runs (fun v choice => retryingCalls v choice = true)
      (initialWorld (some repeatedIdFlow)) w ∧ replacements "s" w = 1 ∧
        storedCounter "s" w = some 1 := by
  obtain ⟨judged, judged_run, twice, -⟩ := judge_exceeds_policy
  exact ⟨by decide, rfl, ⟨judged, judged_run, twice⟩, replacement_uncounted, counter_taken_back,
    by decide, counter_of_namesake⟩

/-- The judged step's two replacements are within the judge's budget, and counted. -/
theorem replacements_counted_judged : ∃ w : FlowWorld,
    replacements "s" w = 2 ∧
    ∀ step ∈ judgedFlow.state.steps,
      (replacements step.stepId w : Int) ≤ retryBudget judgingEnv step := by
  have played : ((system judgingEnv).play undisturbedRetries (initialWorld (some judgedFlow))
      judgedTwice).any (fun w => replacements "s" w == 2) = true := by
    decide +kernel
  obtain ⟨w, run, twice⟩ := System.Runs.exists_of_play played
  exact ⟨w, by simpa using twice, (replacements_counted (by decide) run).1⟩

end SherryAgent.Guarantees.RetryBudget
