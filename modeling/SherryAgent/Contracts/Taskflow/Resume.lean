import SherryAgent.Contracts.Taskflow.Writes

/-!
# `taskflow_resume` keeps the discipline

Between its read and its write a resume sleeps, starts at most one replacement
and asks the judge; it decides on the row it read throughout.
-/

namespace SherryAgent.Contracts.Taskflow

open SherryAgent.Source SherryAgent.Source.Taskflow SherryAgent.Library.KeyedList
  SherryAgent.Library.Resumption Prog

variable {env : Env} {args : ResumeArgs} {flow : Flow} {step : Step}

/-- A resume between its read and its write. -/
structure Working (env : Env) (args : ResumeArgs) (h : History) (flow : Flow) (step : Step) :
    Prop where
  accepted : Accepted env args h flow
  unchanged : known h = some flow
  found : matched args flow = some step
  unstored : storedWrites h = []

theorem Working.event {h : History} {op : Op} {ans : op.Ans}
    (working : Working env args h flow step) (keeps : observe (some flow) op ans = some flow)
    (unstored : storing op ans = none) : Working env args (h ++ [⟨op, ans⟩]) flow step := by
  refine ⟨⟨seen_mono (List.prefix_append _ _) working.accepted.read, working.accepted.live,
    working.accepted.fresh⟩, ?_, working.found, ?_⟩
  · rw [known_append, working.unchanged, keeps]
  · simp [working.unstored, unstored]

theorem Working.maySpawn {h : History} {request : SpawnRequest}
    (working : Working env args h flow step) (calls : mayReplace env args step = true)
    (unspawned : spawns h = []) (site : request.site = .resumeRetry ∨ request.site = .judgeRetry)
    (contract : request.contract = stepSpawnKwargs step flow.flowId) :
    MayPerform env (.resume args) h (.spawn request) :=
  .retry working.accepted working.unchanged working.found calls site
    ⟨working.unstored, unspawned⟩ contract

/-- A failure is retried only within the budget of the step's policy. -/
theorem remaining_of_shouldRetryFailure {result : String} {validated : Option Bool}
    (retries : shouldRetryFailure step result validated = true) : 0 < retriesRemaining step := by
  unfold shouldRetryFailure at retries
  split at retries
  · cases retries
  · split at retries
    · cases retries
    · rename_i remaining
      omega

/-- The retry of a failure leaves the row known; a replacement is within the budget of
the step's policy, and without one no child is started. -/
theorem retryFailure_issues {result : String} {gate : StructuralGate} {h : History}
    (working : Working env args h flow step) (unjudged : verdicts h = [])
    (unspawned : spawns h = [])
    (calls : shouldRetryFailure step result gate.schemaValidated = true →
      mayReplace env args step = true) :
    (retryFailure env flow result gate step).Issues (E := effects) (MayPerform env (.resume args))
      (fun h' key => Working env args h' flow step ∧ verdicts h' = [] ∧
        match key with
        | none => spawns h' = []
        | some key => 0 < retriesRemaining step ∧
          Started h' key (stepSpawnKwargs step flow.flowId)) h := by
  unfold retryFailure
  split
  · exact ⟨working, unjudged, unspawned⟩
  · rename_i policy _
    split
    · rename_i retries
      refine Issues.bind (fun h' _ => Working env args h' flow step ∧ verdicts h' = [] ∧
        spawns h' = []) (backOff_issues trivial ?_ ⟨working, unjudged, unspawned⟩) ?_
      · exact ⟨working.event rfl rfl, by simp [judging, unjudged], by simp [starting, unspawned]⟩
      rintro h' - - ⟨working, unjudged, unspawned⟩
      rw [issues_bind]
      refine dispatchChild_issues (working.maySpawn (calls retries) unspawned (.inl rfl) rfl)
        (fun result accepted => ?_) (fun result text refused => ?_)
      · exact ⟨working.event rfl rfl, by simp [judging, unjudged],
          remaining_of_shouldRetryFailure retries, .now accepted⟩
      · exact ⟨working.event rfl rfl, by simp [judging, unjudged], by simp [refused, unspawned]⟩
    · exact ⟨working, unjudged, unspawned⟩

/-- The judge's RETRY verdict re-dispatches while the budget lasts and blocks the
step otherwise. -/
theorem judgeRetry_issues {verdict : JudgeResult} {judged : Step} {h : History}
    (working : Working env args h flow step) (unspawned : spawns h = [])
    (calls : stepRetryCount judged < env.infra.judgeMaxRetries → mayReplace env args step = true)
    (retried : verdict.verdict = .retry) (only : verdicts h = [verdict])
    (stepId : judged.stepId = step.stepId) (dependsOn : judged.dependsOn = step.dependsOn)
    (retryPolicy : judged.retryPolicy = step.retryPolicy)
    (count : judged.retryCount = step.retryCount)
    (contract : ∀ flowId, stepSpawnKwargs judged flowId = stepSpawnKwargs step flowId) :
    (judgeRetry env flow judged verdict).Issues (E := effects) (MayPerform env (.resume args))
      (fun h' decision => Working env args h' flow step ∧ Decides env h' flow step decision) h := by
  have counts : stepRetryCount judged = stepRetryCount step := by
    simp only [stepRetryCount, count]
  have blocks : ∀ (h' : History) (reason : String),
      Decides env h' flow step { step := blockStep judged reason } := fun h' reason =>
    { stepId, dependsOn, retryPolicy
      redispatched := fun key count absent => by cases absent
      counted := fun key count absent => by cases absent
      started := fun key count absent => by cases absent
      uncounted := fun _ => count
      settled := fun _ => .inr (.inr (.inr rfl))
      judged := fun _ _ _ => ⟨rfl, rfl⟩ }
  unfold judgeRetry
  split
  · rename_i within
    refine Issues.bind (fun h' key => Working env args h' flow step ∧ verdicts h' = [verdict] ∧
        ∀ started, key = .ok started → Started h' started (stepSpawnKwargs step flow.flowId))
      (dispatchChild_issues (working.maySpawn (calls within) unspawned (.inr rfl) (contract _))
        (fun result accepted => ⟨working.event rfl rfl, by simp [judging, only], fun key same => ?_⟩)
        (fun result text _ => ⟨working.event rfl rfl, by simp [judging, only],
          fun key absent => by cases absent⟩)) ?_
    · cases same
      rw [← contract]
      exact .now accepted
    rintro h' spawned - ⟨working, only, started⟩
    cases spawned with
    | error exc => exact ⟨working, blocks _ _⟩
    | ok key =>
      refine ⟨working, ⟨stepId, dependsOn, retryPolicy, fun key' count' same => ?_,
        fun key' count' same => ?_, fun key' count' same => ?_, fun absent => (by cases absent),
        fun absent => (by cases absent), ?_⟩⟩
      · cases same
        exact ⟨rfl, rfl⟩
      · cases same
        exact ⟨by rw [counts], rfl, .inr (counts ▸ within)⟩
      · cases same
        exact started key rfl
      · intro seen member blocked
        rw [only, List.mem_singleton] at member
        subst member
        rcases blocked with block | ⟨-, exhausted⟩
        · rw [retried] at block
          cases block
        · omega
  · exact ⟨working, blocks _ _⟩

/-- The verdict on a step that was not re-dispatched as a failure; `judged` is the
matched step up to the criteria it is judged by. -/
theorem settleStep_issues {declared : Option StepOutcome} {gate : StructuralGate} {judged : Step}
    {h : History} (working : Working env args h flow step) (unjudged : verdicts h = [])
    (unspawned : spawns h = [])
    (calls : gate.schemaValidated ≠ some false → declared ≠ some .failure →
      declared ≠ some .skipped → hasCriteria judged = true →
      stepRetryCount judged < env.infra.judgeMaxRetries → mayReplace env args step = true)
    (stepId : judged.stepId = step.stepId) (dependsOn : judged.dependsOn = step.dependsOn)
    (retryPolicy : judged.retryPolicy = step.retryPolicy)
    (count : judged.retryCount = step.retryCount)
    (contract : ∀ flowId, stepSpawnKwargs judged flowId = stepSpawnKwargs step flowId) :
    (settleStep env flow args declared gate judged).Issues (E := effects)
      (MayPerform env (.resume args))
      (fun h' decision => Working env args h' flow step ∧ Decides env h' flow step decision) h := by
  have ended : ∀ (h' : History) (after : Step) (status : StepStatus),
      after.stepId = step.stepId → after.dependsOn = step.dependsOn →
      after.retryPolicy = step.retryPolicy → after.retryCount = step.retryCount →
      after.status = some status → status = .done ∨ status = .failed ∨ status = .skipped →
      (∀ verdict ∈ verdicts h', ¬ blocking env step verdict) →
      Decides env h' flow step { step := after } := by
    intro h' after status stepId dependsOn retryPolicy count stored ending passed
    refine ⟨stepId, dependsOn, retryPolicy, fun key count absent => (by cases absent),
      fun key count absent => (by cases absent), fun key count absent => (by cases absent),
      fun _ => count, fun _ => ?_,
      fun verdict member blocked => absurd blocked (passed verdict member)⟩
    rcases ending with rfl | rfl | rfl <;> simp [stored]
  have silent : ∀ verdict ∈ verdicts h, ¬ blocking env step verdict := by simp [unjudged]
  unfold settleStep
  dsimp only
  split
  · exact ⟨working, ended h _ .failed stepId dependsOn retryPolicy count rfl (.inr (.inl rfl)) silent⟩
  rename_i valid
  split
  · exact ⟨working, ended h _ .failed stepId dependsOn retryPolicy count rfl (.inr (.inl rfl)) silent⟩
  rename_i unfailed
  split
  · exact ⟨working, ended h _ .skipped stepId dependsOn retryPolicy count rfl (.inr (.inr rfl)) silent⟩
  rename_i unskipped
  split
  · rename_i criteria
    have calls := calls (by simpa using valid) (by simpa using unfailed) (by simpa using unskipped)
      criteria
    refine Issues.bind (fun h' verdict => Working env args h' flow step ∧
      verdicts h' = [verdict] ∧ spawns h' = []) ⟨trivial, fun verdict => ⟨working.event rfl rfl,
        by simp [judging, unjudged], by simp [starting, unspawned]⟩⟩ ?_
    rintro h' verdict - ⟨working, only, unspawned⟩
    cases judgement : verdict.verdict with
    | retry =>
      exact judgeRetry_issues working unspawned calls judgement only stepId dependsOn retryPolicy
        count contract
    | block =>
      refine ⟨working, ⟨stepId, dependsOn, retryPolicy, fun key count absent => (by cases absent),
        fun key count absent => (by cases absent), fun key count absent => (by cases absent),
        fun _ => count, fun _ => .inr (.inr (.inr rfl)), fun _ _ _ => ⟨rfl, rfl⟩⟩⟩
    | pass =>
      refine ⟨working, ended h' _ .done stepId dependsOn retryPolicy count rfl (.inl rfl) ?_⟩
      intro seen member
      rw [only, List.mem_singleton] at member
      subst member
      simp [blocking, judgement]
  · exact ⟨working, ended h _ .done stepId dependsOn retryPolicy count rfl (.inl rfl) silent⟩

theorem decideStep_issues {declared : Option StepOutcome} {h : History}
    (working : Working env args h flow step) (unjudged : verdicts h = [])
    (unspawned : spawns h = []) (outcome : declaredOutcome args.stepOutcome = .ok declared) :
    (decideStep env flow args declared (structuralGate env args (some step)) step).Issues
      (E := effects) (MayPerform env (.resume args))
      (fun h' decision => Working env args h' flow step ∧ Decides env h' flow step decision) h := by
  refine Issues.bind _ (retryFailure_issues working unjudged unspawned fun retries => ?_) ?_
  · simp [mayReplace, outcome, retries]
  rintro h' key - ⟨working, unjudged, replaced⟩
  cases key with
  | some key =>
    refine ⟨working, ⟨rfl, rfl, rfl, fun key' count same => ?_, fun key' count same => ?_,
      fun key' count same => ?_, fun absent => (by cases absent), fun absent => (by cases absent),
      ?_⟩⟩
    · cases same
      exact ⟨rfl, rfl⟩
    · cases same
      exact ⟨rfl, rfl, .inl replaced.1⟩
    · cases same
      exact replaced.2
    · simp [unjudged]
  | none =>
    have kept : ∀ {β : Type} (field : Step → β),
        (∀ criteria, field { step with validationCriteria := criteria } = field step) →
        field (withCriteria args step) = field step := by
      intro β field same
      simp only [withCriteria]
      split
      · exact same _
      · rfl
    have count : (withCriteria args step).retryCount = step.retryCount :=
      kept (·.retryCount) fun _ => rfl
    refine settleStep_issues working unjudged replaced ?_ (kept (·.stepId) fun _ => rfl)
      (kept (·.dependsOn) fun _ => rfl) (kept (·.retryPolicy) fun _ => rfl)
      count fun flowId => kept (stepSpawnKwargs · flowId) fun _ => rfl
    intro valid unfailed unskipped criteria within
    rw [stepRetryCount, count] at within
    simp [mayReplace, outcome, valid, unfailed, unskipped, criteria, stepRetryCount, within]

/-! ## The wave -/

/-- A wave only dispatches steps it found dispatchable in its own read. -/
theorem autoDispatchReadyLocked_issues (env : Env) (args : ResumeArgs) (ids : List String)
    (distinct : ids.Nodup) (h : History) :
    (autoDispatchReadyLocked env ids).Issues (E := effects) (MayPerform env (.resume args))
      (fun h' _ => h <+: h') h := by
  refine (getFlow_bind_issues _ _ _).mpr ⟨trivial, fun row => ?_⟩
  have earlier : h <+: h ++ [⟨.getFlow (.wave ids), row⟩] := List.prefix_append _ _
  cases row with
  | none => exact earlier
  | some flow =>
    refine Issues.bind _ (spawnBatch_issues env .wave flow (waveReady flow.state.steps ids) _
      (known_read _ _ _) (distinct.filter _) ?_) ?_
    · intro h' id step request later unchanged requested found site contract
      exact .wave (seen_mono later (mem_reads_read _ _ _)) unchanged requested found site contract
    · rintro h₂ batch - ⟨later, unchanged, batched, started⟩
      dsimp only
      split
      · exact earlier.trans later
      · refine Issues.bind (fun h' _ => h₂ <+: h')
          (updateFlowWithConflictRetry_issues env
            ⟨flow, waveSteps flow.state.steps batch, .dispatched (batch.filterMap waveRecord),
              flow.expectedRevision, {}⟩ _ _ h₂ unchanged rfl ?_ (fun _ => trivial)
            (fun _ => trivial) ?_ (fun _ _ later => later)) ?_
        · intro h' w quiet attempt
          refine ⟨_, ?_, attempt, fun absent => (by cases absent)⟩
          have read : (.wave ids, flow) ∈ reads h₂ := seen_mono later (mem_reads_read _ _ _)
          exact .wave (quiet.reads read) distinct batched (started.mono quiet.earlier)
        · intro h' w updated quiet _
          exact (quiet.earlier.trans (List.prefix_append _ _)).trans (List.prefix_append _ _)
        · intro h₃ persisted _ latest
          cases persisted with
          | ok value => exact (earlier.trans later).trans latest
          | error text => exact (earlier.trans later).trans latest

theorem autoDispatchReady_issues (env : Env) (args : ResumeArgs) (ids : List String)
    (distinct : ids.Nodup) (h : History) :
    (autoDispatchReady env ids).Issues (E := effects) (MayPerform env (.resume args))
      (fun h' _ => h <+: h') h := by
  refine Issues.bind (fun h' _ => h <+: h') ⟨trivial, fun _ => List.prefix_append _ _⟩ ?_
  intro h₁ _ _ locked
  refine Issues.bind _ (autoDispatchReadyLocked_issues env args ids distinct h₁) ?_
  intro h₂ outcome _ later
  exact ⟨trivial, fun _ => (locked.trans later).trans (List.prefix_append _ _)⟩

/-- The reply of a stored resume, after its wave. -/
theorem resumeWave_issues {stepId : Option String} {build : BuildState} {updated base : Flow}
    {h : History} {w : Write} (stored : w ∈ storedWrites h)
    (resumes : BuildState.resumes w.build = true) :
    (resumeWave env args stepId build updated base).Issues (E := effects)
      (MayPerform env (.resume args)) MayReturn h := by
  unfold resumeWave
  dsimp only
  split
  · have distinct : (waveIds env (unlockedBy build base) updated.state.steps).Nodup := by
      unfold waveIds
      split <;> exact nodup_eraseDups _
    refine Issues.bind _ (autoDispatchReady_issues env args _ distinct h) ?_
    rintro h₁ ⟨dispatched, failures⟩ - later
    exact (getFlow_bind_issues _ _ _).mpr ⟨trivial, fun row _ =>
      ⟨w, seen_mono (later.trans (List.prefix_append _ _)) stored, resumes⟩⟩
  · intro _
    exact ⟨w, stored, resumes⟩

/-! ## The tool -/

/-- The write of a resume that has made its decision, and what follows it. -/
theorem persistResume_issues (plan : Plan) {stepId : Option String} {keys : List String}
    {h : History} (unchanged : known h = some plan.read) (unstored : storedWrites h = [])
    (resumes : BuildState.resumes plan.build = true)
    (planned : Planned env (.resume args) h plan) :
    (do
      let persisted ← updateFlowWithConflictRetry env plan.read.flowId plan.revision plan.origin
        plan.build keys plan.kwargs
      match persisted with
      | .error text => pure (.error text)
      | .ok (updated, base) =>
        resumeWave env args stepId plan.build updated base : Tool Reply).Issues (E := effects)
      (MayPerform env (.resume args)) MayReturn h := by
  have replayed : BuildState.replayed plan.build = true := by
    cases build : plan.build <;> simp_all [BuildState.resumes, BuildState.replayed]
  refine Issues.bind (fun h' persisted => ∀ updated base, persisted = .ok (updated, base) →
      ∃ w ∈ storedWrites h', BuildState.resumes w.build = true)
    (updateFlowWithConflictRetry_issues env plan _ _ h unchanged replayed ?_ (fun _ => trivial)
      (fun _ => trivial) ?_ (fun _ _ _ _ _ absent => (by cases absent))) ?_
  · intro h' w quiet attempt
    exact ⟨plan, planned.mono quiet, attempt, fun _ => by rw [quiet.stored, unstored]⟩
  · intro h' w updated quiet attempt _ _ _
    refine ⟨w, seen_mono (List.prefix_append _ _) (mem_storedWrites h' w), ?_⟩
    cases attempt <;> exact resumes
  · intro h' persisted _ stored
    cases persisted with
    | error text => exact fun resumed => (by cases resumed)
    | ok value =>
      obtain ⟨w, member, resumes⟩ := stored value.1 value.2 rfl
      exact resumeWave_issues member resumes

/-- What a resume has decided, about the step it matched or without one. -/
def Decided (env : Env) (args : ResumeArgs) (h : History) (flow : Flow) : Option Decision → Prop
  | none => matched args flow = none
  | some decision => ∃ step, matched args flow = some step ∧ Decides env h flow step decision

theorem resumeFlow_issues {declared : Option StepOutcome} {h : History}
    (outcome : declaredOutcome args.stepOutcome = .ok declared)
    (accepted : Accepted env args h flow) (unchanged : known h = some flow)
    (unstored : storedWrites h = []) (unjudged : verdicts h = []) (unspawned : spawns h = []) :
    (resumeFlow env args (PyText.strip args.childSessionKey) declared flow).Issues (E := effects)
      (MayPerform env (.resume args)) MayReturn h := by
  unfold resumeFlow
  refine Issues.bind (fun h' decision => Accepted env args h' flow ∧ known h' = some flow ∧
    storedWrites h' = [] ∧ Decided env args h' flow decision) ?_ ?_
  · cases found : firstByChild flow.state.steps (PyText.strip args.childSessionKey) with
    | none => exact ⟨accepted, unchanged, unstored, found⟩
    | some step =>
      refine Issues.bind _ (decideStep_issues ⟨accepted, unchanged, found, unstored⟩ unjudged
        unspawned outcome) ?_
      rintro h' decision - ⟨working, decides⟩
      exact ⟨working.accepted, working.unchanged, working.unstored, step, found, decides⟩
  · rintro h' decision - ⟨accepted, unchanged, unstored, decided⟩
    cases decision with
    | none =>
      exact persistResume_issues ⟨flow, flow.state.steps, .settle _ none {}, _, _⟩ unchanged
        unstored rfl (.unmatched accepted decided rfl)
    | some decision =>
      obtain ⟨step, found, decides⟩ := decided
      dsimp only [resumeWrite]
      cases respawned : decision.redispatched with
      | none =>
        rw [decides.stepId]
        exact persistResume_issues ⟨flow, decidedSteps args flow decision,
          .settle _ (some step.stepId) (.ofStep decision.step), _, _⟩ unchanged unstored rfl
          (.settle accepted found decides respawned rfl)
      | some entry =>
        rw [decides.stepId]
        exact persistResume_issues ⟨flow, decidedSteps args flow decision,
          .redispatch _ step.stepId entry.1 entry.2 _, _, _⟩ unchanged unstored rfl
          (.redispatch accepted found decides respawned rfl)

theorem taskflowResume_disciplined (env : Env) (args : ResumeArgs) :
    Disciplined env (.resume args) := by
  refine ⟨?_⟩
  unfold code taskflowResume
  dsimp only
  split
  · exact fun resumed => (by cases resumed)
  rename_i outcome
  split
  · exact fun resumed => (by cases resumed)
  refine (getFlow_bind_issues _ _ _).mpr ⟨⟨rfl, args, rfl, rfl⟩, fun row => ?_⟩
  cases row with
  | none => exact fun resumed => (by cases resumed)
  | some flow =>
    dsimp only
    split
    · exact fun resumed => (by cases resumed)
    split
    · exact fun resumed => (by cases resumed)
    · rename_i live fresh
      exact resumeFlow_issues outcome
        ⟨mem_reads_read [] _ _, Bool.eq_false_iff.mpr live, Bool.eq_false_iff.mpr fresh⟩
        (known_read [] _ _) rfl rfl rfl

end SherryAgent.Contracts.Taskflow
