import SherryAgent.Contracts.Taskflow.Dispatch

/-!
# The remaining tools keep the discipline

Creation and the step-list tools, the tools that move the flow as a whole, and
the specification of every call of the family.
-/

namespace SherryAgent.Contracts.Taskflow

open SherryAgent.Source SherryAgent.Source.Taskflow SherryAgent.Library.Resumption Prog

variable {env : Env}

/-! ## `taskflow_run_task` -/

theorem registerBlocked_issues {args : RunTaskArgs} {flow : Flow} {h : History}
    (read : (.tool, flow) ∈ reads h) (unchanged : known h = some flow)
    (live : isTerminal flow.status = false) :
    (registerBlocked env args flow (nextStepId flow.state.steps)).Issues (E := effects)
      (MayPerform env (.runTask args)) MayReturn h := by
  refine Issues.bind _ (updateOnce_issues _ unchanged rfl (.register read live)) ?_
  intro h' outcome _ _
  cases outcome <;> exact fun resumed => (by cases resumed)

theorem runSpawned_issues {args : RunTaskArgs} {flow : Flow} {h : History}
    (read : (.tool, flow) ∈ reads h) (unchanged : known h = some flow)
    (live : isTerminal flow.status = false)
    (satisfied : depsSatisfied (args.step (nextStepId flow.state.steps) .ready)
      flow.state.steps = true) (unstarted : children h = []) :
    (runSpawned env args flow (nextStepId flow.state.steps)).Issues (E := effects)
      (MayPerform env (.runTask args)) MayReturn h := by
  refine Issues.bind (fun h' spawned => h <+: h' ∧ known h' = some flow ∧
      ∀ key, spawned = .ok key → ∃ request, children h' = [(request, key)] ∧
        request.contract = stepSpawnKwargs (args.step (nextStepId flow.state.steps) .ready) env.flowId)
    (dispatchChild_issues (.runTask read unchanged live satisfied rfl rfl)
      (fun result accepted => ?_) (fun result text _ => ?_)) ?_
  · refine ⟨List.prefix_append _ _, by rw [known_append, unchanged]; rfl, fun key same => ?_⟩
    cases same
    exact ⟨_, children_first accepted unstarted, rfl⟩
  · exact ⟨List.prefix_append _ _, by rw [known_append, unchanged]; rfl,
      fun key absent => by cases absent⟩
  · rintro h₁ spawned - ⟨later, unchanged, only⟩
    cases spawned with
    | error text => exact fun resumed => (by cases resumed)
    | ok key =>
      refine Issues.bind (fun _ _ => True)
        (updateFlowWithConflictRetry_issues env
          ⟨flow, flow.state.steps, .runTask { args.step (nextStepId flow.state.steps) .dispatched
              with childSessionKey := some key },
            args.expectedRevision.getD flow.expectedRevision,
            { childSessionKey := some (some key) }⟩ _ _ h₁ unchanged rfl ?_ (fun _ => trivial)
          (fun _ => trivial) (fun _ _ _ _ _ => trivial) (fun _ _ _ => trivial)) ?_
      · intro h' w quiet attempt
        exact ⟨_, .runTask (quiet.reads (seen_mono later read)) live satisfied
          (quiet.children ▸ only key rfl), attempt, fun absent => (by cases absent)⟩
      · intro h' persisted _ _
        cases persisted <;> exact fun resumed => (by cases resumed)

theorem taskflowRunTask_issues (args : RunTaskArgs) :
    (taskflowRunTask env args).Issues (E := effects) (MayPerform env (.runTask args)) MayReturn
      [] := by
  unfold taskflowRunTask
  split
  · exact fun resumed => (by cases resumed)
  split
  · exact fun resumed => (by cases resumed)
  split
  · exact fun resumed => (by cases resumed)
  refine (getFlow_bind_issues _ _ _).mpr ⟨trivial, fun row => ?_⟩
  cases row with
  | none => exact fun resumed => (by cases resumed)
  | some flow =>
    dsimp only
    split
    · exact fun resumed => (by cases resumed)
    rename_i live
    split
    · exact fun resumed => (by cases resumed)
    split
    · rename_i satisfied
      exact runSpawned_issues (mem_reads_read [] _ _) (known_read [] _ _)
        (Bool.eq_false_iff.mpr live) satisfied rfl
    · exact registerBlocked_issues (mem_reads_read [] _ _) (known_read [] _ _)
        (Bool.eq_false_iff.mpr live)

/-! ## `taskflow_update_steps` and `taskflow_replan` -/

theorem taskflowUpdateSteps_issues (steps : List Json) (revision : Option Int) :
    (taskflowUpdateSteps env steps revision).Issues (E := effects)
      (MayPerform env (.updateSteps steps revision)) MayReturn [] := by
  unfold taskflowUpdateSteps
  split
  · exact fun resumed => (by cases resumed)
  rename_i valid
  refine (getFlow_bind_issues _ _ _).mpr ⟨trivial, fun row => ?_⟩
  cases row with
  | none => exact fun resumed => (by cases resumed)
  | some flow =>
    dsimp only
    split
    · exact fun resumed => (by cases resumed)
    rename_i live
    split
    · exact fun resumed => (by cases resumed)
    · rename_i merged merges
      refine Issues.bind _ (updateOnce_issues _ (known_read [] _ _) rfl
        (.updateSteps (mem_reads_read [] _ _) (Bool.eq_false_iff.mpr live) valid merges)) ?_
      intro h' outcome _ _
      cases outcome <;> exact fun resumed => (by cases resumed)

theorem taskflowReplan_issues (reason : String) (keepDone : Bool) :
    (taskflowReplan env reason keepDone).Issues (E := effects)
      (MayPerform env (.replan reason keepDone)) MayReturn [] := by
  refine (getFlow_bind_issues _ _ _).mpr ⟨trivial, fun row => ?_⟩
  cases row with
  | none => exact fun resumed => (by cases resumed)
  | some flow =>
    dsimp only
    split
    · exact fun resumed => (by cases resumed)
    rename_i live
    split
    · exact fun resumed => (by cases resumed)
    split
    · exact fun resumed => (by cases resumed)
    refine (issues_perform_bind _ _ _).mpr ⟨trivial, fun answer => ?_⟩
    cases answer with
    | error text => exact fun resumed => (by cases resumed)
    | ok raw =>
      dsimp only
      split
      · exact fun resumed => (by cases resumed)
      rename_i planned parsed
      split
      · exact fun resumed => (by cases resumed)
      rename_i merged merges
      refine Issues.bind (fun _ _ => True)
        (updateFlowWithConflictRetry_issues env
          ⟨flow, flow.state.steps, .replan merged flow.state.replanCount reason,
            flow.expectedRevision, { status := some .running }⟩ _ _ _ (known_read [] _ _) rfl ?_
          (fun _ => trivial) (fun _ => trivial) (fun _ _ _ _ _ => trivial)
          (fun _ _ _ => trivial)) ?_
      · intro h' w quiet attempt
        refine ⟨_, .replan (quiet.reads ?_) (Bool.eq_false_iff.mpr live) ?_ parsed merges, attempt,
          fun absent => (by cases absent)⟩
        · exact seen_mono (List.prefix_append _ _) (mem_reads_read [] _ _)
        · rw [quiet.planned, planTexts, seen_append]
          exact List.mem_append_right _ (by simp [planning])
      · intro h' persisted _ _
        cases persisted <;> exact fun resumed => (by cases resumed)

/-! ## `taskflow_create` and `taskflow_plan` -/

theorem existingReply_isResumed (flow : Flow) (ended going : String) :
    Reply.isResumed (existingReply flow ended going) = false := by
  unfold existingReply
  split <;> rfl

/-- A created row is the call's own; the compensating write fails the row as read back. -/
theorem createRooted_issues {call : Call} {texts : CreationTexts} {state : FlowState}
    {todo : String} {h : History} (creates : Call.creates call)
    (may : MayCreate env call { flowId := env.flowId, state })
    (existing : ∀ flow, Reply.isResumed (texts.taken flow) = false) :
    (createRooted env texts state todo).Issues (E := effects) (MayPerform env call)
      (fun _ outcome => ∀ reply, outcome = .error reply → Reply.isResumed reply = false) h := by
  refine (issues_perform_bind _ _ _).mpr ⟨may, fun created => ?_⟩
  cases created with
  | true =>
    refine (getFlow_bind_issues _ _ _).mpr ⟨trivial, fun row => ?_⟩
    cases row with
    | none =>
      intro reply same
      cases same
      rfl
    | some flow =>
      refine Issues.bind (fun _ _ => True) ?_ ?_
      · refine (issues_perform_bind _ _ _).mpr ⟨trivial, fun bound => ?_⟩
        cases bound with
        | ok value => trivial
        | error text =>
          refine Issues.bind _ (updateOnce_issues
            ⟨flow, flow.state.steps, .collect "todo_bind_failed", flow.expectedRevision, _⟩ ?_ rfl
            (.compensate creates ?_)) (fun _ _ _ _ => trivial)
          · rw [known_append, known_read]
            rfl
          · exact seen_mono (List.prefix_append _ _) (mem_reads_read _ _ _)
      · intro h' bound _ _
        cases bound with
        | ok value =>
          intro reply same
          cases same
        | error text =>
          intro reply same
          cases same
          rfl
  | false =>
    refine (getFlow_bind_issues _ _ _).mpr ⟨trivial, fun row => ?_⟩
    cases row with
    | none =>
      intro reply same
      cases same
      rfl
    | some flow =>
      intro reply same
      cases same
      exact existing flow

theorem taskflowCreate_issues (args : CreateArgs) :
    (taskflowCreate env args).Issues (E := effects) (MayPerform env (.create args)) MayReturn
      [] := by
  refine (issues_perform_bind _ _ _).mpr ⟨trivial, fun refusal => ?_⟩
  cases refusal with
  | some text => exact fun resumed => (by cases resumed)
  | none =>
    dsimp only
    split
    · exact fun resumed => (by cases resumed)
    · refine Issues.bind _
        (createRooted_issues trivial .create fun flow => existingReply_isResumed flow _ _) ?_
      intro h' outcome _ answers
      cases outcome with
      | error reply => exact fun resumed => by simp [answers reply rfl] at resumed
      | ok flow => exact fun resumed => (by cases resumed)

theorem dispatchPlanned_issues {goal : String} {maxSteps : Nat} {steps : List Step} {flow : Flow}
    {h : History} :
    (dispatchPlanned env steps flow).Issues (E := effects) (MayPerform env (.plan goal maxSteps))
      MayReturn h := by
  unfold dispatchPlanned
  dsimp only
  split
  · refine Issues.bind _ (dispatchBatch_issues (.plan goal maxSteps) trivial _ h) ?_
    intro h₁ _ _ _
    exact (getFlow_bind_issues _ _ _).mpr ⟨trivial, fun _ resumed => (by cases resumed)⟩
  · exact fun resumed => (by cases resumed)

theorem taskflowPlan_issues (goal : String) (maxSteps : Nat) :
    (taskflowPlan env goal maxSteps).Issues (E := effects) (MayPerform env (.plan goal maxSteps))
      MayReturn [] := by
  unfold taskflowPlan
  dsimp only
  split
  · exact fun resumed => (by cases resumed)
  refine (getFlow_bind_issues _ _ _).mpr ⟨trivial, fun row => ?_⟩
  cases row with
  | some existing =>
    have reply := existingReply_isResumed existing
    exact fun resumed => by simp [planTaken, reply] at resumed
  | none =>
    refine (issues_perform_bind _ _ _).mpr ⟨trivial, fun refusal => ?_⟩
    cases refusal with
    | some text => exact fun resumed => (by cases resumed)
    | none =>
      refine (issues_perform_bind _ _ _).mpr ⟨trivial, fun answer => ?_⟩
      cases answer with
      | error text => exact fun resumed => (by cases resumed)
      | ok raw =>
        dsimp only
        split
        · exact fun resumed => (by cases resumed)
        · rename_i plan parsed
          refine Issues.bind _ (createRooted_issues trivial (.plan parsed) fun flow =>
            existingReply_isResumed flow _ _) ?_
          intro h' outcome _ answers
          cases outcome with
          | error reply => exact fun resumed => by simp [answers reply rfl] at resumed
          | ok flow => exact dispatchPlanned_issues

end SherryAgent.Contracts.Taskflow
