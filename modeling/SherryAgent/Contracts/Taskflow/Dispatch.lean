import SherryAgent.Contracts.Taskflow.Writes

/-!
# `taskflow_dispatch` and `taskflow_wait_all` keep the discipline
-/

namespace SherryAgent.Contracts.Taskflow

open SherryAgent.Source SherryAgent.Source.Taskflow SherryAgent.Library.Resumption Prog

/-- Without a second occurrence the ids are distinct. -/
theorem nodup_of_duplicateIds {ids seen : List String} (none_twice : duplicateIds seen ids = []) :
    ids.Nodup ∧ ∀ id ∈ ids, id ∉ seen := by
  induction ids generalizing seen with
  | nil => simp
  | cons id rest ih =>
    rw [duplicateIds] at none_twice
    split at none_twice
    · cases none_twice
    · rename_i fresh
      obtain ⟨distinct, apart⟩ := ih none_twice
      have unseen : id ∉ seen := by simpa using fresh
      refine ⟨List.nodup_cons.mpr ⟨fun member => apart id member (by simp), distinct⟩, ?_⟩
      intro other member
      rcases List.mem_cons.mp member with rfl | member
      · exact unseen
      · exact fun old => apart other member (by simp [old])

variable {env : Env} {call : Call} {flow : Flow}

theorem dispatchValidated_issues {requested : List String} {h : History}
    (dispatches : Call.dispatches call) (read : (.dispatch requested, flow) ∈ reads h)
    (unchanged : known h = some flow) (live : isTerminal flow.status = false)
    (distinct : requested.Nodup)
    (valid : ∀ id ∈ requested, dispatchError flow.state.steps id = none) :
    (dispatchValidated env flow requested (Call.expectedRevision call)).Issues (E := effects)
      (MayPerform env call) MayReturn h := by
  refine Issues.bind _ (spawnBatch_issues env .dispatch flow requested h unchanged distinct ?_) ?_
  · intro h' id step request later unchanged member found site contract
    exact .dispatch dispatches (seen_mono later read) unchanged live member found (valid id member)
      site contract
  · rintro h₁ batch - ⟨later, unchanged, batched, started⟩
    dsimp only
    split
    · exact fun resumed => (by cases resumed)
    · refine Issues.bind (fun _ _ => True)
        (updateFlowWithConflictRetry_issues env
          ⟨flow, dispatchedSteps flow.state.steps batch,
            .dispatched (dispatchRecords flow.state.steps batch),
            (Call.expectedRevision call).getD flow.expectedRevision, {}⟩ _ _ h₁ unchanged rfl ?_
          (fun _ => trivial) (fun _ => trivial) (fun _ _ _ _ _ => trivial)
          (fun _ _ _ => trivial)) ?_
      · intro h' w quiet attempt
        exact ⟨_, .dispatch dispatches (quiet.reads (seen_mono later read)) live batched valid
          (started.mono quiet.earlier), attempt, fun absent => (by cases absent)⟩
      · intro h' persisted _ _
        cases persisted with
        | error text => exact fun resumed => (by cases resumed)
        | ok value =>
          dsimp only
          split <;> exact fun resumed => (by cases resumed)

/-- A dispatched batch consists of distinct steps that passed validation on the row
read under the lock. -/
theorem taskflowDispatchLocked_issues (dispatches : Call.dispatches call)
    (stepIds : List String) (h : History) :
    (taskflowDispatchLocked env stepIds (Call.expectedRevision call)).Issues (E := effects)
      (MayPerform env call) MayReturn h := by
  refine (getFlow_bind_issues _ _ _).mpr ⟨trivial, fun row => ?_⟩
  cases row with
  | none => exact fun resumed => (by cases resumed)
  | some flow =>
    dsimp only
    split
    · exact fun resumed => (by cases resumed)
    split
    · exact fun resumed => (by cases resumed)
    split
    · exact fun resumed => (by cases resumed)
    rename_i live _ single
    split
    · exact fun resumed => (by cases resumed)
    · rename_i valid
      have none_twice : duplicateIds [] (stepIds.map PyText.strip) = [] := by simpa using single
      exact dispatchValidated_issues dispatches (mem_reads_read _ _ _) (known_read _ _ _)
        (Bool.eq_false_iff.mpr live) (nodup_of_duplicateIds none_twice).1
        (List.findSome?_eq_none_iff.mp valid)

theorem dispatchBatch_issues (call : Call) (dispatches : Call.dispatches call)
    (stepIds : List String) (h : History) :
    (dispatchBatch env stepIds (Call.expectedRevision call)).Issues (E := effects)
      (MayPerform env call) MayReturn h := by
  refine Issues.bind (fun _ _ => True) ⟨trivial, fun _ => trivial⟩ ?_
  intro h₁ _ _ _
  refine Issues.bind _ (taskflowDispatchLocked_issues dispatches stepIds h₁) ?_
  intro h₂ reply _ returns
  refine ⟨trivial, fun _ resumed => ?_⟩
  obtain ⟨w, stored, resumes⟩ := returns resumed
  exact ⟨w, seen_mono (List.prefix_append _ _) stored, resumes⟩

theorem taskflowDispatch_issues (env : Env) (stepIds : List String) (revision : Option Int) :
    (taskflowDispatch env stepIds revision).Issues (E := effects)
      (MayPerform env (.dispatch stepIds revision)) MayReturn [] :=
  dispatchBatch_issues (.dispatch stepIds revision) trivial stepIds []

/-! ## `taskflow_wait_all` -/

/-- The step a decision of `plan_settled_retries` is about. -/
def RetryAction.stepId : RetryAction → String
  | .redispatch step _ _ _ => step.stepId
  | .exhausted stepId _ _ _ _ => stepId

/-- The decisions are about the steps of the pairs, in their order. -/
theorem planSettledRetries_stepIds (env : Env) (steps : List Step) (results : List ResultRecord)
    (pairs : List (String × String)) :
    ((planSettledRetries env steps results pairs).map RetryAction.stepId).Sublist
      (pairs.map (·.1)) := by
  induction pairs with
  | nil => exact List.Sublist.slnil
  | cons pair rest ih =>
    rw [planSettledRetries, List.filterMap_cons]
    split
    · exact ih.cons _
    · rename_i action decided
      have same : RetryAction.stepId action = pair.1 := by
        dsimp only at decided
        split at decided
        · cases decided
        · rename_i step found
          split at decided
          · cases decided
          · split at decided
            · cases decided
            · split at decided
              · cases decided
                exact (byId_mem found).2
              · cases decided
                rfl
      rw [List.map_cons, same]
      exact ih.cons_cons _

/-- The replacements of settled children, spawned on the row read after the poll. -/
theorem redispatchSettled_issues {pairs : List (String × String)} {h : History}
    (read : (.settled pairs, flow) ∈ reads h) (unchanged : known h = some flow)
    (bare : ∀ child ∈ children h, child.1.contract = {}) :
    ((planSettledRetries env flow.state.steps flow.state.results pairs).mapM
      (redispatchOne env flow)).Issues (E := effects) (MayPerform env .waitAll)
      (fun h' spawned => (h <+: h' ∧ ∀ child ∈ children h', child.1.contract = {}) ∧
        known h' = some flow ∧ Respawned env flow pairs (spawned.filterMap (·.1))) h := by
  refine Issues.mono (issues_mapM (E := effects) _ (fun h' finished spawned =>
    (h <+: h' ∧ ∀ child ∈ children h', child.1.contract = {}) ∧ known h' = some flow ∧
    (∀ entry : String × String × Int, entry ∈ spawned.filterMap (·.1) → ∃ step key policy,
      RetryAction.redispatch step key entry.2.2 policy ∈
        planSettledRetries env flow.state.steps flow.state.results pairs ∧
      entry.1 = step.stepId) ∧
    ((spawned.filterMap (·.1)).map (·.1)).Sublist (finished.map RetryAction.stepId)) _ h
    ⟨⟨List.prefix_refl h, bare⟩, unchanged, by simp, by simp⟩ ?_) (fun _ _ _ => id) ?_
  · rintro finished action rest split h' spawned ⟨earlier, unchanged, planned, among⟩
    have member : action ∈ planSettledRetries env flow.state.steps flow.state.results pairs := by
      simp [split]
    have skipped : ∀ line : String,
        (((spawned ++ [((none : Option (String × String × Int)), line)]).filterMap (·.1)).map
          (·.1)).Sublist ((finished ++ [action]).map RetryAction.stepId) := by
      intro line
      simpa using among.trans (List.sublist_append_left _ _)
    cases action with
    | exhausted stepId key count budget record =>
      exact ⟨earlier, unchanged, by simpa using planned, skipped _⟩
    | redispatch step key count policy =>
      refine Issues.bind (fun h' _ => (h <+: h' ∧ ∀ child ∈ children h', child.1.contract = {}) ∧
        known h' = some flow) (backOff_issues trivial
        ⟨⟨earlier.1.trans (List.prefix_append _ _), ?_⟩, ?_⟩ ⟨earlier, unchanged⟩) ?_
      · simpa [answering] using earlier.2
      · rw [known_append, unchanged]
        rfl
      · rintro h₁ - - ⟨earlier, unchanged⟩
        have after : ∀ (request : SpawnRequest) (result : SpawnResult), request.contract = {} →
            (h <+: h₁ ++ [⟨.spawn request, result⟩] ∧
              ∀ child ∈ children (h₁ ++ [⟨.spawn request, result⟩]), child.1.contract = {}) ∧
              known (h₁ ++ [⟨.spawn request, result⟩]) = some flow := by
          intro request result unset
          refine ⟨⟨earlier.1.trans (List.prefix_append _ _), fun child inside => ?_⟩, ?_⟩
          · rw [children, seen_append] at inside
            rcases List.mem_append.mp inside with old | new
            · exact earlier.2 child old
            · simp only [answering, Option.mem_toList] at new
              split at new
              · obtain rfl := Option.some.inj new
                exact unset
              · cases new
          · rw [known_append, unchanged]
            rfl
        rw [issues_bind]
        refine dispatchChild_issues (.settled (seen_mono earlier.1 read) unchanged
          (List.ne_nil_of_mem member) rfl rfl) (fun result _ => ?_) (fun result text _ => ?_)
        · refine ⟨(after _ result rfl).1, (after _ result rfl).2, ?_, ?_⟩
          · intro entry inside
            rw [List.filterMap_append] at inside
            rcases List.mem_append.mp inside with old | new
            · exact planned entry old
            · obtain rfl : entry = (step.stepId, result.childSessionKey, count) := by
                simpa using new
              exact ⟨step, key, policy, member, rfl⟩
          · rw [List.filterMap_append, List.map_append, List.map_append]
            exact among.append (List.Sublist.refl _)
        · exact ⟨(after _ result rfl).1, (after _ result rfl).2, by simpa using planned, skipped _⟩
  · rintro h' spawned - ⟨later, unchanged, planned, among⟩
    exact ⟨later, unchanged, planned, among.trans (planSettledRetries_stepIds _ _ _ _)⟩

theorem retrySettledSteps_issues (env : Env) (base : String) (pairs : List (String × String))
    (h : History)
    (waited : ∃ polled, (.waitAll, polled) ∈ reads h ∧ pairs = waitTargets polled.state.steps)
    (unstarted : children h = []) :
    (retrySettledSteps env base pairs).Issues (E := effects) (MayPerform env .waitAll) MayReturn
      h := by
  refine (getFlow_bind_issues _ _ _).mpr ⟨trivial, fun row => ?_⟩
  cases row with
  | none => exact fun resumed => (by cases resumed)
  | some flow =>
    have read : (.settled pairs, flow) ∈ reads (h ++ [⟨.getFlow (.settled pairs), some flow⟩]) :=
      mem_reads_read _ _ _
    refine Issues.bind _ (redispatchSettled_issues read (known_read _ _ _) ?_) ?_
    · simp [answering, unstarted]
    rintro h₁ spawned - ⟨⟨later, bare⟩, unchanged, respawned⟩
    dsimp only
    split
    · exact fun resumed => (by cases resumed)
    · rename_i something
      have busy : planSettledRetries env flow.state.steps flow.state.results pairs ≠ [] := by
        intro empty
        have unspawned : spawned.filterMap (·.1) = [] :=
          List.eq_nil_iff_forall_not_mem.mpr fun entry member => by
            obtain ⟨_, _, _, absent, -⟩ := respawned.planned entry member
            rw [empty] at absent
            cases absent
        rw [unspawned, empty] at something
        exact something rfl
      obtain ⟨polled, first, targets⟩ := waited
      refine Issues.bind (fun _ _ => True)
        (updateFlowWithConflictRetry_issues env
          ⟨flow, flow.state.steps, .retryPlan (spawned.filterMap (·.1))
            ((planSettledRetries env flow.state.steps flow.state.results pairs).filterMap
              (·.exhaustion)), flow.expectedRevision, {}⟩ _ _ h₁ unchanged rfl ?_
          (fun _ => trivial) (fun _ => trivial) (fun _ _ _ _ _ => trivial)
          (fun _ _ _ => trivial)) ?_
      · intro h' w quiet attempt
        have polled_read := quiet.reads (seen_mono ((List.prefix_append _ _).trans later) first)
        exact ⟨_, .settled (quiet.reads (seen_mono later read)) busy respawned
          ⟨polled, polled_read, targets⟩ (quiet.children ▸ bare), attempt,
          fun absent => (by cases absent)⟩
      · intro h' persisted _ _
        cases persisted <;> exact fun resumed => (by cases resumed)

theorem taskflowWaitAll_issues (env : Env) :
    (taskflowWaitAll env).Issues (E := effects) (MayPerform env .waitAll) MayReturn [] := by
  refine (getFlow_bind_issues _ _ _).mpr ⟨trivial, fun row => ?_⟩
  cases row with
  | none => exact fun resumed => (by cases resumed)
  | some flow =>
    dsimp only
    split
    · exact fun resumed => (by cases resumed)
    · refine (issues_perform_bind _ _ _).mpr ⟨trivial, fun outcome => ?_⟩
      cases outcome with
      | lookupFailed text => exact fun resumed => (by cases resumed)
      | timedOut settled => exact fun resumed => (by cases resumed)
      | settled =>
        exact retrySettledSteps_issues env _ _ _
          ⟨flow, seen_mono (List.prefix_append _ _) (mem_reads_read [] _ _), rfl⟩ rfl

end SherryAgent.Contracts.Taskflow
