import SherryAgent.Contracts.Taskflow.Discipline

/-!
# The bounded retry keeps the discipline

`update_flow_with_conflict_retry` performs attempts of one plan only, whatever
the store answers.
-/

namespace SherryAgent.Contracts.Taskflow

open SherryAgent.Source SherryAgent.Source.Taskflow SherryAgent.Library.Resumption Prog

theorem Quiet.refl (h : History) : Quiet h h := ⟨List.prefix_refl h, rfl, rfl, rfl, rfl, rfl⟩

theorem Quiet.read {h h' : History} (quiet : Quiet h h') (site : ReadSite) (row : Option Flow) :
    Quiet h (h' ++ [⟨.getFlow site, row⟩]) := by
  refine ⟨quiet.earlier.trans (List.prefix_append _ _), ?_, ?_, ?_, ?_, ?_⟩
  · simp [storing, quiet.stored]
  · simp [starting, quiet.spawned]
  · simp [answering, quiet.children]
  · simp [judging, quiet.judged]
  · simp [planning, quiet.planned]

theorem Quiet.lost {h h' : History} (quiet : Quiet h h') (w : Write) (ans : CasOutcome)
    (lost : ans ≠ .stored) : Quiet h (h' ++ [⟨.updateFlow w, ans⟩]) := by
  refine ⟨quiet.earlier.trans (List.prefix_append _ _), ?_, ?_, ?_, ?_, ?_⟩
  · cases ans with
    | stored => exact absurd rfl lost
    | _ => simp [storing, quiet.stored]
  · simp [starting, quiet.spawned]
  · simp [answering, quiet.children]
  · simp [judging, quiet.judged]
  · simp [planning, quiet.planned]

theorem Quiet.reads {h h' : History} (quiet : Quiet h h') {read : ReadSite × Flow}
    (member : read ∈ reads h) : read ∈ Taskflow.reads h' :=
  seen_mono quiet.earlier member

theorem Accepted.mono {env : Env} {args : ResumeArgs} {h h' : History} {flow : Flow}
    (accepted : Accepted env args h flow) (quiet : Quiet h h') : Accepted env args h' flow :=
  ⟨quiet.reads accepted.read, accepted.live, accepted.fresh⟩

theorem Decides.mono {env : Env} {h h' : History} {flow : Flow} {step : Step} {decision : Decision}
    (decides : Decides env h flow step decision) (quiet : Quiet h h') :
    Decides env h' flow step decision :=
  { decides with
    started := fun key count respawned =>
      (decides.started key count respawned).mono quiet.earlier
    judged := fun verdict member => decides.judged verdict (quiet.judged ▸ member) }

theorem BatchStarted.mono {h h' : History} {flow : Flow} {batch : List BatchSpawn}
    (started : BatchStarted h flow batch) (earlier : h <+: h') : BatchStarted h' flow batch := by
  intro spawned member key answered
  obtain ⟨step, found, child⟩ := started spawned member key answered
  exact ⟨step, found, child.mono earlier⟩

/-- A plan stays a plan while the call only reads and loses writes. -/
theorem Planned.mono {env : Env} {call : Call} {h h' : History} {plan : Plan}
    (planned : Planned env call h plan) (quiet : Quiet h h') : Planned env call h' plan := by
  cases planned with
  | unmatched accepted none_matched hash =>
    exact .unmatched (accepted.mono quiet) none_matched hash
  | redispatch accepted found decides respawned hash =>
    exact .redispatch (accepted.mono quiet) found (decides.mono quiet) respawned hash
  | settle accepted found decides settled hash =>
    exact .settle (accepted.mono quiet) found (decides.mono quiet) settled hash
  | wave read distinct batched started =>
    exact .wave (quiet.reads read) distinct batched (started.mono quiet.earlier)
  | dispatch dispatches read live batched valid started =>
    exact .dispatch dispatches (quiet.reads read) live batched valid (started.mono quiet.earlier)
  | settled read busy respawned waited bare =>
    obtain ⟨polled, first, targets⟩ := waited
    exact .settled (quiet.reads read) busy respawned ⟨polled, quiet.reads first, targets⟩
      (quiet.children ▸ bare)
  | replan read live text parsed merges =>
    exact .replan (quiet.reads read) live (quiet.planned ▸ text) parsed merges
  | runTask read live satisfied only =>
    exact .runTask (quiet.reads read) live satisfied (quiet.children ▸ only)
  | register read live => exact .register (quiet.reads read) live
  | updateSteps read live valid merges =>
    exact .updateSteps (quiet.reads read) live valid merges
  | single read live writes => exact .single (quiet.reads read) live writes
  | finish read live finishes tokens => exact .finish (quiet.reads read) live finishes tokens
  | compensate creates read => exact .compensate creates (quiet.reads read)

variable {Req : History → Op → Prop}

theorem getFlow_bind_issues {α : Type} {Post : History → α → Prop} (site : ReadSite)
    (f : Option Flow → Tool α) (h : History) :
    (getFlow site >>= f).Issues (E := effects) Req Post h ↔
      Req h (.getFlow site) ∧
        ∀ row : Option Flow, (f row).Issues (E := effects) Req Post (h ++ [⟨.getFlow site, row⟩]) :=
  Iff.rfl

/-- An accepted spawn answers with the child's key, a refused one with an error. -/
theorem dispatchChild_issues {Post : History → Except String String → Prop}
    {request : SpawnRequest} {h : History} (spawn : Req h (.spawn request))
    (started : ∀ result : SpawnResult, starting (.spawn request) result = some request →
      Post (h ++ [⟨.spawn request, result⟩]) (.ok result.childSessionKey))
    (refused : ∀ (result : SpawnResult) (text : String), starting (.spawn request) result = none →
      Post (h ++ [⟨.spawn request, result⟩]) (.error text)) :
    (dispatchChild request).Issues (E := effects) Req Post h := by
  rw [dispatchChild, issues_bind, issues_perform]
  refine ⟨spawn, fun result => ?_⟩
  split
  · rename_i accepted
    exact started result (if_pos accepted)
  · rename_i rejected
    exact refused result _ (if_neg rejected)

theorem backOff_issues {Post : History → Unit → Prop} {seconds : Int} {h : History}
    (sleep : Req h (.sleep seconds)) (slept : Post (h ++ [⟨.sleep seconds, ()⟩]) ())
    (none_needed : Post h ()) : (backOff seconds).Issues (E := effects) Req Post h := by
  unfold backOff
  split
  · exact ⟨sleep, fun _ => slept⟩
  · exact none_needed

/-- One `update_flow` call: the write, and a read-back when it is stored. -/
theorem updateFlow_issues {Post : History → UpdateOutcome → Prop} {w : Write} {h : History}
    (write : Req h (.updateFlow w)) (readBack : ∀ h, Req h (.getFlow .updated))
    (stored : ∀ row, Post (h ++ [⟨.updateFlow w, .stored⟩] ++ [⟨.getFlow .updated, row⟩])
      (match row with | none => .notFound | some flow => .updated flow))
    (conflict : ∀ latest, Post (h ++ [⟨.updateFlow w, .conflict latest⟩]) (.conflict latest))
    (notFound : Post (h ++ [⟨.updateFlow w, .notFound⟩]) .notFound) :
    (updateFlow w).Issues (E := effects) Req Post h := by
  rw [updateFlow, issues_bind]
  refine ⟨write, fun ans => ?_⟩
  cases ans with
  | conflict latest => exact conflict latest
  | notFound => exact notFound
  | stored =>
    refine (getFlow_bind_issues _ _ _).mpr ⟨readBack _, fun row => ?_⟩
    cases row with
    | none => exact stored none
    | some flow => exact stored (some flow)

theorem conflictRetry_issues {Post : History → Except String (Flow × Flow) → Prop} (plan : Plan)
    (flowId : String) (keys : List String) (start : History)
    (decided : known start = some plan.read)
    (replayed : BuildState.replayed plan.build = true)
    (write : ∀ h w, Quiet start h → Attempt h plan w → Req h (.updateFlow w))
    (reread : ∀ h, Req h (.getFlow .conflict)) (readBack : ∀ h, Req h (.getFlow .updated))
    (stored : ∀ h w updated, Quiet start h → Attempt h plan w →
      Post (h ++ [⟨.updateFlow w, .stored⟩] ++ [⟨.getFlow .updated, some updated⟩])
        (.ok (updated, w.current)))
    (failed : ∀ h text, start <+: h → Post h (.error text))
    (remaining attempt : Nat) (revision : Int) (current : Flow) (h : History)
    (quiet : Quiet start h) (positive : 1 ≤ attempt)
    (attempting : Attempt h plan ⟨revision, plan.build, current, attempt, plan.kwargs⟩) :
    (conflictRetry flowId plan.build plan.kwargs keys remaining attempt revision current).Issues
      (E := effects) Req Post h := by
  induction remaining generalizing attempt revision current h with
  | zero => exact failed h _ quiet.earlier
  | succ remaining ih =>
    rw [conflictRetry, issues_bind]
    refine updateFlow_issues (write h _ quiet attempting) readBack (fun row => ?_)
      (fun latest => ?_) (failed _ _ ?_)
    · cases row with
      | none =>
        exact failed _ _ ((quiet.earlier.trans (List.prefix_append _ _)).trans
          (List.prefix_append _ _))
      | some updated => exact stored h _ updated quiet attempting
    · have lost := quiet.lost ⟨revision, plan.build, current, attempt, plan.kwargs⟩
        (.conflict latest) (by simp)
      dsimp only
      split
      · exact failed _ _ lost.earlier
      · refine (getFlow_bind_issues _ _ _).mpr ⟨reread _, fun row => ?_⟩
        cases row with
        | none => exact failed _ _ (lost.read .conflict none).earlier
        | some fresh =>
          dsimp only
          split
          · exact failed _ _ (lost.read .conflict (some fresh)).earlier
          · rename_i live
            exact ih (attempt + 1) fresh.expectedRevision fresh _
              (lost.read .conflict (some fresh)) (Nat.le_succ_of_le positive)
              (.replay (Nat.succ_le_succ positive) (known_read _ _ _) (mem_reads_read _ _ _)
                (Bool.eq_false_iff.mpr live) replayed
                ⟨start, lost.read .conflict (some fresh), decided⟩)
    · exact (quiet.lost _ .notFound (by simp)).earlier

/-- `update_flow_with_conflict_retry` on a plan, from the row the plan was made on. -/
theorem updateFlowWithConflictRetry_issues
    {Post : History → Except String (Flow × Flow) → Prop} (env : Env) (plan : Plan)
    (flowId : String) (keys : List String) (h : History) (unchanged : known h = some plan.read)
    (replayed : BuildState.replayed plan.build = true)
    (write : ∀ h' w, Quiet h h' → Attempt h' plan w → Req h' (.updateFlow w))
    (reread : ∀ h, Req h (.getFlow .conflict)) (readBack : ∀ h, Req h (.getFlow .updated))
    (stored : ∀ h' w updated, Quiet h h' → Attempt h' plan w →
      Post (h' ++ [⟨.updateFlow w, .stored⟩] ++ [⟨.getFlow .updated, some updated⟩])
        (.ok (updated, w.current)))
    (failed : ∀ h' text, h <+: h' → Post h' (.error text)) :
    (updateFlowWithConflictRetry env flowId plan.revision plan.origin plan.build keys
      plan.kwargs).Issues (E := effects) Req Post h :=
  conflictRetry_issues plan flowId keys h unchanged replayed write reread readBack stored failed _ 1 _ _ h
    (Quiet.refl h) (Nat.le_refl 1) (.first unchanged)

/-- A write that is tried once, on the row just read. -/
theorem updateOnce_issues {env : Env} {call : Call} {h : History} (plan : Plan)
    (unchanged : known h = some plan.read) (once : BuildState.resumes plan.build = false)
    (planned : Planned env call h plan) :
    (updateFlow ⟨plan.revision, plan.build, plan.origin, 1, plan.kwargs⟩).Issues (E := effects)
      (MayPerform env call) (fun _ _ => True) h :=
  updateFlow_issues ⟨plan, planned, .first unchanged, fun resumes => by simp [once] at resumes⟩
    (fun _ => trivial) (fun _ => trivial) (fun _ => trivial) trivial

/-! ## Batches of spawns -/

/-- Spawning a batch only starts children of known steps and keeps the row known. -/
theorem spawnBatch_issues (env : Env) (site : SpawnSite) (flow : Flow) (ids : List String)
    (h : History) (unchanged : known h = some flow) (distinct : ids.Nodup)
    (spawn : ∀ h' id step request, h <+: h' → known h' = some flow → id ∈ ids →
      byId flow.state.steps id = some step → request.site = site →
      request.contract = stepSpawnKwargs step flow.flowId → Req h' (.spawn request)) :
    (ids.mapM (spawnOne env site flow)).Issues (E := effects) Req
      (fun h' batch => h <+: h' ∧ known h' = some flow ∧ Batched flow ids batch ∧
        BatchStarted h' flow batch) h := by
  refine Issues.mono (issues_mapM (spawnOne env site flow)
    (fun h' finished batch => h <+: h' ∧ known h' = some flow ∧
      batch.map (·.stepId) = finished ∧ BatchStarted h' flow batch) ids h
    ⟨List.prefix_refl h, unchanged, rfl, by simp [BatchStarted]⟩ ?_) (fun _ _ _ => id) ?_
  · rintro finished id rest split h' batch ⟨earlier, unchanged, ids_eq, started⟩
    have requested : id ∈ ids := by simp [split]
    unfold spawnOne
    split
    · refine ⟨earlier, unchanged, by simp [ids_eq], ?_⟩
      intro spawned member key answered
      rcases List.mem_append.mp member with old | new
      · exact started spawned old key answered
      · rw [List.mem_singleton.mp new] at answered
        cases answered
    · rename_i step known_step
      have after : ∀ (result : SpawnResult) (request : SpawnRequest)
          (outcome : Except String String) (feedback : String),
          (∀ key, outcome = .ok key → Started (h' ++ [⟨.spawn request, result⟩]) key
            (stepSpawnKwargs step flow.flowId)) →
          h <+: h' ++ [⟨.spawn request, result⟩] ∧
          known (h' ++ [⟨.spawn request, result⟩]) = some flow ∧
          (batch ++ [(⟨id, outcome, feedback⟩ : BatchSpawn)]).map (·.stepId) = finished ++ [id] ∧
          BatchStarted (h' ++ [⟨.spawn request, result⟩]) flow
            (batch ++ [(⟨id, outcome, feedback⟩ : BatchSpawn)]) := by
        intro result request outcome feedback now
        refine ⟨earlier.trans (List.prefix_append _ _), ?_, by simp [ids_eq], ?_⟩
        · rw [known_append, unchanged]
          rfl
        · intro spawned member key answered
          rcases List.mem_append.mp member with old | new
          · exact started.mono (List.prefix_append _ _) spawned old key answered
          · obtain rfl := List.mem_singleton.mp new
            refine ⟨step, known_step, now key ?_⟩
            cases outcome with
            | ok value => exact congrArg Except.ok (Option.some.inj answered)
            | error text => cases answered
      rw [issues_bind]
      refine dispatchChild_issues (spawn h' id step _ earlier unchanged requested known_step rfl rfl)
        (fun result accepted => after result _ _ _ fun key same => ?_)
        (fun result text _ => after result _ _ _ fun key absent => by cases absent)
      cases same
      exact .now accepted
  · rintro h' batch - ⟨earlier, unchanged, ids_eq, started⟩
    refine ⟨earlier, unchanged, ⟨ids_eq, distinct, fun spawned member answered => ?_⟩, started⟩
    obtain ⟨key, same⟩ := Option.isSome_iff_exists.mp answered
    exact (started spawned member key same).imp fun _ => And.left

end SherryAgent.Contracts.Taskflow
