import SherryAgent.Contracts.Taskflow.Rows
import SherryAgent.Contracts.Taskflow.StepLists

/-!
# Finished steps stay finished

`taskflow_resume`, `taskflow_dispatch` with the auto-dispatch wave,
`taskflow_wait_all` and `taskflow_replan` write to one row in any interleaving. A
write replayed after a revision conflict re-applies a decision made on an older
row, so a step that was finished in between is moved back.

* `replan_rewinds_done` — a replan stores the list it computed before a resume
  finished a step, and the step is blocked again;
* `done_steps_stay` — in every run whose writes spare the steps already done
  (`sparesDone`), a done step stays done for as long as it is listed.
-/

namespace SherryAgent.Guarantees.DoneSteps

open SherryAgent.Source SherryAgent.Source.Taskflow SherryAgent.Contracts.Taskflow
  SherryAgent.Library.KeyedList SherryAgent.Library.Resumption

def listsStep (steps : List Step) (id : String) : Bool := steps.any (·.stepId == id)

def doneStep (steps : List Step) (id : String) : Bool :=
  steps.any fun step => step.stepId == id && stepStatus step == .done

theorem doneStep_iff {steps : List Step} {id : String} :
    doneStep steps id = true ↔ ∃ step ∈ steps, step.stepId = id ∧ stepStatus step = .done := by
  simp [doneStep]

theorem not_done {steps : List Step} {id : String} (undone : doneStep steps id = false)
    {step : Step} (member : step ∈ steps) (named : step.stepId = id) : stepStatus step ≠ .done := by
  intro done
  rw [← Bool.not_eq_true, doneStep_iff] at undone
  exact undone ⟨step, member, named, done⟩

/-! ## Changes of the list that lose no done step -/

def KeepsDone (before after : List Step) : Prop :=
  ∀ id, doneStep before id = true → doneStep after id = true

theorem KeepsDone.refl (steps : List Step) : KeepsDone steps steps := fun _ done => done

theorem KeepsDone.trans {a b c : List Step} (first : KeepsDone a b) (second : KeepsDone b c) :
    KeepsDone a c := fun id done => second id (first id done)

theorem keepsDone_of_subset {before after : List Step} (kept : ∀ step ∈ before, step ∈ after) :
    KeepsDone before after := by
  intro id done
  obtain ⟨step, member, named, status⟩ := doneStep_iff.mp done
  exact doneStep_iff.mpr ⟨step, kept step member, named, status⟩

theorem keepsDone_modifyFirst {p : Step → Bool} {f : Step → Step} {steps : List Step}
    (kept : ∀ step, steps.find? p = some step → stepStatus step = .done →
      (f step).stepId = step.stepId ∧ stepStatus (f step) = .done) :
    KeepsDone steps (modifyFirst p f steps) := by
  intro id done
  obtain ⟨step, member, named, status⟩ := doneStep_iff.mp done
  by_cases first : steps.find? p = some step
  · obtain ⟨same, still⟩ := kept step first status
    exact doneStep_iff.mpr ⟨f step, apply_mem_modifyFirst first, same.trans named, still⟩
  · exact doneStep_iff.mpr ⟨step, mem_modifyFirst_of_not_first member first, named, status⟩

theorem keepsDone_modifyLast {p : Step → Bool} {f : Step → Step} {steps : List Step}
    (kept : ∀ step, findLast? p steps = some step → stepStatus step = .done →
      (f step).stepId = step.stepId ∧ stepStatus (f step) = .done) :
    KeepsDone steps (modifyLast p f steps) := by
  intro id done
  obtain ⟨step, member, named, status⟩ := doneStep_iff.mp done
  by_cases last : findLast? p steps = some step
  · obtain ⟨same, still⟩ := kept step last status
    exact doneStep_iff.mpr ⟨f step, apply_mem_modifyLast last, same.trans named, still⟩
  · exact doneStep_iff.mpr ⟨step, mem_modifyLast_of_not_last member last, named, status⟩

theorem keepsDone_unlockDependents (steps : List Step) :
    KeepsDone steps (unlockDependents steps) := by
  intro id done
  obtain ⟨step, member, named, status⟩ := doneStep_iff.mp done
  obtain ⟨current, kept⟩ := unlockStep_mem member
  rw [unlockStep_of_not_blocked current (by simp [status])] at kept
  exact doneStep_iff.mpr ⟨step, kept, named, status⟩

/-- The step a lookup by id finds is not done. -/
def Undone (steps : List Step) (id : String) : Prop :=
  ∀ step, byId steps id = some step → stepStatus step ≠ .done

/-- An update that neither loses a done step nor finishes one. -/
structure Spares (before after : List Step) : Prop where
  done : KeepsDone before after
  undone : ∀ id, Undone before id → Undone after id

theorem Spares.refl (steps : List Step) : Spares steps steps :=
  ⟨.refl steps, fun _ undone => undone⟩

theorem Spares.trans {a b c : List Step} (first : Spares a b) (second : Spares b c) :
    Spares a c :=
  ⟨first.done.trans second.done, fun id undone => second.undone id (first.undone id undone)⟩

theorem spares_modifyLast {f : Step → Step} {steps : List Step} {id : String}
    (same : ∀ step, (f step).stepId = step.stepId)
    (kept : ∀ step, stepStatus step ≠ .done → stepStatus (f step) ≠ .done)
    (undone : Undone steps id) : Spares steps (modifyLast (·.stepId == id) f steps) := by
  refine ⟨keepsDone_modifyLast fun step last done => absurd done (undone step last), ?_⟩
  intro other before step found
  rw [byId, findLast?_modifyLast Step.stepId same] at found
  split at found
  · obtain ⟨old, last, rfl⟩ := Option.map_eq_some_iff.mp found
    exact kept old (undone old last)
  · exact before step found

theorem spares_append {steps : List Step} {record : Step}
    (dispatched : record.status = some .dispatched) : Spares steps (steps ++ [record]) := by
  refine ⟨keepsDone_of_subset fun step member => by simp [member], ?_⟩
  intro other before step found
  rw [byId, findLast?_append_singleton] at found
  split at found
  · cases found
    simp [stepStatus, dispatched]
  · exact before step found

/-- A loop whose rounds spare the done steps as long as the ids it names are undone. -/
theorem spares_foldl {ι : Type} (update : List Step → ι → List Step) (name : ι → String)
    {items : List ι} {steps : List Step} (undone : ∀ item ∈ items, Undone steps (name item))
    (round : ∀ item ∈ items, ∀ current, Undone current (name item) →
      Spares current (update current item)) : Spares steps (items.foldl update steps) := by
  induction items generalizing steps with
  | nil => exact .refl steps
  | cons item rest ih =>
    have here := round item (by simp) steps (undone item (by simp))
    refine here.trans (ih (fun next member => here.undone _ (undone next (by simp [member]))) ?_)
    exact fun next member => round next (by simp [member])

theorem undone_of_not_doneStep {steps : List Step} {id : String}
    (undone : doneStep steps id = false) : Undone steps id := fun _ found =>
  not_done undone (byId_mem found).1 (byId_mem found).2

/-! ## The list changes of the four tools -/

theorem spares_dispatchedSteps {steps : List Step} {batch : List BatchSpawn}
    (undone : ∀ spawned ∈ batch, spawned.key.isSome = true → Undone steps spawned.stepId) :
    Spares steps (dispatchedSteps steps batch) := by
  have started : ∀ spawned ∈ batch.filter (·.key.isSome), Undone steps spawned.stepId :=
    fun spawned member => undone spawned (List.mem_filter.mp member).1 (List.mem_filter.mp member).2
  have skips : dispatchedSteps steps batch =
      dispatchedSteps steps (batch.filter (·.key.isSome)) := by
    unfold dispatchedSteps
    rw [List.foldl_filter]
    refine List.foldl_ext _ _ _ fun current spawned _ => ?_
    cases spawned.key <;> rfl
  rw [skips]
  refine spares_foldl _ BatchSpawn.stepId started fun spawned member current here => ?_
  obtain ⟨key, some_key⟩ := Option.isSome_iff_exists.mp (List.mem_filter.mp member).2
  rw [some_key]
  exact spares_modifyLast (fun _ => rfl) (fun step _ => by simp [dispatchStep, stepStatus]) here

theorem spares_waveSteps {steps : List Step} {batch : List BatchSpawn}
    (undone : ∀ spawned ∈ batch, spawned.key.isSome = true → Undone steps spawned.stepId) :
    Spares steps (waveSteps steps batch) := by
  have started : ∀ spawned ∈ batch.filter (·.key.isSome), Undone steps spawned.stepId :=
    fun spawned member => undone spawned (List.mem_filter.mp member).1 (List.mem_filter.mp member).2
  have skips : waveSteps steps batch = waveSteps steps (batch.filter (·.key.isSome)) := by
    unfold waveSteps
    rw [List.foldl_filter]
    refine List.foldl_ext _ _ _ fun current spawned _ => ?_
    cases spawned.key <;> rfl
  rw [skips]
  refine spares_foldl _ BatchSpawn.stepId started fun spawned member current here => ?_
  split
  · exact spares_modifyLast (fun _ => rfl) (fun step undone => undone) here
  · exact .refl _

theorem spares_applyDispatchedSteps {steps records : List Step}
    (undone : ∀ record ∈ records, Undone steps record.stepId)
    (dispatched : ∀ record ∈ records, record.status = some .dispatched) :
    Spares steps (applyDispatchedSteps steps records) := by
  refine spares_foldl _ Step.stepId undone fun record member current here => ?_
  split
  · exact spares_modifyLast (fun _ => rfl)
      (fun step _ => by simp [stepStatus, dispatched record member]) here
  · exact spares_append (dispatched record member)

theorem keepsDone_retryPlan {steps : List Step} {redispatches : List (String × String × Int)}
    {exhausted : List (String × ResultRecord)}
    (undone : ∀ entry ∈ redispatches, Undone steps entry.1) :
    KeepsDone steps (exhausted.foldl (fun steps (id, _) =>
      modifyLast (·.stepId == id) (fun target => { target with status := some .done }) steps)
      (redispatches.foldl (fun steps (id, newKey, retryCount) =>
        modifyLast (·.stepId == id) (applyRedispatch · newKey retryCount) steps) steps)) := by
  have redispatched : Spares steps (redispatches.foldl (fun steps (id, newKey, retryCount) =>
      modifyLast (·.stepId == id) (applyRedispatch · newKey retryCount) steps) steps) := by
    refine spares_foldl _ Prod.fst undone fun entry _ current here => ?_
    refine spares_modifyLast (fun _ => rfl) (fun step _ => ?_) here
    simp [applyRedispatch, stepStatus]
  refine redispatched.done.trans ?_
  generalize redispatches.foldl _ steps = current
  induction exhausted generalizing current with
  | nil => exact .refl current
  | cons entry rest ih =>
    have finished : KeepsDone current (modifyLast (·.stepId == entry.1)
        (fun target => { target with status := some .done }) current) :=
      keepsDone_modifyLast fun step _ _ => ⟨rfl, by simp [stepStatus]⟩
    exact finished.trans (ih _)

/-! ## Writes that spare the steps already done -/

/-- The calls whose interleavings are considered. -/
def concurrentCall : Call → Bool
  | .resume _ | .dispatch .. | .waitAll | .replan .. => true
  | _ => false

/-- A replan that neither missed a step finished since its read nor reuses the id of
a done step for a planned or running one. -/
def replanSpares (env : Env) (thread : Thread effects Call Reply) (row : Flow) : Bool :=
  ((reads thread.history).all fun (site, read) => site != .tool ||
    row.state.steps.all fun step => stepStatus step != .done ||
      doneStep read.state.steps step.stepId) &&
  match thread.request with
  | .replan _ true => true
  | _ =>
    ((reads thread.history).all fun (site, read) => site != .tool ||
      read.state.steps.all fun step => stepStatus step != .dispatched ||
        !doneStep row.state.steps step.stepId) &&
    (planTexts thread.history).all fun raw =>
      match parseSteps env raw with
      | .error _ => true
      | .ok planned => planned.all fun entry => !doneStep row.state.steps (entryId entry)

/-- No step the write moves to an unfinished status is done in the row. -/
def sparesDone (env : Env) (thread : Thread effects Call Reply) (wr : Write) (row : Flow) :
    Bool :=
  match wr.build with
  | .redispatch _ id _ _ _ => !doneStep row.state.steps id
  | .settle _ (some id) decided =>
    decided.status == some .done || !doneStep row.state.steps id
  | .dispatched records =>
    wr.attempt == 1 || records.all fun record => !doneStep row.state.steps record.stepId
  | .retryPlan redispatches _ => redispatches.all fun entry => !doneStep row.state.steps entry.1
  | .replan .. => replanSpares env thread row
  | _ => true

/-- Any interleaving of the four tools. -/
def concurrent (_ : FlowWorld) (choice : Choice Call Input) : Bool :=
  match choice with
  | .start call => concurrentCall call
  | .run .. => true

/-- The condition on a step: only the four tools run, and a write that will succeed
claims no revision above the one it read and spares the done steps. -/
def faithful (env : Env) (w : FlowWorld) (choice : Choice Call Input) : Bool :=
  match choice with
  | .start call => concurrentCall call
  | .run .. =>
    match w.pending choice, w.store.row with
    | some (thread, .updateFlow wr), some row =>
      row.expectedRevision != wr.expectedRevision ||
        (decide (wr.expectedRevision ≤ wr.current.expectedRevision) &&
          sparesDone env thread wr row)
    | _, _ => true

/-- Done steps that are still listed are done. -/
def StaysDone (before after : List Step) : Prop :=
  ∀ id, doneStep before id = true → listsStep after id = true → doneStep after id = true

variable {env : Env}

/-- The row steps after the resume's own changes to the step it matched. -/
theorem decided_undone {args : ResumeArgs} {flow : Flow} {step : Step} {decision : Decision}
    (found : matched args flow = some step)
    (status : stepStatus decision.step ≠ .done)
    (undone : doneStep flow.state.steps step.stepId = false) :
    KeepsDone flow.state.steps (decidedSteps args flow decision) ∧
      doneStep (decidedSteps args flow decision) step.stepId = false := by
  have member := (firstByChild_mem found).1
  refine ⟨keepsDone_modifyFirst fun first here done => ?_, ?_⟩
  · obtain rfl : step = first := by simpa [matched, firstByChild, here] using found.symm
    exact absurd done (not_done undone member rfl)
  · rw [← Bool.not_eq_true, doneStep_iff]
    rintro ⟨other, inside, named, done⟩
    rcases mem_modifyFirst inside with old | ⟨first, -, rfl⟩
    · exact not_done undone old named done
    · exact status done

theorem keepsDone_modifyById {steps : List Step} {id : String} {f : Step → Step}
    (undone : doneStep steps id = false) :
    KeepsDone steps (modifyFirst (·.stepId == id) f steps) := by
  refine keepsDone_modifyFirst fun step first done => ?_
  exact absurd done (not_done undone (List.mem_of_find?_eq_some first)
    (by simpa using List.find?_some first))

/-- A resume's re-dispatch, on the row it decided on or on a fresh one. -/
theorem redispatch_keepsDone {args : ResumeArgs} {row : Flow} {step : Step} {decision : Decision}
    {h : History} {key : String} {count : Int} (feedback : Option String)
    (found : matched args row = some step) (decides : Decides env h row step decision)
    (respawned : decision.redispatched = some (key, count))
    (undone : doneStep row.state.steps step.stepId = false) :
    KeepsDone row.state.steps (modifyFirst (·.stepId == step.stepId)
      (fun target => { applyRedispatch target key count with
        judgeFeedback := feedback.or (applyRedispatch target key count).judgeFeedback })
      (decidedSteps args row decision)) := by
  have status : stepStatus decision.step ≠ .done := by
    rw [stepStatus_of_some (decides.redispatched key count respawned).1]
    simp
  obtain ⟨kept, undone⟩ := decided_undone found status undone
  exact kept.trans (keepsDone_modifyById undone)

/-- A resume's verdict, on the row it decided on. -/
theorem settle_keepsDone {args : ResumeArgs} {row : Flow} {step : Step} {decision : Decision}
    {h : History} (found : matched args row = some step) (decides : Decides env h row step decision)
    (settled : decision.redispatched = none)
    (spares : decision.step.status = some .done ∨ doneStep row.state.steps step.stepId = false) :
    KeepsDone row.state.steps (modifyFirst (·.stepId == step.stepId)
      (DecidedFields.ofStep decision.step).apply (decidedSteps args row decision)) := by
  by_cases finished : decision.step.status = some .done
  · have marked : KeepsDone row.state.steps (decidedSteps args row decision) := by
      refine keepsDone_modifyFirst fun first here done => ?_
      obtain rfl : step = first := by simpa [matched, firstByChild, here] using found.symm
      exact ⟨decides.stepId, stepStatus_of_some finished⟩
    refine marked.trans (keepsDone_modifyFirst fun step _ _ => ⟨rfl, ?_⟩)
    simp [DecidedFields.apply, DecidedFields.ofStep, finished, stepStatus]
  · have status : stepStatus decision.step ≠ .done := by
      rcases decides.settled settled with done | failed | skipped | blocked
      · exact absurd done finished
      · simp [stepStatus_of_some failed]
      · simp [stepStatus_of_some skipped]
      · simp [stepStatus_of_some blocked]
    obtain ⟨kept, undone⟩ :=
      decided_undone found status (spares.resolve_left finished)
    exact kept.trans (keepsDone_modifyById undone)

/-- A replayed verdict, on the row read again. -/
theorem replayed_settle_keepsDone {row : Flow} {id : String} {decided : DecidedFields}
    (spares : decided.status = some .done ∨ doneStep row.state.steps id = false) :
    KeepsDone row.state.steps (modifyFirst (·.stepId == id) decided.apply row.state.steps) := by
  by_cases finished : decided.status = some .done
  · exact keepsDone_modifyFirst fun step _ _ => ⟨rfl, by
      simp [DecidedFields.apply, finished, stepStatus]⟩
  · exact keepsDone_modifyById (spares.resolve_left finished)

theorem undone_of_waveReady {steps : List Step} {ids : List String} {id : String}
    (member : id ∈ waveReady steps ids) : Undone steps id := by
  have ready := (List.mem_filter.mp member).2
  intro step found
  rw [found] at ready
  simp only [Bool.and_eq_true, beq_iff_eq] at ready
  simp [ready.1.1]

theorem undone_of_dispatchError {steps : List Step} {id : String}
    (valid : dispatchError steps id = none) : Undone steps id := by
  intro step found done
  simp [dispatchError, found, dispatchable, done] at valid

theorem staysDone_of_keepsDone {before after : List Step} (kept : KeepsDone before after) :
    StaysDone before after := fun id done _ => kept id done

theorem batch_named {flow : Flow} {ids : List String} {batch : List BatchSpawn}
    (batched : Batched flow ids batch) : ∀ spawned ∈ batch, spawned.stepId ∈ ids := by
  intro spawned member
  rw [← batched.ids_eq]
  exact List.mem_map_of_mem member

/-- The records of a batch name requested steps, as dispatched ones. -/
theorem mem_dispatchRecords {flow : Flow} {ids : List String} {batch : List BatchSpawn}
    (batched : Batched flow ids batch) :
    ∀ record ∈ dispatchRecords flow.state.steps batch,
      record.stepId ∈ ids ∧ record.status = some .dispatched := by
  intro record member
  obtain ⟨spawned, inside, made⟩ := List.mem_filterMap.mp member
  split at made
  · rename_i key step _ found
    cases made
    refine ⟨?_, rfl⟩
    change step.stepId ∈ ids
    rw [(byId_mem found).2]
    exact batch_named batched spawned inside
  · cases made

theorem mem_waveRecords {flow : Flow} {ids : List String} {batch : List BatchSpawn}
    (batched : Batched flow ids batch) :
    ∀ record ∈ batch.filterMap waveRecord,
      record.stepId ∈ ids ∧ record.status = some .dispatched := by
  intro record member
  obtain ⟨spawned, inside, made⟩ := List.mem_filterMap.mp member
  obtain ⟨key, -, rfl⟩ := Option.map_eq_some_iff.mp made
  exact ⟨batch_named batched spawned inside, rfl⟩

/-- The callback of a batch spares the row it runs on. -/
theorem dispatched_keepsDone {steps changed records : List Step} {ids : List String}
    (spared : Spares steps changed) (undone : ∀ id ∈ ids, Undone steps id)
    (named : ∀ record ∈ records, record.stepId ∈ ids ∧ record.status = some .dispatched) :
    KeepsDone steps (applyDispatchedSteps changed records) :=
  spared.done.trans (spares_applyDispatchedSteps
    (fun record member => spared.undone _ (undone _ (named record member).1))
    (fun record member => (named record member).2)).done

/-- A replayed batch callback. -/
theorem replayed_dispatched_keepsDone {steps records : List Step} {attempt : Nat}
    (later : 2 ≤ attempt) (dispatched : ∀ record ∈ records, record.status = some .dispatched)
    (spares : (attempt == 1 || records.all fun record => !doneStep steps record.stepId) = true) :
    KeepsDone steps (applyDispatchedSteps steps records) := by
  have replayed : (attempt == 1) = false := by
    rw [beq_eq_false_iff_ne]
    omega
  rw [replayed, Bool.false_or, List.all_eq_true] at spares
  refine (spares_applyDispatchedSteps (fun record member => ?_) dispatched).done
  exact undone_of_not_doneStep (by simpa using spares record member)

/-- A replan that spares the done steps stores a list that keeps them. -/
theorem replan_staysDone {thread : Thread effects Call Reply} {reason : String} {keepDone : Bool}
    {flow row : Flow} {raw : String} {entries : List Json} {merged : List Step}
    (request : thread.request = .replan reason keepDone)
    (read : (.tool, flow) ∈ reads thread.history) (text : raw ∈ planTexts thread.history)
    (parsed : parseSteps env raw = .ok entries)
    (merges : replanMerged keepDone flow.state.steps entries = .ok merged)
    (spares : replanSpares env thread row = true) : StaysDone row.state.steps merged := by
  obtain ⟨newSteps, rfl, ids, -⟩ := replanMerged_spec merges
  simp only [replanSpares, Bool.and_eq_true, List.all_eq_true] at spares
  obtain ⟨missed, reused⟩ := spares
  intro id done listed
  obtain ⟨step, member, named, status⟩ := doneStep_iff.mp done
  have known_done : doneStep flow.state.steps step.stepId = true := by
    have here := missed (.tool, flow) read
    simp only [bne_self_eq_false, Bool.false_or, List.all_eq_true] at here
    simpa [status] using here step member
  obtain ⟨old, inside, same, finished⟩ := doneStep_iff.mp known_done
  cases keepDone with
  | true =>
    have kept : old ∈ replanKept true flow.state.steps :=
      mem_replanKept.mpr ⟨inside, .inl ⟨rfl, finished⟩⟩
    exact doneStep_iff.mpr ⟨old, by simp [kept], same.trans named, finished⟩
  | false =>
    rw [request] at reused
    simp only [Bool.and_eq_true, List.all_eq_true] at reused
    obtain ⟨running, planned⟩ := reused
    obtain ⟨other, other_member, other_named⟩ := List.any_eq_true.mp listed
    have other_named : other.stepId = id := by simpa using other_named
    rcases List.mem_append.mp other_member with kept | new
    · obtain ⟨inside, ⟨absent, -⟩ | dispatched⟩ := mem_replanKept.mp kept
      · cases absent
      · have here := running (.tool, flow) read
        simp only [bne_self_eq_false, Bool.false_or, List.all_eq_true] at here
        have undone := here other inside
        simp [dispatched, other_named, done] at undone
    · have within : other.stepId ∈ entries.map entryId := by
        have mapped : other.stepId ∈ newSteps.map (·.stepId) := List.mem_map_of_mem new
        rw [ids] at mapped
        exact (List.mem_filter.mp mapped).1
      obtain ⟨entry, entry_member, entry_named⟩ := List.mem_map.mp within
      have here := planned raw text
      simp only [parsed, List.all_eq_true] at here
      have undone := here entry entry_member
      simp [entry_named, other_named, done] at undone

/-- A successful write of the four tools that spares the done steps. -/
theorem write_staysDone {thread : Thread effects Call Reply} {plan : Plan} {row : Flow}
    {wr : Write} (concurrent : concurrentCall thread.request = true)
    (planned : Planned env thread.request thread.history plan) (based : Based plan row wr)
    (spares : sparesDone env thread wr row = true) :
    StaysDone row.state.steps (wr.update row).state.steps := by
  generalize request : thread.request = call at planned concurrent
  cases planned with
  | @unmatched args _ flow record accepted none_matched hash =>
    refine staysDone_of_keepsDone ?_
    cases based with
    | first same =>
      subst same
      rw [update_settle_steps]
      exact keepsDone_unlockDependents _
    | replay later live replayed =>
      rw [update_settle_steps]
      exact keepsDone_unlockDependents _
  | @redispatch args _ flow record step decision key count feedback accepted found decides
      respawned hash =>
    refine staysDone_of_keepsDone ?_
    cases based with
    | first same =>
      subst same
      exact redispatch_keepsDone _ found decides respawned (by simpa [sparesDone] using spares)
    | replay later live replayed =>
      exact keepsDone_modifyById (by simpa [sparesDone] using spares)
  | @settle args _ flow record step decision accepted found decides settled hash =>
    refine staysDone_of_keepsDone ?_
    cases based with
    | first same =>
      subst same
      rw [update_settle_steps]
      exact (settle_keepsDone found decides settled
        (by simpa [sparesDone, DecidedFields.ofStep] using spares)).trans
        (keepsDone_unlockDependents _)
    | replay later live replayed =>
      rw [update_settle_steps]
      exact (replayed_settle_keepsDone (by simpa [sparesDone] using spares)).trans
        (keepsDone_unlockDependents _)
  | @wave args _ ids flow batch read distinct batched =>
    refine staysDone_of_keepsDone ?_
    cases based with
    | first same =>
      subst same
      exact dispatched_keepsDone (spares_waveSteps fun spawned member _ =>
        undone_of_waveReady (batch_named batched spawned member))
        (fun id member => undone_of_waveReady member) (mem_waveRecords batched)
    | replay later live replayed =>
      exact replayed_dispatched_keepsDone later
        (fun record member => (mem_waveRecords batched record member).2) spares
  | @dispatch _ _ ids flow batch dispatches read live batched valid =>
    refine staysDone_of_keepsDone ?_
    cases based with
    | first same =>
      subst same
      exact dispatched_keepsDone (spares_dispatchedSteps fun spawned member _ =>
        undone_of_dispatchError (valid _ (batch_named batched spawned member)))
        (fun id member => undone_of_dispatchError (valid id member)) (mem_dispatchRecords batched)
    | replay later live replayed =>
      exact replayed_dispatched_keepsDone later
        (fun record member => (mem_dispatchRecords batched record member).2) spares
  | @settled _ pairs flow redispatches exhausted read busy respawned =>
    refine staysDone_of_keepsDone ?_
    have undone : ∀ entry ∈ redispatches, Undone row.state.steps entry.1 := by
      have build := based.build
      simp only [sparesDone, build, List.all_eq_true] at spares
      exact fun entry member => undone_of_not_doneStep (by simpa using spares entry member)
    cases based with
    | first same =>
      subst same
      exact keepsDone_retryPlan undone
    | replay later live replayed => exact keepsDone_retryPlan undone
  | @replan reason keepDone _ flow raw entries merged read live text parsed merges =>
    cases based with
    | first same => exact replan_staysDone request read text parsed merges spares
    | replay later live replayed => exact replan_staysDone request read text parsed merges spares
  | runTask => cases concurrent
  | register => cases concurrent
  | updateSteps => cases concurrent
  | finish => cases concurrent
  | single read live writes => cases call <;> simp [concurrentCall, Call.single] at *
  | compensate creates read => cases call <;> simp [concurrentCall, Call.creates] at *

/-! ## Runs -/

theorem StaysDone.refl (steps : List Step) : StaysDone steps steps := fun _ done _ => done

/-- One step of any interleaving, under the condition. -/
theorem step_staysDone {w w' : FlowWorld} {choice : Choice Call Input} (sound : Sound env w)
    (serves : ∀ t ∈ w.threads, concurrentCall t.request = true)
    (allowed : faithful env w choice = true) (stepped : (system env).step w choice = some w')
    {old new : Flow} (before : w.store.row = some old) (after : w'.store.row = some new) :
    StaysDone old.state.steps new.state.steps := by
  have unchanged : w'.store.row = w.store.row → StaysDone old.state.steps new.state.steps := by
    intro same
    rw [same, before, Option.some.injEq] at after
    rw [after]
    exact .refl _
  rcases System.step_cases _ stepped with ⟨call, -, store, -⟩ | ⟨i, input, thread, op, ans, rfl, fires⟩
  · exact unchanged (by rw [store])
  · cases Fires.rowEffect fires with
    | kept same _ _ => exact unchanged same
    | @stored wr row stands matching written =>
      rw [before, Option.some.injEq] at stands
      subst stands
      have member := System.Fires.mem fires
      have pending := System.Fires.pending fires input
      simp only [faithful, pending, before, matching, bne_self_eq_false, Bool.false_or,
        Bool.and_eq_true, decide_eq_true_eq] at allowed
      obtain ⟨plan, planned, based⟩ := sound.based member
        (System.Fires.issued fires sound.honours) before matching allowed.1
      rw [written, Option.some.injEq] at after
      rw [← after]
      exact write_staysDone (serves thread member) planned based allowed.2
    | created absent _ =>
      rw [before] at absent
      cases absent
    | @superseded successor row stands written =>
      rw [before, Option.some.injEq] at stands
      subst stands
      rw [written, Option.some.injEq] at after
      rw [← after]
      exact .refl _

def rowLists (id : String) (w : FlowWorld) : Bool :=
  match w.store.row with
  | some row => listsStep row.state.steps id
  | none => false

def rowDone (id : String) (w : FlowWorld) : Bool :=
  match w.store.row with
  | some row => doneStep row.state.steps id
  | none => false

/-- What every run under the condition keeps. -/
structure Standing (env : Env) (w : FlowWorld) : Prop where
  sound : Sound env w
  serves : ∀ t ∈ w.threads, concurrentCall t.request = true

theorem standing_step {w w' : FlowWorld} {choice : Choice Call Input} (standing : Standing env w)
    (allowed : faithful env w choice = true) (stepped : (system env).step w choice = some w') :
    Standing env w' :=
  ⟨sound_step standing.sound stepped,
    System.serves_step (P := fun call => concurrentCall call = true) standing.serves
      (fun _ started => by subst started; exact allowed) stepped⟩

theorem standing_initial (row : Option Flow) : Standing env (initialWorld row) :=
  ⟨sound_initial row, fun _ member => absurd member List.not_mem_nil⟩

/-! ### A re-dispatch over a finished step -/

/-- A step that runs under a retry policy. -/
def runningStep : Step :=
  { stepId := "a", task := "collect", status := some .dispatched, childSessionKey := some "k"
    retryPolicy := some { maxRetries := 1, retryDelaySeconds := some 0 } }

def runningFlow : Flow := { flowId := "flow", state := { steps := [runningStep] } }

def okEnv : Env := scenarioEnv [("k\x1fok", "3f8eaa702abe49b4")] []

/-- `taskflow_wait_all` sees the child settled and starts a replacement; the child's
own result arrives before the retry plan is persisted. -/
def finishedMeanwhile : List (Choice Call Input) :=
  [.start .waitAll, .run 0 .tick, .run 0 (.polled .settled), .run 0 .tick,
    .run 0 (.spawned { accepted := true, childSessionKey := "k2" }),
    .start (.resume { childSessionKey := "k", result := "ok" }), .run 1 .tick, .run 1 .tick]

/-- The plan's write: a conflict, the re-read, and the replay. -/
def planPersisted : List (Choice Call Input) := [.run 0 .tick, .run 0 .tick, .run 0 .tick]

def statusOf (id : String) (w : FlowWorld) : Option StepStatus :=
  w.store.row.bind fun row => (firstById row.state.steps id).map stepStatus

/-- The replayed retry plan moves the done step back to dispatched. -/
theorem wait_all_rewinds_done : ∃ w w' : FlowWorld,
    (system okEnv).Runs (fun v choice => concurrent v choice = true)
      (initialWorld (some runningFlow)) w ∧
    rowDone "a" w = true ∧
    (system okEnv).Runs (fun v choice => concurrent v choice = true ∧ rowLists "a" v = true) w w' ∧
    rowLists "a" w' = true ∧ statusOf "a" w' = some .dispatched := by
  have played : ((system okEnv).play concurrent (initialWorld (some runningFlow))
      finishedMeanwhile).any (fun w => rowDone "a" w &&
        ((system okEnv).play (fun v choice => concurrent v choice && rowLists "a" v) w
          planPersisted).any fun w' => rowLists "a" w' && statusOf "a" w' == some .dispatched) =
      true := by
    decide +kernel
  obtain ⟨w, reached, holds⟩ := System.Runs.exists_of_play played
  obtain ⟨done, replayed⟩ := (Bool.and_eq_true _ _).mp holds
  obtain ⟨w', later, holds⟩ := System.Runs.exists_of_play replayed
  obtain ⟨listed, status⟩ := (Bool.and_eq_true _ _).mp holds
  exact ⟨w, w', reached, done, later.mono fun v choice allowed => by simpa using allowed, listed,
    by simpa using status⟩

/-- In every interleaving of the four tools whose successful writes spare the steps
already done, a step that is done stays done in all later states of the run for as
long as it is listed. -/
theorem done_steps_stay {row : Option Flow} {w w' : FlowWorld} {id : String}
    (reached : (system env).Runs (fun v choice => faithful env v choice = true)
      (initialWorld row) w)
    (done : rowDone id w = true)
    (later : (system env).Runs
      (fun v choice => faithful env v choice = true ∧ rowLists id v = true) w w')
    (listed : rowLists id w' = true) : rowDone id w' = true := by
  have standing : Standing env w := System.Runs.invariant _ reached (standing_initial row)
    fun _ _ _ standing allowed stepped => standing_step standing allowed stepped
  have kept : Standing env w' ∧ (rowLists id w' = true → rowDone id w' = true) := by
    refine System.Runs.invariant (fun v => Standing env v ∧
      (rowLists id v = true → rowDone id v = true)) later ⟨standing, fun _ => done⟩ ?_
    rintro v v' choice ⟨standing, done⟩ ⟨allowed, listed⟩ stepped
    refine ⟨standing_step standing allowed stepped, fun listed' => ?_⟩
    have done := done listed
    unfold rowDone rowLists at *
    split at done
    · rename_i old before
      split at listed'
      · rename_i new after
        exact step_staysDone standing.sound standing.serves allowed stepped before after id done
          listed'
      · cases listed'
    · cases done
  exact kept.2 listed

def twoRunningFlow : Flow :=
  { flowId := "flow"
    state := { steps := [runningStep,
      { stepId := "b", task := "report", status := some .dispatched, childSessionKey := some "k2" }] } }

def twoResultsEnv : Env :=
  scenarioEnv [("k\x1fok", "3f8eaa702abe49b4"), ("k2\x1fok", "2fc0a214597f89b1")] []

/-- Two children finish at once: the second result is read before the first is written, and its own
write is refused and made again on the row with the first. -/
theorem done_steps_stay_two_results : ∃ w w' : FlowWorld,
    (system twoResultsEnv).Runs (fun v choice => faithful twoResultsEnv v choice = true) w w' ∧
    rowDone "b" w = false ∧ rowDone "b" w' = true ∧ rowDone "a" w' = true := by
  have played : ((system twoResultsEnv).play (faithful twoResultsEnv)
      (initialWorld (some twoRunningFlow))
      [.start (.resume { childSessionKey := "k", result := "ok" }), .run 0 .tick,
        .start (.resume { childSessionKey := "k2", result := "ok" }), .run 1 .tick, .run 0 .tick,
        .run 0 .tick]).any (fun w => rowDone "a" w && !rowDone "b" w &&
        ((system twoResultsEnv).play (fun v choice => faithful twoResultsEnv v choice &&
            rowLists "a" v) w [.run 1 .tick, .run 1 .tick, .run 1 .tick]).any fun w' =>
          rowLists "a" w' && rowDone "b" w') =
      true := by
    decide +kernel
  obtain ⟨w, reached, holds⟩ := System.Runs.exists_of_play played
  simp only [Bool.and_eq_true, Bool.not_eq_true'] at holds
  obtain ⟨⟨done, open_step⟩, continued⟩ := holds
  obtain ⟨w', later, holds⟩ := System.Runs.exists_of_play continued
  obtain ⟨listed, finished⟩ := (Bool.and_eq_true _ _).mp holds
  have allowed := later.mono fun v choice allowed => by simpa using allowed
  exact ⟨w, w', allowed.mono fun _ _ both => both.1, open_step, finished,
    done_steps_stay reached done allowed listed⟩

end SherryAgent.Guarantees.DoneSteps
