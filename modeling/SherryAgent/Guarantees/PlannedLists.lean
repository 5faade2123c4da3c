import SherryAgent.Contracts.Taskflow.Planning
import SherryAgent.Contracts.Taskflow.StoredLists
import SherryAgent.Library.Solo

/-!
# The step lists of a plan and of a replan

- `persisted_lists_pass_iff`: a plan's list always passes `validate_steps_list`; a replan's list
  does exactly when what it keeps and what it adds fit together
- `replanned_cycle`: two new steps that wait for each other are stored
-/

namespace SherryAgent.Guarantees.PlannedLists

open SherryAgent.Source SherryAgent.Source.Taskflow SherryAgent.Contracts.Taskflow
  SherryAgent.Library.Resumption SherryAgent.Library.Walks

variable {env : Env} {steps kept merged : List Step} {planned added : List Json}

/-- `validate_steps_list` accepts the stored list. -/
def Passes (steps : List Step) : Prop := validateStepsList (steps.map storedStep) = none

/-- The ids that a replan hands to the row: of the steps it keeps and of the entries it adds. -/
def replanIds (kept : List Step) (added : List Json) : List String :=
  (kept.map fun step => PyText.strip step.stepId) ++ added.map entryId

/-- The dependencies of a planned entry. -/
def entryDeps (entry : Json) : List String := strippedIds ((replanDeps entry).getD [])

/-- A step that is kept, or an entry that is added, and one of its dependencies. -/
def ReplanNeeds (kept : List Step) (added : List Json) (node dep : String) : Prop :=
  (∃ step ∈ kept, PyText.strip step.stepId = node ∧ dep ∈ strippedIds step.dependsOn) ∨
    ∃ entry ∈ added, entryId entry = node ∧ dep ∈ entryDeps entry

/-- What a replan keeps and what it adds fit together. -/
structure SoundReplan (kept : List Step) (added : List Json) : Prop where
  sound : ∀ step ∈ kept, SoundStep step
  distinct : (replanIds kept added).Nodup
  present : ∀ step ∈ kept, ∀ dep ∈ strippedIds step.dependsOn, dep ∈ replanIds kept added
  acyclic : Acyclic (ReplanNeeds kept added)

/-! ## The list of a replan -/

theorem ids_of_replanned {keptIds plannedIds : List String} {newSteps : List Step}
    (replanned : List.Forall₂ (Replanned keptIds plannedIds) added newSteps) :
    (newSteps.map fun step => PyText.strip step.stepId) = added.map entryId := by
  induction replanned with
  | nil => rfl
  | cons here _ ih => rw [List.map_cons, List.map_cons, ih, here.stepId, strip_entryId]

theorem needs_of_replanned {keptIds plannedIds : List String} {newSteps : List Step}
    (replanned : List.Forall₂ (Replanned keptIds plannedIds) added newSteps) {node dep : String} :
    (∃ step ∈ newSteps, PyText.strip step.stepId = node ∧ dep ∈ strippedIds step.dependsOn) ↔
      ∃ entry ∈ added, entryId entry = node ∧ dep ∈ entryDeps entry := by
  induction replanned with
  | nil => simp
  | @cons entry step _ _ here _ ih =>
    have id_eq : PyText.strip step.stepId = entryId entry := by rw [here.stepId, strip_entryId]
    have deps_eq : strippedIds step.dependsOn = entryDeps entry := by
      rw [entryDeps, here.dependsOn, Option.getD_some]
    simp only [List.exists_mem_cons_iff, ih, id_eq, deps_eq]

theorem entry_of_replanned {keptIds plannedIds : List String} {newSteps : List Step} {step : Step}
    (replanned : List.Forall₂ (Replanned keptIds plannedIds) added newSteps)
    (member : step ∈ newSteps) : ∃ entry ∈ added, Replanned keptIds plannedIds entry step := by
  induction replanned with
  | nil => cases member
  | cons first _ ih =>
    rcases List.mem_cons.mp member with rfl | member
    · exact ⟨_, List.mem_cons_self, first⟩
    · obtain ⟨entry, inside, here⟩ := ih member
      exact ⟨entry, List.mem_cons_of_mem _ inside, here⟩

/-- A new step is sound unless it waits for itself. -/
theorem sound_of_replanned {keptIds plannedIds : List String} {newSteps : List Step}
    (replanned : List.Forall₂ (Replanned keptIds plannedIds) added newSteps)
    (usable : ∀ entry ∈ added, entryId entry ≠ "" ∧ entryTask entry ≠ "")
    (others : ∀ entry ∈ added, entryId entry ∉ entryDeps entry) :
    ∀ step ∈ newSteps, SoundStep step := by
  intro step member
  obtain ⟨entry, inside, here⟩ := entry_of_replanned replanned member
  obtain ⟨named, tasked⟩ := usable entry inside
  constructor
  · rw [here.stepId, strip_entryId]
    exact named
  · rw [here.task, strip_entryTask]
    exact tasked
  · exact here.status
  · intro dep needs
    have some_text : PyText.strip dep ≠ "" := by
      have listed := here.dependsOn
      unfold replanDeps at listed
      obtain ⟨raw, -, filtered⟩ := Option.map_eq_some_iff.mp listed
      rw [← filtered] at needs
      simpa using (List.mem_filter.mp needs).2
    constructor
    · exact some_text
    · rw [here.stepId, strip_entryId]
      intro same
      apply others entry inside
      rw [entryDeps, here.dependsOn]
      exact mem_strippedIds.mpr ⟨dep, needs, same, same ▸ some_text⟩
  · intro files stored
    rw [here.fileDeps] at stored
    cases stored

/-- The dependencies of a new step are among the ids of the list: the planner's check of unknown
ids has passed. -/
theorem known_of_replanned {keepDone : Bool} {newSteps : List Step}
    (replanned : List.Forall₂
      (Replanned (stepIds (replanKept keepDone steps)) (planned.map entryId))
      (addedEntries keepDone steps planned) newSteps) {step : Step} (member : step ∈ newSteps)
    {dep : String} (needs : dep ∈ strippedIds step.dependsOn) :
    dep ∈ replanIds (replanKept keepDone steps) (addedEntries keepDone steps planned) := by
  have of_kept : ∀ raw ∈ stepIds (replanKept keepDone steps),
      PyText.strip raw ∈ replanIds (replanKept keepDone steps)
        (addedEntries keepDone steps planned) := by
    intro raw old
    obtain ⟨step, inside, rfl⟩ := List.mem_map.mp old
    rw [replanIds, List.mem_append]
    left
    exact List.mem_map.mpr ⟨step, inside, rfl⟩
  obtain ⟨entry, -, here⟩ := entry_of_replanned replanned member
  obtain ⟨raw, listed, rfl, -⟩ := mem_strippedIds.mp needs
  rcases here.known raw listed with old | new
  · exact of_kept raw old
  · obtain ⟨other, among, rfl⟩ := List.mem_map.mp new
    by_cases kept : entryId other ∈ stepIds (replanKept keepDone steps)
    · exact of_kept _ kept
    · rw [strip_entryId, replanIds, List.mem_append]
      right
      refine List.mem_map.mpr ⟨other, ?_, rfl⟩
      rw [addedEntries, List.mem_filter, List.contains_eq_mem, decide_eq_false kept]
      exact ⟨among, rfl⟩

/-- The list of a replan passes exactly when what it keeps and what it adds fit together. -/
theorem replanMerged_passes_iff {keepDone : Bool}
    (usable : ∀ entry ∈ planned, entryId entry ≠ "" ∧ entryTask entry ≠ "")
    (merges : replanMerged keepDone steps planned = .ok merged) :
    Passes merged ↔
      SoundReplan (replanKept keepDone steps) (addedEntries keepDone steps planned) := by
  obtain ⟨newSteps, rfl, replanned⟩ := replanMerged_replanned merges
  have ids : ((replanKept keepDone steps ++ newSteps).map fun step => PyText.strip step.stepId) =
      replanIds (replanKept keepDone steps) (addedEntries keepDone steps planned) := by
    rw [List.map_append, ids_of_replanned replanned, replanIds]
  have relation : (fun node dep => ∃ step ∈ replanKept keepDone steps ++ newSteps,
      PyText.strip step.stepId = node ∧ dep ∈ strippedIds step.dependsOn) =
        ReplanNeeds (replanKept keepDone steps) (addedEntries keepDone steps planned) := by
    funext node dep
    apply propext
    rw [ReplanNeeds, ← needs_of_replanned replanned]
    simp only [List.mem_append, or_and_right, exists_or]
  unfold Passes
  rw [validate_stored_iff, ids, relation]
  constructor
  · rintro ⟨each, distinct, known, acyclic⟩
    exact ⟨fun step member => each step (List.mem_append_left _ member), distinct,
      fun step member => known step (List.mem_append_left _ member), acyclic⟩
  · intro fits
    have others : ∀ entry ∈ addedEntries keepDone steps planned,
        entryId entry ∉ entryDeps entry := by
      intro entry inside needs
      exact fits.acyclic (entryId entry) (.single (.inr ⟨entry, inside, rfl, needs⟩))
    have added_usable : ∀ entry ∈ addedEntries keepDone steps planned,
        entryId entry ≠ "" ∧ entryTask entry ≠ "" :=
      fun entry inside => usable entry (List.mem_of_mem_filter inside)
    refine ⟨?_, fits.distinct, ?_, fits.acyclic⟩
    · intro step member
      rcases List.mem_append.mp member with old | new
      · exact fits.sound step old
      · exact sound_of_replanned replanned added_usable others step new
    · intro step member dep needs
      rcases List.mem_append.mp member with old | new
      · exact fits.present step old dep needs
      · exact known_of_replanned replanned new needs

/-! ## What the tools persist -/

theorem usable_of_parseSteps {raw : String} (parsed : parseSteps env raw = .ok planned) :
    ∀ entry ∈ planned, entryId entry ≠ "" ∧ entryTask entry ≠ "" := by
  unfold parseSteps at parsed
  split at parsed
  · cases parsed
  · split at parsed
    · cases parsed
    · cases parsed
      intro entry member
      have usable := (List.mem_filter.mp member).2
      simp only [Bool.and_eq_true, bne_iff_ne, ne_eq] at usable
      exact ⟨usable.1.2, usable.2⟩

/-- A replan writes nothing but the list it computed from the row it read. -/
theorem replan_writes {reason : String} {keepDone : Bool} {h : History} {w : Write}
    (writes : MayWrite env (.replan reason keepDone) h w) :
    ∃ flow raw planned merged, (.tool, flow) ∈ reads h ∧ raw ∈ planTexts h ∧
      parseSteps env raw = .ok planned ∧
      replanMerged keepDone flow.state.steps planned = .ok merged ∧
      w.build = .replan merged flow.state.replanCount reason := by
  obtain ⟨plan, decided, attempt, -⟩ := writes
  have same : w.build = plan.build := by
    cases attempt <;> rfl
  rw [same]
  cases decided with
  | dispatch dispatches => cases dispatches
  | single read live single => cases single
  | compensate creates => cases creates
  | @replan _ _ _ flow raw planned merged read live text parsed merges =>
    exact ⟨flow, raw, planned, merged, read, text, parsed, merges, rfl⟩

/-- Whatever the planner, the store and the other calls answer: the list with which a plan creates
its flow passes `validate_steps_list`, and a list that a replan writes passes it exactly when the
steps it keeps of the row it read and the planner's new entries fit together. -/
theorem persisted_lists_pass_iff (env : Env) :
    (∀ goal maxSteps, (taskflowPlan env goal maxSteps).Issues (E := effects)
      (fun _ op => ∀ flow, op = .createFlow flow → Passes flow.state.steps)
      (fun _ _ => True) []) ∧
    ∀ reason keepDone, (taskflowReplan env reason keepDone).Issues (E := effects)
      (fun h op => ∀ w row, op = .updateFlow w → ∃ flow raw planned,
        (.tool, flow) ∈ reads h ∧ raw ∈ planTexts h ∧ parseSteps env raw = .ok planned ∧
        (Passes (w.update row).state.steps ↔
          SoundReplan (replanKept keepDone flow.state.steps)
            (addedEntries keepDone flow.state.steps planned)))
      (fun _ _ => True) [] := by
  constructor
  · intro goal maxSteps
    apply (taskflowPlan_issues goal maxSteps).mono
    · rintro h op - performs flow rfl
      cases performs with
      | plan parsed => exact ((parsePlan_order parsed).take _).valid
    · exact fun _ _ _ _ => trivial
  · intro reason keepDone
    apply (taskflowReplan_issues reason keepDone).mono
    · rintro h op - performs w row rfl
      obtain ⟨flow, raw, planned, merged, read, text, parsed, merges, build⟩ := replan_writes performs
      have stored : (w.update row).state.steps = merged := by
        unfold Write.update
        rw [build]
        rfl
      refine ⟨flow, raw, planned, read, text, parsed, ?_⟩
      rw [stored]
      exact replanMerged_passes_iff (usable_of_parseSteps parsed) merges
    · exact fun _ _ _ _ => trivial

/-! ## A replan into a cycle -/

/-- The planner's answer: two steps that wait for each other. -/
def cyclicAnswer : String :=
  "[\x7b\"step_id\": \"b\", \"task\": \"left\", \"depends_on\": [\"c\"]\x7d, " ++
    "\x7b\"step_id\": \"c\", \"task\": \"right\", \"depends_on\": [\"b\"]\x7d]"

def cyclicEntries : List Json :=
  [.obj [("step_id", .str "b"), ("task", .str "left"), ("depends_on", .arr [.str "c"])],
   .obj [("step_id", .str "c"), ("task", .str "right"), ("depends_on", .arr [.str "b"])]]

/-- `loads` knows the one text. -/
def cyclicEnv : Env where
  digest := id
  loads text := if text = cyclicAnswer then .ok (.arr cyclicEntries) else .error "not JSON"
  validate _ _ := .ok ()

/-- A flow whose only step failed. -/
def failedFlow : Flow where
  flowId := "flow"
  state := { steps := [{ stepId := "a", task := "work", status := some .failed }] }

def plannerInput (_ : History) : Op → Input
  | .planner _ => .planned (.ok cyclicAnswer)
  | _ => .tick

/-- An answer that is its own slice is parsed as what it loads as. -/
theorem plannerArray_of_loads {env : Env} {raw : String} {entries : List Json}
    (stripped : (PyText.strip raw).toList = raw.toList)
    (unfenced : ['`', '`', '`'].isPrefixOf raw.toList = false)
    (sliced : PyText.sliceBetween '[' ']' raw.toList = some raw.toList)
    (loads : env.loads raw = .ok (.arr entries)) : plannerArray env raw = .ok entries := by
  simp [plannerArray, stripped, unfenced, sliced, loads]

theorem parseSteps_of_array {env : Env} {raw : String} {entries : List Json}
    (array : plannerArray env raw = .ok entries) (usable : usableEntries entries = entries)
    (some_entry : entries.isEmpty = false) : parseSteps env raw = .ok entries := by
  simp [parseSteps, array, usable, some_entry]

theorem parsed_cyclicAnswer : parseSteps cyclicEnv cyclicAnswer = .ok cyclicEntries := by
  apply parseSteps_of_array _ (by rfl) rfl
  apply plannerArray_of_loads
  · unfold PyText.strip cyclicAnswer
    rw [String.toList_ofList, String.toList_append]
    repeat rw [String.toList_ofList]
    decide +kernel
  · unfold cyclicAnswer
    rw [String.toList_append]
    repeat rw [String.toList_ofList]
    decide +kernel
  · unfold cyclicAnswer
    rw [String.toList_append]
    repeat rw [String.toList_ofList]
    decide +kernel
  · unfold cyclicEnv
    dsimp only
    rw [if_pos rfl]

/-- The replan stores the cycle, and `validate_steps_list` rejects what it stored. -/
theorem replanned_cycle : ∃ reply h after flow,
    (taskflowReplan cyclicEnv "the step failed" true).solo exec plannerInput []
      { row := some failedFlow } = some (reply, h, after) ∧
    after.row = some flow ∧ ¬Passes flow.state.steps := by
  have merges : ∃ merged, replanMerged true failedFlow.state.steps cyclicEntries = .ok merged ∧
      (validateStepsList (merged.map storedStep)).isSome = true :=
    ⟨_, rfl, by decide +kernel⟩
  obtain ⟨merged, merges, rejected⟩ := merges
  have read : exec (.getFlow .tool) { row := some failedFlow } (plannerInput [] (.getFlow .tool)) =
      some (some failedFlow, { row := some failedFlow }) := rfl
  have answered : ∀ h, exec (.planner "the step failed") { row := some failedFlow }
      (plannerInput h (.planner "the step failed")) =
        some (.ok cyclicAnswer, { row := some failedFlow }) := fun h => rfl
  have live : isTerminal failedFlow.status = false := rfl
  have fresh : ¬replanMax ≤ failedFlow.state.replanCount := by decide
  have some_step : failedFlow.state.steps.isEmpty = false := rfl
  unfold taskflowReplan getFlow
  rw [Prog.solo_perform_bind read]
  dsimp only
  rw [live, if_neg Bool.false_ne_true, if_neg fresh, some_step, if_neg Bool.false_ne_true,
    Prog.solo_perform_bind (answered _)]
  dsimp only
  rw [parsed_cyclicAnswer]
  dsimp only
  rw [merges]
  refine ⟨_, _, _, _, rfl, rfl, ?_⟩
  intro passes
  change validateStepsList (merged.map storedStep) = none at passes
  rw [passes] at rejected
  cases rejected

end SherryAgent.Guarantees.PlannedLists
