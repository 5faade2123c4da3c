import SherryAgent.Contracts.Taskflow.Validation
import SherryAgent.Contracts.Texts

/-!
# The step lists that the planning tools store

What `validate_steps_list` says of a list of stored steps, and what the parsers of a plan and of a
replan put into it.
-/

namespace SherryAgent.Contracts.Taskflow

open SherryAgent.Source SherryAgent.Source.Taskflow SherryAgent.Library.Walks
open SherryAgent.Contracts.Texts (strip_strip)

/-- The dict of a step in `state_json`, with the fields that `validate_steps_list` reads. -/
def storedStep (step : Step) : Json :=
  .obj ([("step_id", .str step.stepId), ("task", .str step.task),
      ("depends_on", .arr (step.dependsOn.map .str))] ++
    (step.status.map fun status => ("status", Json.str status.value)).toList ++
    (step.fileDeps.map fun files => ("file_deps", Json.arr (files.map .str))).toList)

/-- A stored step whose fields `validate_steps_list` accepts, its other steps apart. -/
structure SoundStep (step : Step) : Prop where
  stepId : PyText.strip step.stepId ≠ ""
  task : PyText.strip step.task ≠ ""
  status : ∃ status, step.status = some status ∧ status.isMember = true
  dependsOn : ∀ dep ∈ step.dependsOn,
    PyText.strip dep ≠ "" ∧ PyText.strip dep ≠ PyText.strip step.stepId
  fileDeps : ∀ files, step.fileDeps = some files → ∀ file ∈ files, PyText.strip file ≠ ""

/-- Stripped ids without the blank ones. -/
def strippedIds (ids : List String) : List String := (ids.map PyText.strip).filter (· != "")

variable {step : Step} {steps : List Step} {entry : Json} {text : String}

/-! ## Stripped texts -/

theorem nonBlank_str :
    Json.nonBlank (.str text) = if PyText.strip text = "" then none else some (PyText.strip text) := by
  simp [Json.nonBlank]

theorem filled_str : Filled (.str text) ↔ PyText.strip text ≠ "" := by
  unfold Filled
  rw [nonBlank_str]
  split
  · simp_all
  · simp_all

/-! ## The dict of a step -/

theorem get_stepId : (storedStep step).get "step_id" = .str step.stepId := rfl

theorem get_task : (storedStep step).get "task" = .str step.task := rfl

theorem get_dependsOn : (storedStep step).get "depends_on" = .arr (step.dependsOn.map .str) := rfl

theorem get_status : (storedStep step).get "status" =
    (step.status.map fun status => Json.str status.value).getD .null := by
  unfold storedStep Json.get
  cases step.status with
  | none => cases step.fileDeps <;> rfl
  | some status => rfl

theorem get_fileDeps : (storedStep step).get "file_deps" =
    (step.fileDeps.map fun files => Json.arr (files.map .str)).getD .null := by
  unfold storedStep Json.get
  cases step.status with
  | none => cases step.fileDeps <;> rfl
  | some status => cases step.fileDeps <;> rfl

theorem hasKey_fileDeps : hasKey (storedStep step) "file_deps" = step.fileDeps.isSome := by
  unfold storedStep hasKey
  cases step.status with
  | none => cases step.fileDeps <;> rfl
  | some status => cases step.fileDeps <;> rfl

@[simp] theorem stepId_stored : Json.stepId (storedStep step) = PyText.strip step.stepId := by
  unfold Json.stepId
  rw [get_stepId, nonBlank_str]
  split
  · simp_all
  · rfl

@[simp] theorem dependencyIds_stored :
    Json.dependencyIds (storedStep step) = strippedIds step.dependsOn := by
  unfold Json.dependencyIds strippedIds
  rw [get_dependsOn]
  dsimp only
  induction step.dependsOn with
  | nil => rfl
  | cons dep rest ih =>
    rw [List.map_cons, List.filterMap_cons, nonBlank_str, ih]
    by_cases blank : PyText.strip dep = ""
    · simp [blank]
    · simp [blank]

theorem ofValue_value (status : StepStatus) :
    (StepStatus.ofValue status.value).isSome = status.isMember := by
  cases status with
  | other text unknown =>
    have absent : StepStatus.all.find? (fun status => status.value == text) = none := by
      rw [List.find?_eq_none]
      intro status member same
      apply unknown.2
      rw [← beq_iff_eq.mp same]
      exact List.mem_map_of_mem (f := StepStatus.value) member
    change (StepStatus.all.find? fun status => status.value == text).isSome = false
    rw [absent]
    rfl
  | _ => rfl

theorem wellFormedStep_stored : WellFormedStep (storedStep step) ↔ SoundStep step := by
  constructor
  · intro well
    constructor
    · simpa only [get_stepId, filled_str] using well.stepId
    · simpa only [get_task, filled_str] using well.task
    · obtain ⟨text, stored, member⟩ := well.status
      rw [get_status] at stored
      cases status : step.status with
      | none => simp [status] at stored
      | some value =>
        simp only [status, Option.map_some, Option.getD_some, Json.str.injEq] at stored
        rw [← stored, ofValue_value] at member
        exact ⟨value, rfl, member⟩
    · intro dep member
      obtain ⟨items, stored, each⟩ := well.dependsOn
      rw [get_dependsOn] at stored
      obtain rfl := Json.arr.inj stored
      obtain ⟨id, filled, other⟩ := each (.str dep) (List.mem_map_of_mem member)
      rw [nonBlank_str] at filled
      rw [stepId_stored] at other
      split at filled
      · cases filled
      · rename_i some_text
        obtain rfl := Option.some.inj filled
        exact ⟨some_text, other⟩
    · intro files stored file member
      have given : hasKey (storedStep step) "file_deps" = true := by
        rw [hasKey_fileDeps, stored]
        rfl
      obtain ⟨items, listed, each⟩ := well.fileDeps given
      rw [get_fileDeps, stored] at listed
      obtain rfl := Json.arr.inj listed
      exact filled_str.mp (each (.str file) (List.mem_map_of_mem member))
  · intro sound
    constructor
    · rfl
    · simpa only [get_stepId, filled_str] using sound.stepId
    · simpa only [get_task, filled_str] using sound.task
    · obtain ⟨status, stored, member⟩ := sound.status
      refine ⟨status.value, ?_, (ofValue_value status).trans member⟩
      rw [get_status, stored]
      rfl
    · refine ⟨step.dependsOn.map .str, get_dependsOn, ?_⟩
      intro item member
      obtain ⟨dep, inside, rfl⟩ := List.mem_map.mp member
      obtain ⟨some_text, other⟩ := sound.dependsOn dep inside
      refine ⟨PyText.strip dep, ?_, ?_⟩
      · rw [nonBlank_str, if_neg some_text]
      · rw [stepId_stored]
        exact other
    · intro given
      rw [hasKey_fileDeps] at given
      obtain ⟨files, stored⟩ := Option.isSome_iff_exists.mp given
      refine ⟨files.map .str, ?_, ?_⟩
      · rw [get_fileDeps, stored]
        rfl
      · intro item member
        obtain ⟨file, inside, rfl⟩ := List.mem_map.mp member
        exact filled_str.mpr (sound.fileDeps files stored file inside)

theorem stepIds_stored :
    (steps.map storedStep).map Json.stepId = steps.map fun step => PyText.strip step.stepId := by
  simp

theorem dependsOn_stored {node dep : String} : DependsOn (steps.map storedStep) node dep ↔
    ∃ step ∈ steps, PyText.strip step.stepId = node ∧ dep ∈ strippedIds step.dependsOn := by
  unfold DependsOn
  constructor
  · rintro ⟨item, member, named, needs⟩
    obtain ⟨step, inside, rfl⟩ := List.mem_map.mp member
    exact ⟨step, inside, by simpa using named, by simpa using needs⟩
  · rintro ⟨step, inside, named, needs⟩
    exact ⟨storedStep step, List.mem_map_of_mem inside, by simpa using named, by simpa using needs⟩

/-- `validate_steps_list` on a list of stored steps. -/
theorem validate_stored_iff : validateStepsList (steps.map storedStep) = none ↔
    (∀ step ∈ steps, SoundStep step) ∧ (steps.map fun step => PyText.strip step.stepId).Nodup ∧
      (∀ step ∈ steps, ∀ dep ∈ strippedIds step.dependsOn,
        dep ∈ steps.map fun step => PyText.strip step.stepId) ∧
      Acyclic fun node dep =>
        ∃ step ∈ steps, PyText.strip step.stepId = node ∧ dep ∈ strippedIds step.dependsOn := by
  have relation : DependsOn (steps.map storedStep) = fun node dep =>
      ∃ step ∈ steps, PyText.strip step.stepId = node ∧ dep ∈ strippedIds step.dependsOn := by
    funext node dep
    exact propext dependsOn_stored
  rw [validateStepsList_none_iff, relation]
  constructor
  · rintro ⟨well, acyclic⟩
    refine ⟨?_, ?_, ?_, acyclic⟩
    · intro step member
      exact wellFormedStep_stored.mp (well.each _ (List.mem_map_of_mem member))
    · rw [← stepIds_stored]
      exact well.unique
    · intro step member dep needs
      rw [← stepIds_stored]
      exact well.known _ _ (dependsOn_stored.mpr ⟨step, member, rfl, needs⟩)
  · rintro ⟨each, unique, known, acyclic⟩
    refine ⟨⟨?_, ?_, ?_⟩, acyclic⟩
    · intro item member
      obtain ⟨step, inside, rfl⟩ := List.mem_map.mp member
      exact wellFormedStep_stored.mpr (each step inside)
    · rw [stepIds_stored]
      exact unique
    · intro node dep needs
      obtain ⟨step, inside, -, listed⟩ := dependsOn_stored.mp needs
      rw [stepIds_stored]
      exact known step inside dep listed

/-! ## A plan -/

/-- The steps of a plan: each is sound, has an id that is new, and needs earlier ids only. -/
inductive PlanOrder : (seen : List String) → List Step → Prop
  | nil {seen} : PlanOrder seen []
  | cons {seen step rest} (sound : SoundStep step)
      (stripped : PyText.strip step.stepId = step.stepId) (fresh : step.stepId ∉ seen)
      (earlier : ∀ dep ∈ strippedIds step.dependsOn, dep ∈ seen)
      (later : PlanOrder (seen ++ [step.stepId]) rest) : PlanOrder seen (step :: rest)

theorem PlanOrder.take {seen : List String} (ordered : PlanOrder seen steps) (count : Nat) :
    PlanOrder seen (steps.take count) := by
  induction ordered generalizing count with
  | nil =>
    rw [List.take_nil]
    exact .nil
  | cons sound stripped fresh earlier later ih =>
    cases count with
    | zero => exact .nil
    | succ count => exact .cons sound stripped fresh earlier (ih count)

theorem mem_strippedIds {ids : List String} {id : String} :
    id ∈ strippedIds ids ↔ ∃ raw ∈ ids, PyText.strip raw = id ∧ id ≠ "" := by
  simp only [strippedIds, List.mem_filter, List.mem_map, bne_iff_ne, ne_eq]
  constructor
  · rintro ⟨⟨raw, member, same⟩, some_text⟩
    exact ⟨raw, member, same, some_text⟩
  · rintro ⟨raw, member, same, some_text⟩
    exact ⟨⟨raw, member, same⟩, some_text⟩

theorem PlanOrder.facts {seen : List String} (ordered : PlanOrder seen steps) :
    (∀ step ∈ steps, SoundStep step) ∧
      (steps.map fun step => PyText.strip step.stepId).Nodup ∧
      (∀ id ∈ seen, id ∉ steps.map fun step => PyText.strip step.stepId) ∧
      ∀ step ∈ steps, ∀ dep ∈ strippedIds step.dependsOn,
        dep ∈ seen ∨ dep ∈ steps.map fun step => PyText.strip step.stepId := by
  induction ordered with
  | nil => simp
  | @cons seen step rest sound stripped fresh earlier later ih =>
    obtain ⟨each, unique, unseen, known⟩ := ih
    refine ⟨?_, ?_, ?_, ?_⟩
    · intro other member
      rcases List.mem_cons.mp member with rfl | member
      · exact sound
      · exact each other member
    · rw [List.map_cons, List.nodup_cons, stripped]
      exact ⟨unseen _ (by simp), unique⟩
    · intro id before
      rw [List.map_cons, List.mem_cons, stripped, not_or]
      constructor
      · rintro rfl
        exact fresh before
      · exact unseen id (by simp [before])
    · intro other member dep needs
      rw [List.map_cons, List.mem_cons, stripped]
      rcases List.mem_cons.mp member with rfl | member
      · exact .inl (earlier dep needs)
      · rcases known other member dep needs with before | behind
        · rcases List.mem_append.mp before with before | here
          · exact .inl before
          · exact .inr (.inl (List.mem_singleton.mp here))
        · exact .inr (.inr behind)

/-- A walk from a step of the plan leads to earlier steps only, so it ends. -/
theorem PlanOrder.settled {edge : String → String → Prop} {seen : List String}
    (ordered : PlanOrder seen steps) (before : ∀ id ∈ seen, Settled edge id)
    (edges : ∀ step ∈ steps, ∀ dep, edge (PyText.strip step.stepId) dep →
      dep ∈ strippedIds step.dependsOn) :
    ∀ step ∈ steps, Settled edge (PyText.strip step.stepId) := by
  induction ordered with
  | nil =>
    intro step member
    cases member
  | @cons seen step rest sound stripped fresh earlier later ih =>
    have here : Settled edge (PyText.strip step.stepId) := by
      apply Settled.of_targets
      intro dep needed
      have needs := edges step List.mem_cons_self dep needed
      have known := earlier dep needs
      exact before dep known
    intro other member
    rcases List.mem_cons.mp member with rfl | member
    · exact here
    · apply ih _ _ other member
      · intro id known
        rcases List.mem_append.mp known with known | same
        · exact before id known
        · rw [List.mem_singleton.mp same, ← stripped]
          exact here
      · intro later member
        exact edges later (List.mem_cons_of_mem _ member)

/-- A list in plan order passes the validation. -/
theorem PlanOrder.valid (ordered : PlanOrder [] steps) :
    validateStepsList (steps.map storedStep) = none := by
  obtain ⟨each, unique, -, known⟩ := ordered.facts
  apply validate_stored_iff.mpr
  refine ⟨each, unique, ?_, ?_⟩
  · intro step member dep needs
    rcases known step member dep needs with nothing | inside
    · cases nothing
    · exact inside
  · apply acyclic_of_settled
    rintro node dep ⟨step, member, rfl, -⟩
    apply ordered.settled _ _ step member
    · intro id nothing
      cases nothing
    · rintro one inside dep ⟨other, among, same, needs⟩
      have equal := List.inj_on_of_nodup_map unique among inside same
      exact equal ▸ needs

theorem strip_entryId : PyText.strip (entryId entry) = entryId entry := strip_strip _

theorem strip_entryTask : PyText.strip (entryTask entry) = entryTask entry := strip_strip _

theorem mem_planDeps {seen deps : List String} {dep : String}
    (parsed : planDeps seen entry = some deps) (member : dep ∈ deps) :
    PyText.strip dep = dep ∧ dep ≠ "" ∧ dep ∈ seen := by
  unfold planDeps at parsed
  obtain ⟨raw, -, rfl⟩ := Option.map_eq_some_iff.mp parsed
  simp only [List.mem_filter, List.mem_map, bne_iff_ne, ne_eq, List.contains_eq_mem,
    decide_eq_true_eq] at member
  obtain ⟨⟨⟨value, -, rfl⟩, some_text⟩, known⟩ := member
  exact ⟨strip_strip _, some_text, known⟩

/-- The step of a usable entry is sound when its id is new. -/
theorem planStep_sound {seen deps : List String} (named : entryId entry ≠ "")
    (tasked : entryTask entry ≠ "") (fresh : entryId entry ∉ seen)
    (parsed : planDeps seen entry = some deps) : SoundStep (planStep (entryId entry) deps entry) := by
  constructor
  · change PyText.strip (entryId entry) ≠ ""
    rw [strip_entryId]
    exact named
  · change PyText.strip (entryTask entry) ≠ ""
    rw [strip_entryTask]
    exact tasked
  · refine ⟨if deps.isEmpty then .ready else .blocked, rfl, ?_⟩
    split <;> rfl
  · intro dep member
    obtain ⟨stripped, some_text, known⟩ := mem_planDeps parsed member
    change _ ∧ PyText.strip dep ≠ PyText.strip (entryId entry)
    rw [stripped, strip_entryId]
    constructor
    · exact some_text
    · rintro rfl
      exact fresh known
  · intro files stored file member
    simp only [planStep] at stored
    split at stored
    · split at stored
      · cases stored
      · obtain rfl := Option.some.inj stored
        obtain ⟨value, -, filled⟩ := List.mem_filterMap.mp member
        unfold Json.nonBlank at filled
        split at filled
        · rename_i text
          split at filled
          · cases filled
          · rename_i some_text
            obtain rfl := Option.some.inj filled
            rw [strip_strip]
            simpa using some_text
        · cases filled
    · cases stored

theorem planSteps_order {seen : List String} {entries : List Json}
    (parsed : planSteps seen entries = .ok steps) : PlanOrder seen steps := by
  induction entries generalizing seen steps with
  | nil =>
    cases parsed
    exact .nil
  | cons entry rest ih =>
    rw [planSteps] at parsed
    split at parsed
    · exact ih parsed
    · rename_i usable
      simp only [Bool.or_eq_true, Bool.not_eq_true', beq_iff_eq, not_or, List.contains_eq_mem,
        decide_eq_true_eq] at usable
      obtain ⟨⟨⟨-, named⟩, tasked⟩, fresh⟩ := usable
      split at parsed
      · cases parsed
      · rename_i deps needs
        split at parsed
        · cases parsed
        · rename_i later following
          cases parsed
          apply PlanOrder.cons (planStep_sound named tasked fresh needs)
          · exact strip_entryId
          · exact fresh
          · intro dep member
            obtain ⟨raw, inside, rfl, -⟩ := mem_strippedIds.mp member
            obtain ⟨stripped, -, known⟩ := mem_planDeps needs inside
            rw [stripped]
            exact known
          · exact ih following

theorem parsePlan_order {env : Env} {raw : String} (parsed : parsePlan env raw = .ok steps) :
    PlanOrder [] steps := by
  unfold parsePlan at parsed
  split at parsed
  · cases parsed
  · split at parsed
    · cases parsed
    · cases parsed
    · rename_i listed
      cases parsed
      exact planSteps_order listed

/-! ## A replan -/

/-- What a replan makes of a planned entry that it does not keep. -/
structure Replanned (keptIds plannedIds : List String) (entry : Json) (step : Step) : Prop where
  stepId : step.stepId = entryId entry
  task : step.task = entryTask entry
  status : ∃ status, step.status = some status ∧ status.isMember = true
  dependsOn : replanDeps entry = some step.dependsOn
  known : ∀ dep ∈ step.dependsOn, dep ∈ keptIds ∨ dep ∈ plannedIds
  fileDeps : step.fileDeps = none

theorem replanStep_replanned {keptIds plannedIds : List String} {result : Option Step}
    (planned : replanStep keptIds plannedIds entry = .ok result) :
    (entryId entry ∈ keptIds ∧ result = none) ∨
      (entryId entry ∉ keptIds ∧ ∃ step, result = some step ∧
        Replanned keptIds plannedIds entry step) := by
  simp only [replanStep] at planned
  split at planned
  · rename_i kept
    cases planned
    exact .inl ⟨by simpa using kept, rfl⟩
  · rename_i fresh
    refine .inr ⟨by simpa using fresh, ?_⟩
    split at planned
    · cases planned
    · rename_i deps needs
      split at planned
      · cases planned
      · rename_i all_known
        cases planned
        refine ⟨_, rfl, rfl, rfl, ⟨if deps.isEmpty then .ready else .blocked, rfl, ?_⟩, needs, ?_, rfl⟩
        · split <;> rfl
        · intro dep member
          simp only [Bool.not_eq_false, List.isEmpty_iff,
            List.filter_eq_nil_iff, Bool.and_eq_true, Bool.not_eq_true', List.contains_eq_mem,
            decide_eq_false_iff_not, not_and, Classical.not_not] at all_known
          by_cases kept : dep ∈ keptIds
          · exact .inl kept
          · exact .inr (all_known dep member kept)

theorem Replanned.invalidate {keptIds plannedIds : List String}
    (replanned : Replanned keptIds plannedIds entry step) (invalidated : List String) :
    Replanned keptIds plannedIds entry (invalidateStep invalidated step) := by
  unfold invalidateStep
  split
  · exact { replanned with status := ⟨.blocked, rfl, rfl⟩ }
  · exact replanned

/-- The planned entries that a replan adds. -/
def addedEntries (keepDone : Bool) (steps : List Step) (planned : List Json) : List Json :=
  planned.filter fun entry => !(stepIds (replanKept keepDone steps)).contains (entryId entry)

theorem replanMerged_replanned {keepDone : Bool} {planned : List Json} {merged : List Step}
    (merges : replanMerged keepDone steps planned = .ok merged) :
    ∃ newSteps, merged = replanKept keepDone steps ++ newSteps ∧
      List.Forall₂ (Replanned (stepIds (replanKept keepDone steps)) (planned.map entryId))
        (addedEntries keepDone steps planned) newSteps := by
  have collected : ∀ (entries : List Json) (results : List (Option Step)),
      List.Forall₂ (fun entry result => replanStep (stepIds (replanKept keepDone steps))
        (planned.map entryId) entry = .ok result) entries results →
      List.Forall₂ (Replanned (stepIds (replanKept keepDone steps)) (planned.map entryId))
        (addedEntries keepDone steps entries) (results.filterMap id) := by
    intro entries results related
    induction related with
    | nil => exact .nil
    | cons here _ ih =>
      unfold addedEntries
      rw [List.filter_cons, List.contains_eq_mem]
      rcases replanStep_replanned here with ⟨kept, rfl⟩ | ⟨fresh, step, rfl, replanned⟩
      · rw [decide_eq_true kept]
        exact ih
      · rw [decide_eq_false fresh]
        exact .cons replanned ih
  simp only [replanMerged] at merges
  split at merges
  · cases merges
  · rename_i results mapped
    have related := collected planned results (forall₂_of_mapM mapped)
    split at merges
    · cases merges
    · cases merges
      refine ⟨_, rfl, ?_⟩
      rw [List.forall₂_map_right_iff]
      exact related.imp fun entry step replanned => replanned.invalidate _

end SherryAgent.Contracts.Taskflow
