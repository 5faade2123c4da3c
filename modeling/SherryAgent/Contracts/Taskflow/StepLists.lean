import Mathlib.Data.List.Induction
import Mathlib.Data.List.Nodup
import SherryAgent.Contracts.Taskflow.Discipline

/-!
# The step lists the tools produce

What a replan, a full step list of a caller and a parsed plan hand to the row.
-/

namespace SherryAgent.Contracts.Taskflow

open SherryAgent.Source SherryAgent.Source.Taskflow SherryAgent.Library.KeyedList

/-- A successful loop over a list, element by element. -/
theorem forall₂_of_mapM {α β ε : Type} {f : α → Except ε β} {items : List α} {results : List β}
    (mapped : items.mapM f = .ok results) :
    List.Forall₂ (fun item result => f item = .ok result) items results := by
  induction items generalizing results with
  | nil =>
    cases mapped
    exact .nil
  | cons item rest ih =>
    rw [List.mapM_cons] at mapped
    cases here : f item with
    | error text =>
      rw [here] at mapped
      cases mapped
    | ok value =>
      cases later : rest.mapM f with
      | error text =>
        rw [here] at mapped
        simp only [bind, Except.bind, later] at mapped
        cases mapped
      | ok values =>
        rw [here] at mapped
        simp only [bind, Except.bind, later] at mapped
        cases mapped
        exact .cons here (ih later)

/-! ## `taskflow_replan` -/

theorem replanStep_cases {keptIds plannedIds : List String} {entry : Json} {result : Option Step}
    (planned : replanStep keptIds plannedIds entry = .ok result) :
    (entryId entry ∈ keptIds ∧ result = none) ∨
      (entryId entry ∉ keptIds ∧ ∃ step, result = some step ∧ step.stepId = entryId entry ∧
        (stepStatus step = .ready ∨ stepStatus step = .blocked)) := by
  simp only [replanStep] at planned
  split at planned
  · rename_i kept
    cases planned
    exact .inl ⟨by simpa using kept, rfl⟩
  · rename_i fresh
    refine .inr ⟨by simpa using fresh, ?_⟩
    split at planned
    · cases planned
    · split at planned
      · cases planned
      · cases planned
        refine ⟨_, rfl, rfl, ?_⟩
        simp only [newStep, stepStatus]
        split <;> simp

theorem replanSteps_spec {keptIds plannedIds : List String} {entries : List Json}
    {results : List (Option Step)} (related : List.Forall₂
      (fun entry result => replanStep keptIds plannedIds entry = .ok result) entries results) :
    (results.filterMap id).map (·.stepId) =
        (entries.map entryId).filter (!keptIds.contains ·) ∧
      ∀ step ∈ results.filterMap id, stepStatus step = .ready ∨ stepStatus step = .blocked := by
  induction related with
  | nil => simp
  | cons planned _ ih =>
    rcases replanStep_cases planned with ⟨kept, rfl⟩ | ⟨fresh, step, rfl, named, status⟩
    · simpa [kept] using ih
    · refine ⟨by simpa [fresh, named] using ih.1, ?_⟩
      intro other member
      rcases List.mem_cons.mp (show other ∈ step :: List.filterMap id _ from member) with
        rfl | later
      · exact status
      · exact ih.2 other later

theorem invalidateStep_stepId (invalidated : List String) (step : Step) :
    (invalidateStep invalidated step).stepId = step.stepId := by
  unfold invalidateStep
  split <;> rfl

theorem invalidateStep_status {invalidated : List String} {step : Step}
    (status : stepStatus step = .ready ∨ stepStatus step = .blocked) :
    stepStatus (invalidateStep invalidated step) = .ready ∨
      stepStatus (invalidateStep invalidated step) = .blocked := by
  unfold invalidateStep
  split
  · exact .inr rfl
  · exact status

/-- The list a replan computes: what it keeps, then the planned steps that are not
kept, in the planner's order. -/
theorem replanMerged_spec {keepDone : Bool} {steps : List Step} {entries : List Json}
    {merged : List Step} (merges : replanMerged keepDone steps entries = .ok merged) :
    ∃ newSteps, merged = replanKept keepDone steps ++ newSteps ∧
      newSteps.map (·.stepId) = (entries.map entryId).filter
        (!((replanKept keepDone steps).map (·.stepId)).contains ·) ∧
      ∀ step ∈ newSteps, stepStatus step = .ready ∨ stepStatus step = .blocked := by
  simp only [replanMerged] at merges
  split at merges
  · cases merges
  · rename_i results mapped
    obtain ⟨ids, statuses⟩ := replanSteps_spec (forall₂_of_mapM mapped)
    split at merges
    · cases merges
    · cases merges
      refine ⟨_, rfl, ?_, ?_⟩
      · rw [List.map_map, ← ids]
        exact List.map_congr_left fun step _ => invalidateStep_stepId _ step
      · intro step member
        obtain ⟨old, inside, rfl⟩ := List.mem_map.mp member
        exact invalidateStep_status (statuses old inside)

theorem mem_replanKept {keepDone : Bool} {steps : List Step} {step : Step} :
    step ∈ replanKept keepDone steps ↔ step ∈ steps ∧
      ((keepDone = true ∧ stepStatus step = .done) ∨ stepStatus step = .dispatched) := by
  simp only [replanKept, List.mem_append, List.mem_filter, Bool.and_eq_true, beq_iff_eq]
  constructor
  · rintro (⟨member, kept⟩ | ⟨member, running⟩)
    · exact ⟨member, .inl kept⟩
    · exact ⟨member, .inr running⟩
  · rintro ⟨member, kept | running⟩
    · exact .inl ⟨member, kept⟩
    · exact .inr ⟨member, running⟩

/-! ## The ids of a list -/

abbrev stepIds (steps : List Step) : List String := steps.map (·.stepId)

theorem stepIds_append (steps more : List Step) :
    stepIds (steps ++ more) = stepIds steps ++ stepIds more :=
  List.map_append

theorem stepIds_modifyFirst {p : Step → Bool} {f : Step → Step} {steps : List Step}
    (same : ∀ step, steps.find? p = some step → (f step).stepId = step.stepId) :
    stepIds (modifyFirst p f steps) = stepIds steps :=
  map_modifyFirst same

theorem stepIds_modifyLast {p : Step → Bool} {f : Step → Step} {steps : List Step}
    (same : ∀ step, (f step).stepId = step.stepId) :
    stepIds (modifyLast p f steps) = stepIds steps :=
  map_modifyLast same steps

theorem stepIds_map {f : Step → Step} {steps : List Step}
    (same : ∀ step, (f step).stepId = step.stepId) : stepIds (steps.map f) = stepIds steps := by
  rw [stepIds, List.map_map]
  exact List.map_congr_left fun step _ => same step

/-- A loop whose rounds keep the ids keeps them. -/
theorem stepIds_foldl {ι : Type} {update : List Step → ι → List Step} (items : List ι)
    (steps : List Step) (round : ∀ current item, stepIds (update current item) = stepIds current) :
    stepIds (items.foldl update steps) = stepIds steps := by
  induction items generalizing steps with
  | nil => rfl
  | cons item rest ih => rw [List.foldl_cons, ih, round]

theorem stepIds_waveSteps (steps : List Step) (batch : List BatchSpawn) :
    stepIds (waveSteps steps batch) = stepIds steps := by
  refine stepIds_foldl batch steps fun current spawned => ?_
  split
  · exact stepIds_modifyLast fun _ => rfl
  · rfl

theorem stepIds_dispatchedSteps (steps : List Step) (batch : List BatchSpawn) :
    stepIds (dispatchedSteps steps batch) = stepIds steps := by
  refine stepIds_foldl batch steps fun current spawned => ?_
  split
  · rfl
  · exact stepIds_modifyLast fun _ => rfl

theorem stepIds_unlockDependents (steps : List Step) :
    stepIds (unlockDependents steps) = stepIds steps := by
  have related := unlockDependents_forall₂ steps
  generalize unlockDependents steps = after at related ⊢
  induction related with
  | nil => rfl
  | cons head _ ih =>
    obtain ⟨current, rfl⟩ := head
    simp only [List.map_cons, unlockStep_stepId, ih]

theorem stepIds_decidedSteps {env : Env} {args : ResumeArgs} {h : History} {flow : Flow}
    {step : Step} {decision : Decision} (found : matched args flow = some step)
    (decides : Decides env h flow step decision) :
    stepIds (decidedSteps args flow decision) = stepIds flow.state.steps := by
  refine stepIds_modifyFirst fun first here => ?_
  have same : some step = some first := found.symm.trans here
  cases same
  exact decides.stepId

/-- The records of absent steps are appended, in order. -/
theorem stepIds_applyDispatchedSteps (fresh records : List Step) :
    stepIds (applyDispatchedSteps fresh records) =
      stepIds fresh ++ (stepIds records).filter (· ∉ stepIds fresh) := by
  induction records using List.reverseRecOn with
  | nil => simp [applyDispatchedSteps]
  | append_singleton records record ih =>
    have present : (fresh.any (·.stepId == record.stepId)) = true ↔
        record.stepId ∈ stepIds fresh := by simp
    rw [applyDispatchedSteps] at ih ⊢
    rw [List.foldl_append, List.foldl_cons, List.foldl_nil]
    split
    · rename_i listed
      have member := present.mp listed
      rw [stepIds_append, List.filter_append, ← List.append_assoc, ← ih]
      refine (stepIds_modifyLast ?_).trans ?_
      · exact fun _ => rfl
      · simpa using member
    · rename_i absent
      have fresh_id := mt present.mpr absent
      rw [stepIds_append, stepIds_append, List.filter_append, ← List.append_assoc, ← ih]
      simpa [List.filter_cons] using fresh_id

theorem nodup_applyDispatchedSteps {fresh records : List Step} (distinct : (stepIds fresh).Nodup)
    (distinct_records : (stepIds records).Nodup) :
    (stepIds (applyDispatchedSteps fresh records)).Nodup := by
  rw [stepIds_applyDispatchedSteps]
  refine List.nodup_append.mpr ⟨distinct, distinct_records.filter _, ?_⟩
  rintro id listed other added rfl
  exact (of_decide_eq_true (List.mem_filter.mp added).2) listed

/-! ## Full lists of a caller -/

theorem stepError_id {index : Nat} {seen : List String} {step : Json}
    (valid : stepError index seen step = none) :
    Json.nonBlank (step.get "step_id") = some (Json.stepId step) ∧ Json.stepId step ∉ seen := by
  unfold stepError at valid
  split at valid
  · cases valid
  · split at valid
    · cases valid
    · rename_i id named
      have stepId : Json.stepId step = id := by simp [Json.stepId, named]
      rw [stepId]
      split at valid
      · cases valid
      · rename_i fresh
        exact ⟨named, by simpa using fresh⟩

theorem validateEach_ids {index : Nat} {seen final : List String} {steps : List Json}
    (valid : validateEach index seen steps = .inr final) (distinct : seen.Nodup) :
    final = seen ++ steps.map Json.stepId ∧ final.Nodup ∧
      ∀ step ∈ steps, (Json.nonBlank (step.get "step_id")).isSome = true := by
  induction steps generalizing index seen with
  | nil =>
    cases valid
    exact ⟨by simp, distinct, nofun⟩
  | cons step rest ih =>
    rw [validateEach] at valid
    split at valid
    · cases valid
    · rename_i checked
      obtain ⟨named, fresh⟩ := stepError_id checked
      rw [named] at valid
      have longer : (seen ++ [Json.stepId step]).Nodup := by
        refine List.nodup_append.mpr ⟨distinct, by simp, ?_⟩
        rintro id earlier other here rfl
        rw [List.mem_singleton.mp here] at earlier
        exact fresh earlier
      obtain ⟨ids, unique, others⟩ := ih valid longer
      refine ⟨by simp [ids], unique, ?_⟩
      intro other member
      rcases List.mem_cons.mp member with rfl | later
      · simp [named]
      · exact others other later

/-- A validated step list has pairwise distinct ids, which normalisation keeps. -/
theorem nodup_normalized {steps : List Json} (valid : validateStepsList steps = none) :
    (stepIds (steps.map normalizeStep)).Nodup := by
  unfold validateStepsList at valid
  split at valid
  · cases valid
  · rename_i seen each
    obtain ⟨ids, unique, named⟩ := validateEach_ids each List.nodup_nil
    have same : stepIds (steps.map normalizeStep) = seen := by
      rw [ids, List.nil_append, stepIds, List.map_map]
      refine List.map_congr_left fun step member => ?_
      have nonBlank := named step member
      simp only [Function.comp_apply, normalizeStep, Json.stepId]
      cases value : step.get "step_id" with
      | str text =>
        rw [value] at nonBlank
        simp only [Json.nonBlank] at nonBlank ⊢
        split at nonBlank
        · cases nonBlank
        · rename_i filled
          simp [filled, Json.pyStr]
      | _ =>
        rw [value] at nonBlank
        cases nonBlank
    rw [same]
    exact unique

theorem retainChildKey_stepId {old new merged : Step}
    (retained : retainChildKey old new = .ok merged) : merged.stepId = new.stepId := by
  simp only [retainChildKey] at retained
  repeat' split at retained
  all_goals cases retained
  all_goals rfl

theorem mergeStep_stepId {existing : List Step} {new merged : Step}
    (merges : mergeStep existing new = .ok merged) : merged.stepId = new.stepId := by
  unfold mergeStep at merges
  split at merges
  · split at merges
    · cases merges
      rfl
    · cases merges
  · split at merges
    · cases merges
    · exact retainChildKey_stepId merges

theorem stepIds_mergeSteps {existing incoming merged : List Step}
    (merges : mergeSteps existing incoming = .ok merged) : stepIds merged = stepIds incoming := by
  have related := forall₂_of_mapM merges
  clear merges
  induction related with
  | nil => rfl
  | cons head _ ih => simp only [List.map_cons, mergeStep_stepId head, ih]

/-! ## Planner output -/

theorem planSteps_ids {seen : List String} {entries : List Json} {steps : List Step}
    (parsed : planSteps seen entries = .ok steps) :
    (stepIds steps).Nodup ∧ ∀ id ∈ seen, id ∉ stepIds steps := by
  induction entries generalizing seen steps with
  | nil =>
    cases parsed
    exact ⟨List.nodup_nil, nofun⟩
  | cons entry rest ih =>
    rw [planSteps] at parsed
    split at parsed
    · exact ih parsed
    · rename_i usable
      split at parsed
      · cases parsed
      · split at parsed
        · cases parsed
        · rename_i later
          cases parsed
          obtain ⟨distinct, unseen⟩ := ih later
          have fresh : entryId entry ∉ seen := by
            intro earlier
            simp [earlier] at usable
          refine ⟨List.nodup_cons.mpr ⟨unseen _ (by simp [planStep, newStep]), distinct⟩, ?_⟩
          intro id earlier member
          rcases List.mem_cons.mp member with here | there
          · rw [here] at earlier
            exact fresh earlier
          · exact unseen id (by simp [earlier]) there

theorem nodup_parsePlan {env : Env} {raw : String} {steps : List Step}
    (parsed : parsePlan env raw = .ok steps) : (stepIds steps).Nodup := by
  unfold parsePlan at parsed
  split at parsed
  · cases parsed
  · split at parsed
    · cases parsed
    · cases parsed
    · rename_i listed
      cases parsed
      exact (planSteps_ids listed).1

/-- A replan keeps the ids distinct when the entries it adds have distinct ids. -/
theorem nodup_replanMerged {keepDone : Bool} {steps merged : List Step} {entries : List Json}
    (merges : replanMerged keepDone steps entries = .ok merged) (distinct : (stepIds steps).Nodup)
    (added : ((entries.map entryId).filter
      (!(stepIds (replanKept keepDone steps)).contains ·)).Nodup) :
    (stepIds merged).Nodup := by
  obtain ⟨newSteps, rfl, ids, -⟩ := replanMerged_spec merges
  have kept : (stepIds (replanKept keepDone steps)).Nodup := by
    have sub : ∀ p : Step → Bool, (stepIds (steps.filter p)).Nodup := fun p =>
      distinct.sublist (List.filter_sublist.map _)
    rw [replanKept, stepIds, List.map_append]
    refine List.nodup_append.mpr ⟨sub _, sub _, ?_⟩
    rintro id done other running rfl
    obtain ⟨a, in_a, rfl⟩ := List.mem_map.mp done
    obtain ⟨b, in_b, same⟩ := List.mem_map.mp running
    rw [List.mem_filter] at in_a in_b
    obtain rfl := List.inj_on_of_nodup_map distinct in_b.1 in_a.1 same
    simp only [Bool.and_eq_true, beq_iff_eq] at in_a in_b
    rw [in_a.2.2] at in_b
    cases in_b.2
  rw [stepIds, List.map_append]
  refine List.nodup_append.mpr ⟨kept, ids ▸ added, ?_⟩
  rintro id old other new rfl
  rw [ids, List.mem_filter] at new
  simpa [old] using new.2

end SherryAgent.Contracts.Taskflow
