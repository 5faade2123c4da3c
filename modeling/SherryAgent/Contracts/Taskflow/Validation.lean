import SherryAgent.Contracts.Taskflow.Cycles
import SherryAgent.Contracts.Taskflow.StepLists

/-!
# What a valid step list is

`WellFormed` restates the contract of `validate_steps_list` on the raw step objects; the
checks accept exactly the well-formed lists without a dependency cycle.
-/

namespace SherryAgent.Contracts.Taskflow

open SherryAgent.Source SherryAgent.Source.Taskflow SherryAgent.Library.Walks

/-- A text with something else than white space. -/
def Filled (value : Json) : Prop := (Json.nonBlank value).isSome

/-- What one step object must look like by itself. -/
structure WellFormedStep (step : Json) : Prop where
  object : step.isObject
  stepId : Filled (step.get "step_id")
  task : Filled (step.get "task")
  status : ∃ text, step.get "status" = .str text ∧ (StepStatus.ofValue text).isSome
  dependsOn : ∃ items, step.get "depends_on" = .arr items ∧
    ∀ item ∈ items, ∃ dep, Json.nonBlank item = some dep ∧ dep ≠ Json.stepId step
  fileDeps : hasKey step "file_deps" = true → ∃ items, step.get "file_deps" = .arr items ∧
    ∀ item ∈ items, Filled item

/-- A step of the list and one of its dependencies. -/
def DependsOn (steps : List Json) (node dep : String) : Prop :=
  ∃ step ∈ steps, Json.stepId step = node ∧ dep ∈ Json.dependencyIds step

/-- The contract of a full step list, cycles apart. -/
structure WellFormed (steps : List Json) : Prop where
  each : ∀ step ∈ steps, WellFormedStep step
  unique : (steps.map Json.stepId).Nodup
  known : ∀ node dep, DependsOn steps node dep → dep ∈ steps.map Json.stepId

variable {index : Nat} {seen : List String} {step : Json} {steps : List Json}

theorem dependencyError_none_iff {id : String} {item : Json} :
    dependencyError id item = none ↔ ∃ dep, Json.nonBlank item = some dep ∧ dep ≠ id := by
  unfold dependencyError
  cases Json.nonBlank item with
  | none => simp
  | some dep => simp

theorem findSome?_dependencyError_none_iff {id : String} {items : List Json} :
    items.findSome? (dependencyError id) = none ↔
      ∀ item ∈ items, ∃ dep, Json.nonBlank item = some dep ∧ dep ≠ id := by
  rw [List.findSome?_eq_none_iff]
  simp only [dependencyError_none_iff]

theorem WellFormedStep.of_stepError (valid : stepError index seen step = none) :
    WellFormedStep step := by
  obtain ⟨named, -⟩ := stepError_id valid
  unfold stepError at valid
  split at valid
  · cases valid
  · rename_i object
    rw [named] at valid
    dsimp only at valid
    split at valid
    · cases valid
    · split at valid
      · cases valid
      · rename_i task
        split at valid
        · cases valid
        · rename_i member parsed
          split at valid
          · rename_i deps listed
            split at valid
            · cases valid
            · rename_i accepted
              refine ⟨by simpa using object, ?_, ?_, ?_, ?_, ?_⟩
              · unfold Filled
                rw [named]
                rfl
              · unfold Filled
                cases filled : Json.nonBlank (step.get "task") with
                | none => simp [filled] at task
                | some text => rfl
              · cases status : step.get "status" with
                | str text =>
                  rw [status] at parsed
                  exact ⟨text, rfl, by simp [parsed]⟩
                | _ =>
                  rw [status] at parsed
                  cases parsed
              · exact ⟨deps, listed, findSome?_dependencyError_none_iff.mp accepted⟩
              · intro given
                rw [if_pos given] at valid
                split at valid
                · rename_i files filed
                  split at valid
                  · rename_i every
                    exact ⟨files, filed, List.all_eq_true.mp every⟩
                  · cases valid
                · cases valid
          · cases valid

theorem stepError_of_wellFormed (well : WellFormedStep step) (fresh : Json.stepId step ∉ seen) :
    stepError index seen step = none := by
  have named : Json.nonBlank (step.get "step_id") = some (Json.stepId step) := by
    obtain ⟨id, named⟩ := Option.isSome_iff_exists.mp well.stepId
    simp [Json.stepId, named]
  obtain ⟨text, status, parsed⟩ := well.status
  obtain ⟨member, parsed⟩ := Option.isSome_iff_exists.mp parsed
  obtain ⟨deps, listed, accepted⟩ := well.dependsOn
  obtain ⟨task, filled⟩ := Option.isSome_iff_exists.mp well.task
  have noError := findSome?_dependencyError_none_iff.mpr accepted
  unfold stepError
  simp only [well.object, named, filled, status, parsed, listed, noError, Bool.not_true,
    Bool.false_eq_true, if_false, List.contains_eq_mem, decide_eq_true_eq, fresh,
    Option.isNone_some]
  split
  · rename_i given
    obtain ⟨files, filed, every⟩ := well.fileDeps given
    have all : allNonBlank files = true := List.all_eq_true.mpr every
    simp only [filed, all, if_true]
  · rfl

theorem validateEach_iff {final : List String} (distinct : seen.Nodup) :
    validateEach index seen steps = .inr final ↔
      (∀ step ∈ steps, WellFormedStep step) ∧ (seen ++ steps.map Json.stepId).Nodup ∧
        final = seen ++ steps.map Json.stepId := by
  constructor
  · intro valid
    obtain ⟨ids, unique, -⟩ := validateEach_ids valid distinct
    refine ⟨?_, ids ▸ unique, ids⟩
    clear ids unique distinct
    induction steps generalizing index seen with
    | nil => exact nofun
    | cons step rest ih =>
      rw [validateEach] at valid
      split at valid
      · cases valid
      · rename_i checked
        intro other member
        rcases List.mem_cons.mp member with same | later
        · rw [same]
          exact .of_stepError checked
        · exact ih valid other later
  · rintro ⟨every, unique, rfl⟩
    clear distinct
    induction steps generalizing index seen with
    | nil => simp [validateEach]
    | cons step rest ih =>
      have well := every step List.mem_cons_self
      have fresh : Json.stepId step ∉ seen := by
        intro member
        exact (List.nodup_append.mp unique).2.2 _ member _ List.mem_cons_self rfl
      obtain ⟨id, named⟩ := Option.isSome_iff_exists.mp well.stepId
      have stepId : Json.stepId step = id := by simp [Json.stepId, named]
      rw [validateEach, stepError_of_wellFormed well fresh]
      simp only [named, Option.toList_some]
      rw [List.map_cons, stepId] at unique
      have later : validateEach (index + 1) (seen ++ [id]) rest =
          .inr ((seen ++ [id]) ++ rest.map Json.stepId) :=
        ih (fun other member => every other (List.mem_cons_of_mem _ member)) (by simpa using unique)
      rw [later]
      simp [stepId]

/-! ## The dependency graph -/

/-- The graph the search walks. -/
def graphOf (steps : List Json) : DependencyGraph :=
  steps.map fun step => (Json.stepId step, Json.dependencyIds step)

theorem map_graphOf : (graphOf steps).map (·.1) = steps.map Json.stepId := by
  simp [graphOf]

/-- With distinct ids the graph is the dependency relation. -/
theorem needs_iff (unique : (steps.map Json.stepId).Nodup) {node dep : String} :
    Needs (graphOf steps) node dep ↔ DependsOn steps node dep := by
  unfold Needs prerequisites graphOf DependsOn
  rw [List.find?_map]
  induction steps with
  | nil => simp
  | cons step rest ih =>
    rw [List.map_cons, List.nodup_cons] at unique
    by_cases here : Json.stepId step = node
    · have others : ∀ other ∈ rest, Json.stepId other ≠ node := by
        intro other member same
        rw [here, ← same] at unique
        exact unique.1 (List.mem_map_of_mem member)
      simp only [Function.comp_def, List.find?_cons, here, beq_self_eq_true, Option.map_some,
        Option.getD_some, List.mem_cons]
      constructor
      · exact fun member => ⟨step, .inl rfl, here, member⟩
      · rintro ⟨other, listed, named, member⟩
        rcases listed with same | later
        · rw [← same]
          exact member
        · exact absurd named (others other later)
    · have miss : (Json.stepId step == node) = false := beq_false_of_ne here
      simp only [Function.comp_def, List.find?_cons, miss, List.mem_cons]
      have tail := ih unique.2
      simp only [Function.comp_def] at tail
      rw [tail]
      constructor
      · rintro ⟨other, later, named, member⟩
        exact ⟨other, .inr later, named, member⟩
      · rintro ⟨other, listed, named, member⟩
        rcases listed with same | later
        · rw [same] at named
          exact absurd named here
        · exact ⟨other, later, named, member⟩

theorem closed_graphOf (unique : (steps.map Json.stepId).Nodup)
    (known : ∀ node dep, DependsOn steps node dep → dep ∈ steps.map Json.stepId) :
    Closed (graphOf steps) := by
  intro node dep needs
  rw [map_graphOf]
  exact known node dep ((needs_iff unique).mp needs)

/-- The check for unknown dependencies. -/
theorem known_iff {ids : List String} :
    (steps.findSome? fun step =>
      ((Json.dependencyIds step).find? (!ids.contains ·)).map fun dep =>
        (Json.stepId step, dep)) = none ↔
      ∀ node dep, DependsOn steps node dep → dep ∈ ids := by
  simp only [List.findSome?_eq_none_iff, Option.map_eq_none_iff, List.find?_eq_none,
    Bool.not_eq_true', Bool.not_eq_false, List.contains_iff_mem]
  constructor
  · rintro every node dep ⟨step, member, -, listed⟩
    exact every step member dep listed
  · exact fun every step member dep listed => every _ dep ⟨step, member, rfl, listed⟩

theorem validateStepsList_none_iff :
    validateStepsList steps = none ↔ WellFormed steps ∧ Acyclic (DependsOn steps) := by
  unfold validateStepsList
  cases each : validateEach 0 [] steps with
  | inl error =>
    simp only [reduceCtorEq, false_iff]
    rintro ⟨well, -⟩
    have accepted : validateEach 0 [] steps = .inr ([] ++ steps.map Json.stepId) :=
      (validateEach_iff List.nodup_nil).mpr ⟨well.each, by simpa using well.unique, rfl⟩
    rw [accepted] at each
    cases each
  | inr seen =>
    obtain ⟨every, unique, ids⟩ := (validateEach_iff List.nodup_nil).mp each
    rw [List.nil_append] at unique ids
    subst ids
    dsimp only
    cases unknown : steps.findSome? _ with
    | some pair =>
      simp only [reduceCtorEq, false_iff]
      rintro ⟨well, -⟩
      rw [known_iff.mpr well.known] at unknown
      cases unknown
    | none =>
      have known := known_iff.mp unknown
      have same : Acyclic (Needs (graphOf steps)) ↔ Acyclic (DependsOn steps) := by
        have edges : Needs (graphOf steps) = DependsOn steps := by
          funext node dep
          exact propext (needs_iff unique)
        rw [edges]
      have search := findDependencyCycle_none_iff (closed_graphOf unique known)
      rw [same] at search
      constructor
      · intro accepted
        refine ⟨⟨every, unique, known⟩, search.mp ?_⟩
        cases found : findDependencyCycle (graphOf steps) with
        | none => rfl
        | some cycle =>
          unfold graphOf at found
          rw [found] at accepted
          cases accepted
      · rintro ⟨-, acyclic⟩
        have finished := search.mpr acyclic
        unfold graphOf at finished
        rw [finished]

end SherryAgent.Contracts.Taskflow
