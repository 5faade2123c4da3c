import Mathlib.Data.List.Forall2
import SherryAgent.Contracts.Taskflow.Discipline

/-!
# The unlock pass

What `unlock_dependents` makes of a blocked step, in terms of the list it starts from:
each iteration sees the changes of the earlier ones.
-/

namespace SherryAgent.Contracts.Taskflow

open SherryAgent.Source SherryAgent.Source.Taskflow SherryAgent.Library.KeyedList

/-- What the pass over `steps` can make of a step: a blocked one becomes ready, or
skipped when some step of the list was skipped or cancelled. -/
inductive Moves (steps : List Step) (old : Step) : Step → Prop
  | kept : Moves steps old old
  | readied (blocked : stepStatus old = .blocked) :
    Moves steps old { old with status := some .ready }
  | skipped (blocked : stepStatus old = .blocked)
      (source : ∃ step ∈ steps, (stepStatus step).cascades = true) :
    Moves steps old { old with
      status := some .skipped, skipReason := some "dependency skipped or cancelled" }

theorem Moves.stepId {steps : List Step} {old new : Step} (moves : Moves steps old new) :
    new.stepId = old.stepId := by
  cases moves <;> rfl

/-- The statuses the pass can show for a dependency. -/
theorem Moves.status {steps : List Step} {old new : Step} (moves : Moves steps old new) :
    stepStatus new = stepStatus old ∨ (stepStatus old = .blocked ∧
      (stepStatus new = .ready ∨ (stepStatus new = .skipped ∧
        ∃ step ∈ steps, (stepStatus step).cascades = true))) := by
  cases moves with
  | kept => exact .inl rfl
  | readied blocked => exact .inr ⟨blocked, .inl rfl⟩
  | skipped blocked source => exact .inr ⟨blocked, .inr ⟨rfl, source⟩⟩

/-- Every result of a successful loop comes from an item. -/
theorem mem_of_mapM {α β : Type} {f : α → Option β} {items : List α} {results : List β}
    (mapped : items.mapM f = some results) {result : β} (member : result ∈ results) :
    ∃ item ∈ items, f item = some result := by
  induction items generalizing results with
  | nil =>
    cases mapped
    cases member
  | cons item rest ih =>
    rw [List.mapM_cons] at mapped
    obtain ⟨value, here, mapped⟩ := Option.bind_eq_some_iff.mp mapped
    obtain ⟨values, later, mapped⟩ := Option.bind_eq_some_iff.mp mapped
    cases mapped
    rcases List.mem_cons.mp member with rfl | tail
    · exact ⟨item, by simp, here⟩
    · obtain ⟨other, inside, found⟩ := ih later tail
      exact ⟨other, by simp [inside], found⟩

theorem mapM_rel {α β : Type} {f g : α → Option β} {R : β → β → Prop} {items : List α}
    (each : ∀ item ∈ items, Option.Rel R (f item) (g item)) :
    Option.Rel (List.Forall₂ R) (items.mapM f) (items.mapM g) := by
  induction items with
  | nil => exact .some .nil
  | cons item rest ih =>
    rw [List.mapM_cons, List.mapM_cons]
    have later := ih fun other member => each other (by simp [member])
    have here := each item (by simp)
    revert here later
    generalize f item = a, g item = b, rest.mapM f = as, rest.mapM g = bs
    intro later here
    cases here with
    | none => exact .none
    | some head =>
      cases later with
      | none => exact .none
      | some tail => exact .some (.cons head tail)

/-- A status a step sees is that of a listed dependency. -/
theorem mem_depStatuses {step : Step} {steps : List Step} {statuses : List StepStatus}
    (seen : depStatuses step steps = some statuses) {status : StepStatus}
    (member : status ∈ statuses) : ∃ found ∈ steps, stepStatus found = status := by
  obtain ⟨dep, -, here⟩ := mem_of_mapM seen member
  split at here
  · cases here
  · obtain ⟨found, listed, same⟩ := Option.map_eq_some_iff.mp here
    exact ⟨found, (byId_mem listed).1, same⟩

/-- One iteration, on the list as the pass has changed it so far. -/
theorem unlockStep_moves {steps current : List Step}
    (related : List.Forall₂ (Moves steps) steps current) (step : Step) :
    Moves steps step (unlockStep step current) := by
  unfold unlockStep
  split
  · exact .kept
  · rename_i guard
    rw [Bool.not_eq_true, Bool.or_eq_false_iff] at guard
    have blocked : stepStatus step = .blocked := by simpa using guard.1
    split
    · exact .kept
    · rename_i statuses seen
      split
      · rename_i cascading
        obtain ⟨status, member, cascades⟩ := List.any_eq_true.mp cascading
        obtain ⟨found, listed, rfl⟩ := mem_depStatuses seen member
        obtain ⟨old, inside, moved⟩ := exists_of_forall₂ related listed
        refine .skipped blocked ?_
        rcases moved.status with same | ⟨-, ready | ⟨-, source⟩⟩
        · exact ⟨old, inside, same ▸ cascades⟩
        · rw [ready] at cascades
          cases cascades
        · exact source
      · split
        · exact .readied blocked
        · exact .kept

/-- The pass visits each step once, on a list that moved from the one it started with. -/
theorem unlockPass_moves {steps rest : List Step} (visited settled : List Step)
    (split : steps = visited ++ rest)
    (related : List.Forall₂ (Moves steps) visited settled) :
    ∃ after, unlockPass settled rest = settled ++ after ∧
      List.Forall₂ (fun old new => ∃ current, List.Forall₂ (Moves steps) steps current ∧
        new = unlockStep old current) rest after := by
  induction rest generalizing visited settled with
  | nil => exact ⟨[], by simp [unlockPass], .nil⟩
  | cons step rest ih =>
    have untouched : ∀ l : List Step, List.Forall₂ (Moves steps) l l := fun l =>
      List.forall₂_same.mpr fun _ _ => .kept
    have current : List.Forall₂ (Moves steps) steps (settled ++ step :: rest) := by
      conv => enter [2]; rw [split]
      exact List.rel_append related (untouched (step :: rest))
    have moved := unlockStep_moves current step
    obtain ⟨after, pass, later⟩ := ih (visited ++ [step])
      (settled ++ [unlockStep step (settled ++ step :: rest)]) (by simp [split])
      (List.rel_append related (.cons moved .nil))
    refine ⟨unlockStep step (settled ++ step :: rest) :: after, ?_, .cons ⟨_, current, rfl⟩ later⟩
    rw [unlockPass, pass, List.append_assoc, List.singleton_append]

theorem unlockDependents_moves (steps : List Step) :
    List.Forall₂ (fun old new => ∃ current, List.Forall₂ (Moves steps) steps current ∧
      new = unlockStep old current) steps (unlockDependents steps) := by
  obtain ⟨after, pass, related⟩ := unlockPass_moves [] [] rfl .nil
  rw [unlockDependents, pass]
  exact related

/-! ## Steps the pass leaves alone -/

/-- The step waits for nothing the pass could use: it has no dependencies, or one that is
unknown or itself, or one that is not done while none is skipped, cancelled or about to be
skipped. -/
def pinned (steps : List Step) (step : Step) : Bool :=
  step.dependsOn.isEmpty ||
    match depStatuses step steps with
    | none => true
    | some statuses =>
      statuses.any (· != .done) && !statuses.any (·.cascades) &&
        (!statuses.contains .blocked || !steps.any fun other => (stepStatus other).cascades)

/-- The statuses a step sees in the middle of the pass. -/
theorem depStatuses_moves {steps current : List Step} (step : Step)
    (related : List.Forall₂ (Moves steps) steps current) :
    Option.Rel (List.Forall₂ fun status status' => status' = status ∨ (status = .blocked ∧
      (status' = .ready ∨ (status' = .skipped ∧
        ∃ other ∈ steps, (stepStatus other).cascades = true))))
      (depStatuses step steps) (depStatuses step current) := by
  refine mapM_rel fun dep _ => ?_
  split
  · exact .none
  · have found := findLast?_forall₂ (p := fun other => other.stepId == dep)
      (fun a b moves => by rw [moves.stepId]) related
    rw [byId, byId]
    revert found
    generalize findLast? _ steps = old, findLast? _ current = new
    intro found
    cases found with
    | none => exact .none
    | some moves => exact .some moves.status

/-- A pinned step stays as it is. -/
theorem unlockStep_pinned {steps current : List Step} {step : Step}
    (related : List.Forall₂ (Moves steps) steps current) (held : pinned steps step = true) :
    unlockStep step current = step := by
  unfold unlockStep
  split
  · rfl
  · rename_i guard
    rw [Bool.not_eq_true, Bool.or_eq_false_iff] at guard
    rw [pinned, guard.2, Bool.false_or] at held
    have seen := depStatuses_moves step related
    revert held seen
    generalize depStatuses step steps = old, depStatuses step current = new
    intro held seen
    cases seen with
    | none => rfl
    | @some statuses statuses' moved =>
      simp only [Bool.and_eq_true, Bool.not_eq_true', Bool.or_eq_true, List.any_eq_true] at held
      obtain ⟨⟨⟨waits, member, not_done⟩, settled⟩, quiet⟩ := held
      have no_cascade : statuses'.any (·.cascades) = false := by
        rw [List.any_eq_false]
        intro status' member' cascades
        obtain ⟨status, inside, same | ⟨rfl, rfl | ⟨rfl, other, listed, source⟩⟩⟩ :=
          exists_of_forall₂ moved member'
        · exact List.any_eq_false.mp settled status inside (same ▸ cascades)
        · cases cascades
        · rcases quiet with unblocked | none_cascades
          · simp [inside] at unblocked
          · exact List.any_eq_false.mp none_cascades other listed source
      have still_waits : statuses'.all (· == .done) = false := by
        obtain ⟨status', inside, same | ⟨-, rfl | ⟨rfl, -⟩⟩⟩ :=
          exists_of_forall₂ moved.flip member
        · refine List.all_eq_false.mpr ⟨status', inside, ?_⟩
          simpa [same] using not_done
        · exact List.all_eq_false.mpr ⟨_, inside, by decide⟩
        · exact List.all_eq_false.mpr ⟨_, inside, by decide⟩
      simp [no_cascade, still_waits]

/-- The first step with the id is listed and blocked. -/
def BlockedAt (id : String) (steps : List Step) : Prop :=
  ∃ step, firstById steps id = some step ∧ stepStatus step = .blocked

/-- A blocked step that is pinned stays blocked through the pass. -/
theorem blockedAt_unlockDependents {id : String} {steps : List Step} (blocked : BlockedAt id steps)
    (held : ∀ step, firstById steps id = some step → pinned steps step = true) :
    BlockedAt id (unlockDependents steps) := by
  obtain ⟨step, found, status⟩ := blocked
  have first := find?_forall₂ (p := fun other => other.stepId == id)
    (fun a b moved => by obtain ⟨current, -, rfl⟩ := moved; rw [unlockStep_stepId])
    (unlockDependents_moves steps)
  have kept := held step found
  rw [firstById] at found
  rw [found] at first
  generalize after : (unlockDependents steps).find? _ = new at first
  cases first with
  | some moved =>
    obtain ⟨current, related, rfl⟩ := moved
    rw [unlockStep_pinned related kept] at after
    exact ⟨step, after, status⟩

end SherryAgent.Contracts.Taskflow
