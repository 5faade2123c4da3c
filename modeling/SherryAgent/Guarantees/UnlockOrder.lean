import SherryAgent.Contracts.Taskflow.StepLists
import SherryAgent.Contracts.Taskflow.Unlock
import SherryAgent.Library.Passes

/-!
# Repeated unlock passes

* `unlock_settles` — passes reach a fixpoint, no blocked step is left that could be decided,
  and its statuses do not depend on the order of the list.
-/

namespace SherryAgent.Guarantees.UnlockOrder

open SherryAgent.Source SherryAgent.Source.Taskflow SherryAgent.Contracts.Taskflow
open SherryAgent.Library.KeyedList SherryAgent.Library.Passes

variable {steps current other : List Step} {old new step found : Step} {id dep : String}
  {status : StepStatus}

/-- The dependencies can be judged: each is another step of the list. -/
def Judged (steps : List Step) (step : Step) : Prop :=
  ∀ dep ∈ step.dependsOn, dep ≠ step.stepId ∧ (byId steps dep).isSome

/-- The status of a dependency in the list. -/
def StatusAt (steps : List Step) (dep : String) (status : StepStatus) : Prop :=
  (byId steps dep).map stepStatus = some status

/-- A blocked step that waits on dependencies which can be judged. -/
structure Waiting (steps : List Step) (step : Step) : Prop where
  blocked : stepStatus step = .blocked
  some : step.dependsOn ≠ []
  judged : Judged steps step

/-- The fixpoint leaves no waiting step that a further look would decide. -/
structure Decided (steps : List Step) : Prop where
  done : ∀ step ∈ steps, Waiting steps step → ∃ dep ∈ step.dependsOn, ¬StatusAt steps dep .done
  cascades : ∀ step ∈ steps, Waiting steps step → ∀ dep ∈ step.dependsOn,
    ¬StatusAt steps dep .skipped ∧ ¬StatusAt steps dep .cancelled

/-! ## Lookups in a list with distinct ids -/

theorem byId_iff (distinct : (stepIds steps).Nodup) :
    byId steps id = some step ↔ step ∈ steps ∧ step.stepId = id := by
  constructor
  · exact byId_mem
  · rintro ⟨member, named⟩
    have hit : (step.stepId == id) = true := beq_iff_eq.mpr named
    obtain ⟨other, found⟩ : ∃ other, byId steps id = some other := findLast?_isSome member hit
    obtain ⟨inside, same⟩ := byId_mem found
    have equal : other = step :=
      List.inj_on_of_nodup_map distinct inside member (same.trans named.symm)
    rw [found, equal]

theorem byId_perm (distinct : (stepIds steps).Nodup) (perm : other.Perm steps) :
    byId other id = byId steps id := by
  have distinct' : (stepIds other).Nodup := (perm.map Step.stepId).nodup_iff.mpr distinct
  cases found : byId steps id with
  | some step =>
    rw [byId_iff distinct] at found
    rw [byId_iff distinct']
    exact ⟨perm.mem_iff.mpr found.1, found.2⟩
  | none =>
    cases found' : byId other id with
    | none => rfl
    | some step =>
      rw [byId_iff distinct'] at found'
      have here := (byId_iff distinct).mpr ⟨perm.mem_iff.mp found'.1, found'.2⟩
      rw [found] at here
      cases here

/-! ## The statuses a step sees -/

theorem mapM_eq_some_iff {α β : Type} {f : α → Option β} {items : List α} {results : List β} :
    items.mapM f = some results ↔ items.map f = results.map some := by
  induction items generalizing results with
  | nil => cases results <;> simp
  | cons item rest ih =>
    rw [List.mapM_cons, List.map_cons]
    cases here : f item with
    | none => cases results <;> simp
    | some value =>
      cases results with
      | nil => cases rest.mapM f <;> simp
      | cons result results =>
        simp only [List.map_cons, List.cons.injEq, Option.some.injEq, ← ih]
        cases rest.mapM f <;> simp

/-- What a step sees of a dependency. -/
def seen (step : Step) (steps : List Step) (dep : String) : Option StepStatus :=
  if dep == step.stepId then none else (byId steps dep).map stepStatus

theorem judged_iff : Judged steps step ↔ ∀ dep ∈ step.dependsOn, (seen step steps dep).isSome := by
  unfold Judged seen
  apply forall₂_congr
  intro dep _
  by_cases self : dep = step.stepId
  · simp [self]
  · simp [self]

/-- Judged dependencies are seen with their statuses. -/
theorem depStatuses_of_judged (judged : Judged steps step) :
    ∃ statuses, depStatuses step steps = some statuses ∧
      ∀ status, status ∈ statuses ↔ ∃ dep ∈ step.dependsOn, StatusAt steps dep status := by
  have every := judged_iff.mp judged
  have values : step.dependsOn.map (seen step steps) =
      (step.dependsOn.filterMap (seen step steps)).map some := by
    generalize step.dependsOn = deps at every
    induction deps with
    | nil => rfl
    | cons dep rest ih =>
      obtain ⟨status, here⟩ := Option.isSome_iff_exists.mp (every dep List.mem_cons_self)
      rw [List.map_cons, List.filterMap_cons, here]
      simp only [List.map_cons]
      rw [ih fun other member => every other (List.mem_cons_of_mem _ member)]
  refine ⟨step.dependsOn.filterMap (seen step steps), mapM_eq_some_iff.mpr values, ?_⟩
  intro status
  rw [List.mem_filterMap]
  constructor
  · rintro ⟨dep, member, here⟩
    refine ⟨dep, member, ?_⟩
    unfold seen at here
    rw [if_neg (by simpa using (judged dep member).1)] at here
    exact here
  · rintro ⟨dep, member, here⟩
    refine ⟨dep, member, ?_⟩
    unfold seen
    rw [if_neg (by simpa using (judged dep member).1)]
    exact here

theorem judged_of_depStatuses {statuses : List StepStatus}
    (judges : depStatuses step steps = some statuses) : Judged steps step := by
  apply judged_iff.mpr
  have values : step.dependsOn.map (seen step steps) = statuses.map some :=
    mapM_eq_some_iff.mp judges
  intro dep member
  have listed : seen step steps dep ∈ statuses.map some := by
    rw [← values]
    exact List.mem_map_of_mem member
  obtain ⟨status, -, here⟩ := List.mem_map.mp listed
  rw [← here]
  rfl

theorem cascades_iff : status.cascades = true ↔ status = .skipped ∨ status = .cancelled := by
  cases status <;> simp [StepStatus.cascades]

/-- A dependency ended without a result that will ever come. -/
def DeadBranch (steps : List Step) (step : Step) : Prop :=
  ∃ dep ∈ step.dependsOn, StatusAt steps dep .skipped ∨ StatusAt steps dep .cancelled

def AllDone (steps : List Step) (step : Step) : Prop :=
  ∀ dep ∈ step.dependsOn, StatusAt steps dep .done

theorem not_allDone_of_deadBranch (dead : DeadBranch steps step) : ¬AllDone steps step := by
  intro done
  obtain ⟨dep, member, ended⟩ := dead
  have here := done dep member
  unfold StatusAt at here ended
  rw [here] at ended
  rcases ended with skipped | cancelled
  · cases skipped
  · cases cancelled

/-- What one iteration makes of a step, by the dependencies it sees. -/
theorem unlockStep_spec (step : Step) (steps : List Step) :
    (Waiting steps step ∧ DeadBranch steps step ∧
      stepStatus (unlockStep step steps) = .skipped) ∨
    (Waiting steps step ∧ AllDone steps step ∧ stepStatus (unlockStep step steps) = .ready) ∨
    (unlockStep step steps = step ∧
      (Waiting steps step → ¬DeadBranch steps step ∧ ¬AllDone steps step)) := by
  by_cases waiting : Waiting steps step
  · obtain ⟨statuses, seen, spec⟩ := depStatuses_of_judged waiting.judged
    have guard : (stepStatus step != .blocked || step.dependsOn.isEmpty) = false := by
      simp [waiting.blocked, waiting.some]
    have dead : statuses.any (·.cascades) = true ↔ DeadBranch steps step := by
      simp only [List.any_eq_true, spec, cascades_iff, DeadBranch]
      constructor
      · rintro ⟨status, ⟨dep, member, here⟩, rfl | rfl⟩
        · exact ⟨dep, member, .inl here⟩
        · exact ⟨dep, member, .inr here⟩
      · rintro ⟨dep, member, here | here⟩
        · exact ⟨_, ⟨dep, member, here⟩, .inl rfl⟩
        · exact ⟨_, ⟨dep, member, here⟩, .inr rfl⟩
    have done : statuses.all (· == .done) = true ↔ AllDone steps step := by
      simp only [List.all_eq_true, spec, beq_iff_eq, AllDone]
      constructor
      · intro every dep member
        obtain ⟨found, here⟩ := Option.isSome_iff_exists.mp (waiting.judged dep member).2
        have status : StatusAt steps dep (stepStatus found) := by
          unfold StatusAt
          rw [here]
          rfl
        rw [every _ ⟨dep, member, status⟩] at status
        exact status
      · rintro every status ⟨dep, member, here⟩
        have done := every dep member
        unfold StatusAt at done here
        rw [done] at here
        exact (Option.some.inj here).symm
    unfold unlockStep
    rw [guard, seen]
    dsimp only
    by_cases ended : statuses.any (·.cascades) = true
    · rw [if_neg Bool.false_ne_true, if_pos ended]
      exact .inl ⟨waiting, dead.mp ended, rfl⟩
    · rw [if_neg Bool.false_ne_true, if_neg ended]
      by_cases finished : statuses.all (· == .done) = true
      · rw [if_pos finished]
        exact .inr (.inl ⟨waiting, done.mp finished, rfl⟩)
      · rw [if_neg finished]
        exact .inr (.inr ⟨rfl, fun _ => ⟨fun held => ended (dead.mpr held),
          fun held => finished (done.mpr held)⟩⟩)
  · refine .inr (.inr ⟨?_, fun held => absurd held waiting⟩)
    unfold unlockStep
    split
    · rfl
    · rename_i guard
      rw [Bool.not_eq_true, Bool.or_eq_false_iff] at guard
      cases judges : depStatuses step steps with
      | none => rfl
      | some statuses =>
        have held : Waiting steps step :=
          ⟨by simpa using guard.1, by simpa using guard.2, judged_of_depStatuses judges⟩
        exact absurd held waiting

/-! ## What the passes lead to -/

/-- The steps that repeated passes skip. -/
inductive Skips (steps : List Step) : Step → Prop where
  | ended {step : Step} (waiting : Waiting steps step) (dead : DeadBranch steps step) :
    Skips steps step
  | follows {step found : Step} {dep : String} (waiting : Waiting steps step)
    (needs : dep ∈ step.dependsOn) (here : byId steps dep = some found)
    (skips : Skips steps found) : Skips steps step

/-- The steps that they make ready. -/
def Readies (steps : List Step) (step : Step) : Prop := Waiting steps step ∧ AllDone steps step

/-- Where a step can stand after any part of the passes over the list. -/
structure Stands (steps : List Step) (old new : Step) : Prop where
  stepId : new.stepId = old.stepId
  dependsOn : new.dependsOn = old.dependsOn
  status : stepStatus new = stepStatus old ∨ (Skips steps old ∧ stepStatus new = .skipped) ∨
    (Readies steps old ∧ stepStatus new = .ready)

theorem Skips.waiting (skips : Skips steps step) : Waiting steps step := by
  cases skips with
  | ended waiting _ => exact waiting
  | follows waiting _ _ _ => exact waiting

/-- A step that is skipped is never one with all dependencies done. -/
theorem Skips.not_allDone (skips : Skips steps step) : ¬AllDone steps step := by
  cases skips with
  | ended _ dead => exact not_allDone_of_deadBranch dead
  | follows _ needs here skips =>
    intro done
    have status := done _ needs
    unfold StatusAt at status
    rw [here] at status
    have blocked := skips.waiting.blocked
    rw [Option.some.inj status] at blocked
    cases blocked

/-- A dependency stands in the current list where it stood, or where the passes lead it. -/
theorem byId_progress (progress : List.Forall₂ (Stands steps) steps current) (dep : String) :
    Option.Rel (Stands steps) (byId steps dep) (byId current dep) :=
  findLast?_forall₂ (fun _ _ stands => by rw [stands.stepId]) progress

/-- A status that a step sees now, in terms of the list the passes started from. -/
theorem statusAt_progress (progress : List.Forall₂ (Stands steps) steps current)
    (now : StatusAt current dep status) :
    ∃ found, byId steps dep = some found ∧
      (stepStatus found = status ∨ (Skips steps found ∧ status = .skipped) ∨
        (Readies steps found ∧ status = .ready)) := by
  obtain ⟨found', here, same⟩ := Option.map_eq_some_iff.mp now
  have related := byId_progress progress dep
  rw [here] at related
  cases old : byId steps dep with
  | none =>
    rw [old] at related
    cases related
  | some found =>
    rw [old] at related
    cases related with
    | some stands =>
      refine ⟨found, rfl, ?_⟩
      rw [← same]
      exact stands.status.imp_left Eq.symm

theorem waiting_of_current (progress : List.Forall₂ (Stands steps) steps current)
    (stands : Stands steps old new) (waiting : Waiting current new) : Waiting steps old := by
  have blocked := waiting.blocked
  rcases stands.status with same | ⟨-, skipped⟩ | ⟨-, ready⟩
  · refine ⟨same ▸ blocked, by rw [← stands.dependsOn]; exact waiting.some, ?_⟩
    intro dep member
    rw [← stands.dependsOn] at member
    have judged := waiting.judged dep member
    rw [stands.stepId] at judged
    obtain ⟨found', here⟩ := Option.isSome_iff_exists.mp judged.2
    have now : StatusAt current dep (stepStatus found') := by
      unfold StatusAt
      rw [here]
      rfl
    obtain ⟨found, listed, -⟩ := statusAt_progress progress now
    exact ⟨judged.1, by rw [listed]; rfl⟩
  · rw [skipped] at blocked
    cases blocked
  · rw [ready] at blocked
    cases blocked

theorem skips_of_deadBranch (progress : List.Forall₂ (Stands steps) steps current)
    (stands : Stands steps old new) (waiting : Waiting steps old) (dead : DeadBranch current new) :
    Skips steps old := by
  obtain ⟨dep, member, ended⟩ := dead
  rw [stands.dependsOn] at member
  rcases ended with now | now
  · obtain ⟨found, here, status | ⟨skips, -⟩ | ⟨-, ready⟩⟩ := statusAt_progress progress now
    · exact .ended waiting ⟨dep, member, .inl (by unfold StatusAt; rw [here, ← status]; rfl)⟩
    · exact .follows waiting member here skips
    · cases ready
  · obtain ⟨found, here, status | ⟨-, skipped⟩ | ⟨-, ready⟩⟩ := statusAt_progress progress now
    · exact .ended waiting ⟨dep, member, .inr (by unfold StatusAt; rw [here, ← status]; rfl)⟩
    · cases skipped
    · cases ready

theorem allDone_of_current (progress : List.Forall₂ (Stands steps) steps current)
    (stands : Stands steps old new) (done : AllDone current new) : AllDone steps old := by
  intro dep member
  rw [← stands.dependsOn] at member
  obtain ⟨found, here, status | ⟨-, skipped⟩ | ⟨-, ready⟩⟩ :=
    statusAt_progress progress (done dep member)
  · unfold StatusAt
    rw [here, ← status]
    rfl
  · cases skipped
  · cases ready

theorem unlockStep_dependsOn (step : Step) (steps : List Step) :
    (unlockStep step steps).dependsOn = step.dependsOn := by
  rcases unlockStep_cases step steps with same | ⟨-, -, ready | skipped⟩
  · rw [same]
  · rw [ready]
  · rw [skipped]

/-- One iteration on the current list stays within what the passes lead to. -/
theorem stands_unlockStep (progress : List.Forall₂ (Stands steps) steps current)
    (stands : Stands steps old new) : Stands steps old (unlockStep new current) := by
  refine ⟨(unlockStep_stepId new current).trans stands.stepId,
    (unlockStep_dependsOn new current).trans stands.dependsOn, ?_⟩
  rcases unlockStep_spec new current with ⟨waiting, dead, skipped⟩ | ⟨waiting, done, ready⟩ |
    ⟨same, -⟩
  · have waited := waiting_of_current progress stands waiting
    exact .inr (.inl ⟨skips_of_deadBranch progress stands waited dead, skipped⟩)
  · have waited := waiting_of_current progress stands waiting
    exact .inr (.inr ⟨⟨waited, allDone_of_current progress stands done⟩, ready⟩)
  · rw [same]
    exact stands.status

theorem stands_unlockPass {visited settled rest rest' : List Step}
    (split : steps = visited ++ rest) (before : List.Forall₂ (Stands steps) visited settled)
    (ahead : List.Forall₂ (Stands steps) rest rest') :
    List.Forall₂ (Stands steps) steps (unlockPass settled rest') := by
  induction ahead generalizing visited settled with
  | nil =>
    rw [List.append_nil] at split
    rw [split] at before ⊢
    exact before
  | @cons old new rest rest' stands ahead ih =>
    have progress : List.Forall₂ (Stands steps) steps (settled ++ new :: rest') := by
      have all : List.Forall₂ (Stands steps) (visited ++ old :: rest) (settled ++ new :: rest') :=
        List.rel_append before (.cons stands ahead)
      rw [← split] at all
      exact all
    rw [unlockPass]
    have split' : steps = (visited ++ [old]) ++ rest := by simp [split]
    exact ih split' (List.rel_append before (.cons (stands_unlockStep progress stands) .nil))

theorem stands_unlockDependents (progress : List.Forall₂ (Stands steps) steps current) :
    List.Forall₂ (Stands steps) steps (unlockDependents current) :=
  stands_unlockPass rfl .nil progress

/-! ## The fixpoint -/

/-- At a fixpoint no iteration changes its step. -/
theorem unlockStep_of_fixed {settled rest : List Step}
    (fixed : unlockPass settled rest = settled ++ rest) :
    ∀ step ∈ rest, unlockStep step (settled ++ rest) = step := by
  induction rest generalizing settled with
  | nil => exact fun _ member => absurd member List.not_mem_nil
  | cons step rest ih =>
    rw [unlockPass] at fixed
    obtain ⟨after, pass, -⟩ :=
      unlockPass_forall₂ (settled ++ [unlockStep step (settled ++ step :: rest)]) rest
    have here : unlockStep step (settled ++ step :: rest) = step := by
      rw [pass, List.append_assoc, List.singleton_append] at fixed
      exact (List.cons.inj (List.append_cancel_left fixed)).1
    rw [here] at fixed
    have fixed' : unlockPass (settled ++ [step]) rest = (settled ++ [step]) ++ rest := by
      simpa using fixed
    have later := ih fixed'
    intro other member
    rcases List.mem_cons.mp member with same | tail
    · rw [same]
      exact here
    · simpa using later other tail

/-- At a fixpoint no waiting step can be decided. -/
theorem undecided_of_fixed (fixed : unlockDependents steps = steps) (member : step ∈ steps)
    (waiting : Waiting steps step) : ¬DeadBranch steps step ∧ ¬AllDone steps step := by
  have same : unlockStep step ([] ++ steps) = step := unlockStep_of_fixed fixed step member
  rw [List.nil_append] at same
  rcases unlockStep_spec step steps with ⟨-, -, skipped⟩ | ⟨-, -, ready⟩ | ⟨-, undecided⟩
  · rw [same, waiting.blocked] at skipped
    cases skipped
  · rw [same, waiting.blocked] at ready
    cases ready
  · exact undecided waiting

theorem decided_of_fixed (fixed : unlockDependents steps = steps) : Decided steps := by
  constructor
  · intro step member waiting
    have unfinished := (undecided_of_fixed fixed member waiting).2
    simpa [AllDone] using unfinished
  · intro step member waiting dep needs
    have alive := (undecided_of_fixed fixed member waiting).1
    exact ⟨fun skipped => alive ⟨dep, needs, .inl skipped⟩,
      fun cancelled => alive ⟨dep, needs, .inr cancelled⟩⟩

/-- A step of the first list and the one with its id in the current list. -/
theorem exists_stands (progress : List.Forall₂ (Stands steps) steps current) (here : byId steps id = some old) :
    ∃ new, byId current id = some new ∧ new ∈ current ∧ Stands steps old new := by
  have related := byId_progress progress id
  rw [here] at related
  cases now : byId current id with
  | none =>
    rw [now] at related
    cases related
  | some new =>
    rw [now] at related
    cases related with
    | some stands => exact ⟨new, rfl, (byId_mem now).1, stands⟩

/-- A dependency that is not blocked keeps its status. -/
theorem statusAt_kept (progress : List.Forall₂ (Stands steps) steps current) (before : StatusAt steps dep status)
    (settled : status ≠ .blocked) : StatusAt current dep status := by
  obtain ⟨found, here, same⟩ := Option.map_eq_some_iff.mp before
  obtain ⟨new, now, -, stands⟩ := exists_stands progress here
  unfold StatusAt
  rw [now, ← same]
  rcases stands.status with kept | ⟨skips, -⟩ | ⟨readies, -⟩
  · exact congrArg some kept
  · rw [skips.waiting.blocked] at same
    exact absurd same.symm settled
  · rw [readies.1.blocked] at same
    exact absurd same.symm settled

theorem waiting_kept (progress : List.Forall₂ (Stands steps) steps current) (stands : Stands steps old new)
    (waiting : Waiting steps old) (blocked : stepStatus new = .blocked) : Waiting current new := by
  refine ⟨blocked, by rw [stands.dependsOn]; exact waiting.some, ?_⟩
  intro dep member
  rw [stands.dependsOn] at member
  have judged := waiting.judged dep member
  obtain ⟨found, here⟩ := Option.isSome_iff_exists.mp judged.2
  obtain ⟨found', now, -⟩ := exists_stands progress here
  exact ⟨by rw [stands.stepId]; exact judged.1, by rw [now]; rfl⟩

/-- At the fixpoint a step that the passes skip is skipped. -/
theorem skipped_of_skips (progress : List.Forall₂ (Stands steps) steps current)
    (fixed : unlockDependents current = current) (skips : Skips steps old)
    (here : byId steps id = some old) : StatusAt current id .skipped := by
  have settle : ∀ {old : Step} {id : String}, Skips steps old → byId steps id = some old →
      (∀ new, Stands steps old new → DeadBranch current new) → StatusAt current id .skipped := by
    intro old id skips here dead
    obtain ⟨new, now, member, stands⟩ := exists_stands progress here
    unfold StatusAt
    rw [now]
    rcases stands.status with kept | ⟨-, skipped⟩ | ⟨readies, -⟩
    · have blocked := kept.trans skips.waiting.blocked
      have waiting := waiting_kept progress stands skips.waiting blocked
      exact absurd (dead new stands) (undecided_of_fixed fixed member waiting).1
    · exact congrArg some skipped
    · exact absurd readies.2 skips.not_allDone
  induction skips generalizing id with
  | ended waiting dead =>
    apply settle (.ended waiting dead) here
    intro new stands
    obtain ⟨dep, needs, ended⟩ := dead
    refine ⟨dep, by rw [stands.dependsOn]; exact needs, ?_⟩
    exact ended.imp (fun now => statusAt_kept progress now nofun)
      fun now => statusAt_kept progress now nofun
  | follows waiting needs found skips ih =>
    apply settle (.follows waiting needs found skips) here
    intro new stands
    exact ⟨_, by rw [stands.dependsOn]; exact needs, .inl (ih found)⟩

/-- At the fixpoint a step with all dependencies done is ready. -/
theorem ready_of_readies (progress : List.Forall₂ (Stands steps) steps current)
    (fixed : unlockDependents current = current) (readies : Readies steps old)
    (here : byId steps id = some old) : StatusAt current id .ready := by
  obtain ⟨new, now, member, stands⟩ := exists_stands progress here
  unfold StatusAt
  rw [now]
  rcases stands.status with kept | ⟨skips, -⟩ | ⟨-, ready⟩
  · have blocked := kept.trans readies.1.blocked
    have waiting := waiting_kept progress stands readies.1 blocked
    have done : AllDone current new := by
      intro dep needs
      rw [stands.dependsOn] at needs
      exact statusAt_kept progress (readies.2 dep needs) nofun
    exact absurd done (undecided_of_fixed fixed member waiting).2
  · exact absurd readies.2 skips.not_allDone
  · exact congrArg some ready

/-! ## The order of the list -/

theorem Waiting.reorder (same : ∀ id, byId other id = byId steps id)
    (waiting : Waiting steps step) : Waiting other step := by
  refine ⟨waiting.blocked, waiting.some, ?_⟩
  intro dep member
  rw [same]
  exact waiting.judged dep member

theorem Skips.reorder (same : ∀ id, byId other id = byId steps id)
    (skips : Skips steps step) : Skips other step := by
  induction skips with
  | ended waiting dead =>
    apply Skips.ended (waiting.reorder same)
    unfold DeadBranch StatusAt at dead ⊢
    simpa only [same] using dead
  | follows waiting needs here _ ih =>
    exact .follows (waiting.reorder same) needs ((same _).trans here) ih

theorem Readies.reorder (same : ∀ id, byId other id = byId steps id)
    (readies : Readies steps step) : Readies other step := by
  refine ⟨readies.1.reorder same, ?_⟩
  have done := readies.2
  unfold AllDone StatusAt at done ⊢
  simpa only [same] using done

/-- The status at a fixpoint is that of the passes' result, whatever the order. -/
theorem statusAt_fixed {current' : List Step} (distinct : (stepIds steps).Nodup)
    (perm : other.Perm steps) (progress : List.Forall₂ (Stands steps) steps current)
    (progress' : List.Forall₂ (Stands other) other current')
    (fixed : unlockDependents current = current) (fixed' : unlockDependents current' = current')
    (id : String) : (byId current id).map stepStatus = (byId current' id).map stepStatus := by
  have same : ∀ id, byId other id = byId steps id := fun _ => byId_perm distinct perm
  have related := byId_progress progress id
  have related' := byId_progress progress' id
  cases here : byId steps id with
  | none =>
    rw [here] at related
    rw [same, here] at related'
    generalize byId current id = now at related
    generalize byId current' id = now' at related'
    cases related
    cases related'
    rfl
  | some old =>
    have here' := (same id).trans here
    obtain ⟨new, now, -, stands⟩ := exists_stands progress here
    obtain ⟨new', now', -, stands'⟩ := exists_stands progress' here'
    by_cases skips : Skips steps old
    · have first := skipped_of_skips progress fixed skips here
      have second := skipped_of_skips progress' fixed' (skips.reorder same) here'
      unfold StatusAt at first second
      rw [first, second]
    · by_cases readies : Readies steps old
      · have first := ready_of_readies progress fixed readies here
        have second := ready_of_readies progress' fixed' (readies.reorder same) here'
        unfold StatusAt at first second
        rw [first, second]
      · have back : ∀ id, byId steps id = byId other id := fun id => (same id).symm
        have kept : stepStatus new = stepStatus old := by
          rcases stands.status with kept | ⟨held, -⟩ | ⟨held, -⟩
          · exact kept
          · exact absurd held skips
          · exact absurd held readies
        have kept' : stepStatus new' = stepStatus old := by
          rcases stands'.status with kept | ⟨held, -⟩ | ⟨held, -⟩
          · exact kept
          · exact absurd (held.reorder back) skips
          · exact absurd (held.reorder back) readies
        rw [now, now', Option.map_some, Option.map_some, kept, kept']

theorem stands_iterate (steps : List Step) (count : Nat) :
    List.Forall₂ (Stands steps) steps (unlockDependents^[count] steps) := by
  apply iterate_invariant fun _ progress => stands_unlockDependents progress
  exact List.forall₂_same.mpr fun _ _ => ⟨rfl, rfl, .inl rfl⟩

theorem settles_unlockDependents (steps : List Step) :
    List.Forall₂ (Settles fun step => stepStatus step == .blocked) steps
      (unlockDependents steps) := by
  apply (unlockDependents_forall₂ steps).imp
  rintro old new ⟨current, rfl⟩
  rcases unlockStep_cases old current with same | ⟨blocked, -, ready | skipped⟩
  · exact .inl same
  · refine .inr ⟨by simpa using blocked, ?_⟩
    rw [ready]
    rfl
  · refine .inr ⟨by simpa using blocked, ?_⟩
    rw [skipped]
    rfl

/-- Repeated passes reach a fixpoint within as many passes as there are steps; a fixpoint has
no waiting step that could be decided, and the statuses it gives are the same for every
order of the list. -/
theorem unlock_settles {steps : List Step} (distinct : (stepIds steps).Nodup) :
    (∃ count ≤ steps.length,
      unlockDependents (unlockDependents^[count] steps) = unlockDependents^[count] steps) ∧
    (∀ count, unlockDependents (unlockDependents^[count] steps) = unlockDependents^[count] steps →
      Decided (unlockDependents^[count] steps)) ∧
    ∀ other, other.Perm steps → ∀ count count',
      unlockDependents (unlockDependents^[count] steps) = unlockDependents^[count] steps →
      unlockDependents (unlockDependents^[count'] other) = unlockDependents^[count'] other →
      ∀ id, (byId (unlockDependents^[count] steps) id).map stepStatus =
        (byId (unlockDependents^[count'] other) id).map stepStatus := by
  refine ⟨?_, fun _ fixed => decided_of_fixed fixed, ?_⟩
  · obtain ⟨count, within, fixed⟩ := exists_fixpoint settles_unlockDependents steps
    exact ⟨count, Nat.le_trans within List.countP_le_length, fixed⟩
  · intro other perm count count' fixed fixed' id
    exact statusAt_fixed distinct perm (stands_iterate steps count) (stands_iterate other count')
      fixed fixed' id

/-- A dead branch of three steps, the last first. -/
def deadChain : List Step :=
  [{ stepId := "c", dependsOn := ["b"], status := some .blocked },
    { stepId := "b", dependsOn := ["a"], status := some .blocked },
    { stepId := "a", status := some .cancelled }]

theorem unlock_settles_deadChain :
    (unlockDependents^[2] deadChain).map stepStatus = [.skipped, .skipped, .cancelled] ∧
    (∃ count ≤ 3, unlockDependents (unlockDependents^[count] deadChain) =
      unlockDependents^[count] deadChain) := by
  have distinct : (stepIds deadChain).Nodup := by decide
  exact ⟨by decide +kernel, (unlock_settles distinct).1⟩

end SherryAgent.Guarantees.UnlockOrder
