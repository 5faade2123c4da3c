import SherryAgent.Contracts.Taskflow.Rows
import SherryAgent.Contracts.Taskflow.StepLists

/-!
# Retry counters

A replacement child is persisted with the retry count its call computed from the step it
read. What a write does to the counters of the row, step by step.
-/

namespace SherryAgent.Contracts.Taskflow

open SherryAgent.Source SherryAgent.Source.Taskflow SherryAgent.Library.KeyedList
  SherryAgent.Library.Resumption

/-- The steps a write gives a replacement child, with the retry count written for each. -/
def replacedBy : BuildState → List (String × Int)
  | .redispatch _ stepId _ retryCount _ => [(stepId, retryCount)]
  | .retryPlan redispatches _ => redispatches.map fun entry => (entry.1, entry.2.2)
  | _ => []

/-- A step before and after the counts in `replaced` are written, and nothing else is
counted. -/
structure Recounts (replaced : List (String × Int)) (old new : Step) : Prop where
  stepId : new.stepId = old.stepId
  retryPolicy : new.retryPolicy = old.retryPolicy
  counted : ∀ count, (old.stepId, count) ∈ replaced → new.retryCount = count
  kept : old.stepId ∉ replaced.map Prod.fst → new.retryCount = old.retryCount

/-- A step before and after a write with the given replacements: no other counter goes
back. -/
structure Carries (replaced : List (String × Int)) (old new : Step) : Prop where
  stepId : new.stepId = old.stepId
  retryPolicy : new.retryPolicy = old.retryPolicy
  counted : ∀ count, (old.stepId, count) ∈ replaced → new.retryCount = count
  kept : old.stepId ∉ replaced.map Prod.fst → stepRetryCount old ≤ stepRetryCount new

/-- A change that leaves the counter of a step alone. -/
theorem Recounts.same {old new : Step} (stepId : new.stepId = old.stepId)
    (retryPolicy : new.retryPolicy = old.retryPolicy) (retryCount : new.retryCount = old.retryCount) :
    Recounts [] old new :=
  ⟨stepId, retryPolicy, by simp, fun _ => retryCount⟩

theorem Recounts.append {first second : List (String × Int)} {a b c : Step}
    (one : Recounts first a b) (other : Recounts second b c)
    (apart : ∀ id ∈ first.map Prod.fst, id ∉ second.map Prod.fst) :
    Recounts (first ++ second) a c := by
  have same := one.stepId
  constructor
  · rw [other.stepId, same]
  · rw [other.retryPolicy, one.retryPolicy]
  · intro count member
    rcases List.mem_append.mp member with early | late
    · have untouched := apart _ (List.mem_map_of_mem early)
      rw [other.kept (same ▸ untouched)]
      exact one.counted count early
    · exact other.counted count (same ▸ late)
  · intro untouched
    simp only [List.map_append, List.mem_append, not_or] at untouched
    rw [other.kept (same ▸ untouched.2), one.kept untouched.1]

theorem Recounts.carries {replaced : List (String × Int)} {old new : Step}
    (recounts : Recounts replaced old new) : Carries replaced old new := by
  constructor
  · exact recounts.stepId
  · exact recounts.retryPolicy
  · exact recounts.counted
  · intro untouched
    simp [stepRetryCount, recounts.kept untouched]

theorem Carries.refl (step : Step) : Carries [] step step := ⟨rfl, rfl, by simp, by simp⟩

theorem Carries.trans {replaced : List (String × Int)} {a b c : Step} (first : Carries [] a b)
    (second : Carries replaced b c) : Carries replaced a c := by
  have same := first.stepId
  constructor
  · rw [second.stepId, same]
  · rw [second.retryPolicy, first.retryPolicy]
  · intro count member
    exact second.counted count (same ▸ member)
  · intro untouched
    have early := first.kept (by simp)
    have late := second.kept (same ▸ untouched)
    omega

/-- The list relation of a write. -/
abbrev Carried (replaced : List (String × Int)) (old new : List Step) : Prop :=
  List.Forall₂ (Carries replaced) old new

theorem Carried.refl (steps : List Step) : Carried [] steps steps :=
  List.forall₂_same.mpr fun step _ => .refl step

theorem Carried.trans {replaced : List (String × Int)} {a b c : List Step} (first : Carried [] a b)
    (second : Carried replaced b c) : Carried replaced a c :=
  forall₂_comp (fun _ _ _ one other => one.trans other) first second

theorem Carried.stepIds {replaced : List (String × Int)} {old new : List Step}
    (carried : Carried replaced old new) : stepIds new = stepIds old := by
  induction carried with
  | nil => rfl
  | cons head _ ih => simp [head.stepId, ih]

/-- A loop whose rounds let no counter go back. -/
theorem Carried.foldl {ι : Type} {update : List Step → ι → List Step}
    (round : ∀ steps item, Carried [] steps (update steps item)) (items : List ι)
    (steps : List Step) : Carried [] steps (items.foldl update steps) := by
  induction items generalizing steps with
  | nil => exact .refl steps
  | cons item rest ih => exact (round steps item).trans (ih _)

theorem carried_unlockDependents (steps : List Step) :
    Carried [] steps (unlockDependents steps) := by
  refine (unlockDependents_forall₂ steps).imp ?_
  rintro old new ⟨current, rfl⟩
  apply Recounts.carries
  rcases unlockStep_cases old current with same | ⟨-, -, ready | skipped⟩
  · rw [same]
    exact .same rfl rfl rfl
  · rw [ready]
    exact .same rfl rfl rfl
  · rw [skipped]
    exact .same rfl rfl rfl

/-! ## The resume's writes -/

/-- The resume's in-place change of the step it matched lets no counter go back. -/
theorem carried_decidedSteps {env : Env} {args : ResumeArgs} {h : History} {flow : Flow}
    {step : Step} {decision : Decision} (found : matched args flow = some step)
    (decides : Decides env h flow step decision) :
    Carried [] flow.state.steps (decidedSteps args flow decision) := by
  refine modifyFirst_forall₂ Carries.refl fun first here => ?_
  obtain rfl : step = first := Option.some.inj (found.symm.trans here)
  refine ⟨decides.stepId, decides.retryPolicy, by simp, fun _ => ?_⟩
  cases respawned : decision.redispatched with
  | none => simp [stepRetryCount, decides.uncounted respawned]
  | some entry =>
    obtain ⟨count, written, -⟩ := decides.counted entry.1 entry.2 respawned
    simp only [stepRetryCount, written]
    simp only [stepRetryCount] at count
    omega

theorem carried_settle {record : ResultRecord} {stepId : Option String} {decided : DecidedFields}
    {revision : Int} {attempt : Nat} {kwargs : UpdateKwargs} {row : Flow} (current : Flow) :
    Carried [] current.state.steps (Write.update
      ⟨revision, .settle record stepId decided, current, attempt, kwargs⟩ row).state.steps := by
  rw [update_settle_steps]
  refine Carried.trans ?_ (carried_unlockDependents _)
  cases stepId with
  | none => exact .refl _
  | some id =>
    refine modifyFirst_forall₂ Carries.refl fun step _ => ?_
    exact Recounts.carries (.same rfl rfl rfl)

/-- With distinct ids the step with the id is the one whose counter is written. -/
theorem recounts_replaced {f : Step → Step} (id : String) (count : Int)
    (written : ∀ step, (f step).stepId = step.stepId ∧
      (f step).retryPolicy = step.retryPolicy ∧ (f step).retryCount = count)
    (steps : List Step) :
    List.Forall₂ (Recounts [(id, count)]) steps
      (steps.map fun step => if step.stepId = id then f step else step) := by
  refine List.forall₂_map_right_iff.mpr (List.forall₂_same.mpr fun step _ => ?_)
  obtain ⟨stepId, retryPolicy, retryCount⟩ := written step
  by_cases here : step.stepId = id
  · rw [if_pos here]
    exact ⟨stepId, retryPolicy, by simp [here, retryCount], by simp [here]⟩
  · rw [if_neg here]
    exact ⟨rfl, rfl, by simp [here], by simp⟩

theorem carried_redispatch {record : ResultRecord} {id key : String} {count : Int}
    {feedback : Option String} {revision : Int} {attempt : Nat} {kwargs : UpdateKwargs}
    {row : Flow} (current : Flow) (distinct : (stepIds current.state.steps).Nodup) :
    Carried [(id, count)] current.state.steps (Write.update
      ⟨revision, .redispatch record id key count feedback, current, attempt, kwargs⟩
        row).state.steps := by
  change Carried _ _ (modifyFirst (·.stepId == id) _ current.state.steps)
  rw [modifyFirst_eq_map Step.stepId distinct id]
  refine (recounts_replaced id count ?_ _).imp fun _ _ recounts => recounts.carries
  intro step
  exact ⟨rfl, rfl, rfl⟩

/-! ## Dispatches -/

theorem carried_waveSteps (steps : List Step) (batch : List BatchSpawn) :
    Carried [] steps (waveSteps steps batch) := by
  refine Carried.foldl (fun current spawned => ?_) batch steps
  split
  · refine modifyLast_forall₂ Carries.refl (fun step => ?_) current
    exact Recounts.carries (.same rfl rfl rfl)
  · exact .refl current

/-- A dispatch counts a started step up or not at all. -/
theorem carried_dispatchedSteps (steps : List Step) (batch : List BatchSpawn) :
    Carried [] steps (dispatchedSteps steps batch) := by
  refine Carried.foldl (fun current spawned => ?_) batch steps
  split
  · exact .refl current
  · refine modifyLast_forall₂ Carries.refl (fun step => ?_) current
    refine ⟨rfl, rfl, by simp, fun _ => ?_⟩
    simp only [stepRetryCount, dispatchStep]
    split
    · simp
    · split <;> omega

/-- Re-applying records of listed steps writes no counter. -/
theorem carried_applyDispatchedSteps {fresh records : List Step}
    (listed : ∀ record ∈ records, record.stepId ∈ stepIds fresh) :
    Carried [] fresh (applyDispatchedSteps fresh records) := by
  suffices loop : ∀ steps, Carried [] steps (records.foldl (fun merged record =>
      if fresh.any (·.stepId == record.stepId) then
        modifyLast (·.stepId == record.stepId) (fun target =>
          { target with
            status := record.status
            childSessionKey := record.childSessionKey
            judgeFeedback := none }) merged
      else merged ++ [record]) steps) from loop fresh
  induction records with
  | nil => exact fun steps => .refl steps
  | cons record rest ih =>
    intro steps
    have present : fresh.any (·.stepId == record.stepId) = true := by
      obtain ⟨step, member, same⟩ := List.mem_map.mp (listed record List.mem_cons_self)
      exact List.any_eq_true.mpr ⟨step, member, by simp [same]⟩
    rw [List.foldl_cons, if_pos present]
    refine Carried.trans ?_ (ih (fun other member => listed other (List.mem_cons_of_mem _ member)) _)
    refine modifyLast_forall₂ Carries.refl (fun step => ?_) steps
    exact Recounts.carries (.same rfl rfl rfl)

/-! ## `taskflow_wait_all` -/

/-- The planned counts are written one after the other, each to the one step with its id. -/
theorem recounts_redispatches {redispatches : List (String × String × Int)} {steps : List Step}
    (distinct : (stepIds steps).Nodup) (single : (redispatches.map (·.1)).Nodup) :
    List.Forall₂ (Recounts (redispatches.map fun entry => (entry.1, entry.2.2))) steps
      (redispatches.foldl (fun steps entry => modifyLast (·.stepId == entry.1)
        (applyRedispatch · entry.2.1 entry.2.2) steps) steps) := by
  induction redispatches generalizing steps with
  | nil => exact List.forall₂_same.mpr fun step _ => .same rfl rfl rfl
  | cons entry rest ih =>
    obtain ⟨apart, single⟩ := List.nodup_cons.mp single
    have here := recounts_replaced entry.1 entry.2.2
      (fun step => show (applyRedispatch step entry.2.1 entry.2.2).stepId = _ ∧ _ ∧ _ from
        ⟨rfl, rfl, rfl⟩) steps
    rw [← modifyLast_eq_map Step.stepId distinct entry.1] at here
    have same : stepIds (modifyLast (·.stepId == entry.1)
        (applyRedispatch · entry.2.1 entry.2.2) steps) = stepIds steps := by
      apply stepIds_modifyLast
      exact fun _ => rfl
    have later := ih (same ▸ distinct) single
    refine forall₂_comp (fun _ _ _ one other => one.append other ?_) here later
    simpa using apart

theorem recounts_exhausted (exhausted : List (String × ResultRecord)) (steps : List Step) :
    List.Forall₂ (Recounts []) steps (exhausted.foldl (fun steps entry =>
      modifyLast (·.stepId == entry.1) (fun target => { target with status := some .done })
        steps) steps) := by
  induction exhausted generalizing steps with
  | nil => exact List.forall₂_same.mpr fun step _ => .same rfl rfl rfl
  | cons entry rest ih =>
    rw [List.foldl_cons]
    have here : List.Forall₂ (Recounts []) steps (modifyLast (·.stepId == entry.1)
        (fun target => { target with status := some .done }) steps) :=
      modifyLast_forall₂ (fun step => .same rfl rfl rfl) (fun step => .same rfl rfl rfl) steps
    exact forall₂_comp (fun _ _ _ one other => one.append other (by simp)) here (ih _)

/-- The retry plan writes the planned counts, each to the one step with its id. -/
theorem carried_retryPlan {redispatches : List (String × String × Int)}
    {exhausted : List (String × ResultRecord)} {revision : Int} {current : Flow} {attempt : Nat}
    {kwargs : UpdateKwargs} {row : Flow} (distinct : (stepIds current.state.steps).Nodup)
    (single : (redispatches.map (·.1)).Nodup) :
    Carried (replacedBy (.retryPlan redispatches exhausted)) current.state.steps (Write.update
      ⟨revision, .retryPlan redispatches exhausted, current, attempt, kwargs⟩
        row).state.steps := by
  refine forall₂_comp (fun _ _ _ one other => ?_) (recounts_redispatches distinct single)
    (recounts_exhausted exhausted _)
  have whole := one.append other (by simp)
  rw [List.append_nil] at whole
  exact whole.carries

/-! ## One write -/

/-- The calls that start children of existing steps. -/
def retryCall : Call → Bool
  | .resume _ | .dispatch .. | .waitAll => true
  | _ => false

/-- The reads a call decides a replacement on. -/
def deciding : ReadSite → Bool
  | .resume _ | .settled _ => true
  | _ => false

variable {env : Env} {call : Call} {h : History} {plan : Plan}

/-- The records of a batch are named after steps of the row it was started on. -/
theorem records_listed {flow : Flow} {ids : List String} {batch : List BatchSpawn}
    {record : BatchSpawn → Option Step} (batched : Batched flow ids batch)
    (named : ∀ spawned step, record spawned = some step →
      spawned.key.isSome = true ∧ step.stepId = spawned.stepId) :
    ∀ step ∈ batch.filterMap record, step.stepId ∈ stepIds flow.state.steps := by
  intro step member
  obtain ⟨spawned, inside, recorded⟩ := List.mem_filterMap.mp member
  obtain ⟨started, same⟩ := named spawned step recorded
  obtain ⟨target, found⟩ := batched.found spawned inside started
  obtain ⟨listed, id⟩ := byId_mem found
  rw [same, ← id]
  exact List.mem_map_of_mem listed

theorem waveRecord_named (spawned : BatchSpawn) (step : Step)
    (recorded : waveRecord spawned = some step) :
    spawned.key.isSome = true ∧ step.stepId = spawned.stepId := by
  obtain ⟨key, some_key, rfl⟩ := Option.map_eq_some_iff.mp recorded
  simp [some_key]

theorem dispatchRecords_listed {flow : Flow} {ids : List String} {batch : List BatchSpawn}
    (batched : Batched flow ids batch) :
    ∀ step ∈ dispatchRecords flow.state.steps batch, step.stepId ∈ stepIds flow.state.steps := by
  apply records_listed batched
  intro spawned step recorded
  split at recorded
  · rename_i started found
    cases recorded
    exact ⟨by simp [started], (byId_mem found).2⟩
  · cases recorded

/-- What a stored write of a retrying call does to the counters of the row it replaces. -/
theorem update_carried {row : Flow} {wr : Write} (planned : Planned env call h plan)
    (based : Based plan row wr) (retries : retryCall call = true)
    (listed : ∀ read ∈ reads h, stepIds read.2.state.steps = stepIds row.state.steps)
    (distinct : (stepIds row.state.steps).Nodup)
    (single : ((replacedBy plan.build).map Prod.fst).Nodup) :
    Carried (replacedBy wr.build) row.state.steps (wr.update row).state.steps := by
  cases planned with
  | unmatched accepted none_matched hash =>
    cases based with
    | first same =>
      subst same
      exact carried_settle _
    | replay later live replayed => exact carried_settle _
  | redispatch accepted found decides respawned hash =>
    cases based with
    | first same =>
      subst same
      have decided := carried_decidedSteps found decides
      exact decided.trans (carried_redispatch (Flow.withSteps _ _) (decided.stepIds ▸ distinct))
    | replay later live replayed => exact carried_redispatch _ distinct
  | settle accepted found decides settled hash =>
    cases based with
    | first same =>
      subst same
      exact (carried_decidedSteps found decides).trans (carried_settle (Flow.withSteps _ _))
    | replay later live replayed => exact carried_settle _
  | @wave args _ ids flow batch read unique batched =>
    have present := records_listed batched waveRecord_named
    cases based with
    | first same =>
      subst same
      have waved := carried_waveSteps flow.state.steps batch
      exact waved.trans (carried_applyDispatchedSteps (waved.stepIds ▸ present))
    | replay later live replayed =>
      exact carried_applyDispatchedSteps (listed _ read ▸ present)
  | @dispatch _ _ ids flow batch dispatches read live batched valid =>
    have present := dispatchRecords_listed batched
    cases based with
    | first same =>
      subst same
      have started := carried_dispatchedSteps flow.state.steps batch
      exact started.trans (carried_applyDispatchedSteps (started.stepIds ▸ present))
    | replay later live replayed =>
      exact carried_applyDispatchedSteps (listed _ read ▸ present)
  | @settled _ pairs flow redispatches exhausted read busy respawned waited =>
    simp only [replacedBy, List.map_map] at single
    cases based with
    | first same =>
      subst same
      exact carried_retryPlan distinct single
    | replay later live replayed => exact carried_retryPlan distinct single
  | single read live writes => cases call <;> simp [retryCall, Call.single] at retries writes
  | compensate creates read => cases call <;> simp [retryCall, Call.creates] at retries creates
  | _ => cases retries

/-- A retry planned by `taskflow_wait_all` is within the budget of the step's policy. -/
theorem planSettledRetries_counts {steps : List Step} {results : List ResultRecord}
    {pairs : List (String × String)} {step : Step} {key : String} {count : Int}
    {policy : NormalPolicy}
    (member : .redispatch step key count policy ∈ planSettledRetries env steps results pairs) :
    step ∈ steps ∧ count = stepRetryCount step + 1 ∧ 0 < retriesRemaining step := by
  obtain ⟨pair, -, decided⟩ := List.mem_filterMap.mp member
  dsimp only at decided
  split at decided
  · cases decided
  · rename_i found_step found
    split at decided
    · cases decided
    · rename_i policy' normal
      split at decided
      · cases decided
      · split at decided
        · rename_i within
          cases decided
          refine ⟨(byId_mem found).1, rfl, ?_⟩
          simp only [retriesRemaining, normal]
          omega
        · cases decided

/-- A replacement's count is one more than that of the step its call decided on, which
still had a retry left: of its policy, or of the judge's budget. -/
theorem replaced_counts (planned : Planned env call h plan) {id : String} {count : Int}
    (member : (id, count) ∈ replacedBy plan.build) :
    ∃ read ∈ reads h, deciding read.1 = true ∧ ∃ step ∈ read.2.state.steps,
      step.stepId = id ∧ count = stepRetryCount step + 1 ∧
        (0 < retriesRemaining step ∨ stepRetryCount step < env.infra.judgeMaxRetries) := by
  cases planned with
  | redispatch accepted found decides respawned hash =>
    obtain ⟨rfl, rfl⟩ := Prod.mk.inj (List.mem_singleton.mp member)
    obtain ⟨counted, -, within⟩ := decides.counted _ _ respawned
    exact ⟨_, accepted.read, rfl, _, (firstByChild_mem found).1, rfl, counted, within⟩
  | settled read busy respawned waited =>
    obtain ⟨entry, inside, same⟩ := List.mem_map.mp member
    obtain ⟨rfl, rfl⟩ := Prod.mk.inj same
    obtain ⟨step, key, policy, action, named⟩ := respawned.planned entry inside
    obtain ⟨listed, counted, within⟩ := planSettledRetries_counts action
    exact ⟨_, read, rfl, step, listed, named.symm, counted, .inl within⟩
  | single read live writes => cases call <;> cases writes <;> cases member
  | _ => cases member

/-- A write gives a step one replacement at most. -/
theorem replaced_single (planned : Planned env call h plan)
    (distinct : ∀ read ∈ reads h, (stepIds read.2.state.steps).Nodup) :
    ((replacedBy plan.build).map Prod.fst).Nodup := by
  cases planned with
  | redispatch accepted found decides respawned hash => exact List.nodup_singleton _
  | settled read busy respawned waited =>
    obtain ⟨polled, first, targets⟩ := waited
    have targeted : ((waitTargets polled.state.steps).map Prod.fst).Sublist
        (stepIds polled.state.steps) := by
      rw [waitTargets, List.map_map]
      exact List.filter_sublist.map _
    rw [replacedBy, List.map_map]
    exact (distinct _ first).sublist ((targets ▸ respawned.among).trans targeted)
  | single read live writes => cases call <;> cases writes <;> exact List.nodup_nil
  | _ => exact List.nodup_nil

end SherryAgent.Contracts.Taskflow
