import SherryAgent.Contracts.Subagent.Registry
import SherryAgent.Source.Subagent.Memory

/-!
# Pressure pruning

- `pressure_prune_iff`: exactly when one prune brings the backlog down to the soft cap
- `backlog_above_cap`: a backlog of more than twice the cap stays above it
-/

namespace SherryAgent.Guarantees.PressurePrune

open SherryAgent.Source.Subagent SherryAgent.Contracts.Subagent

variable {config : PressureConfig} {maxRetained : Nat} {runs : Registry}
variable {run : SubagentRunRecord} {pruned : List SubagentRunRecord}

/-! ## The registry -/

/-- Every write evicts: within the limit, or no terminal run is left. -/
def Retained (maxRetained : Nat) (runs : Registry) : Prop :=
  runs.length ≤ maxRetained ∨ ∀ item ∈ runs, Registry.isTerminal item.2 = false

theorem retained_evictFrom (front : Nat) :
    (Registry.evictFrom maxRetained (runs.length + front) runs).length + front ≤ maxRetained ∨
      ∀ item ∈ Registry.evictFrom maxRetained (runs.length + front) runs,
        Registry.isTerminal item.2 = false := by
  induction runs generalizing front with
  | nil =>
    right
    intro item member
    cases member
  | cons item rest ih =>
    rw [Registry.evictFrom]
    split
    · left
      assumption
    · split
      · have size : (item :: rest).length + front - 1 = rest.length + front := by
          rw [List.length_cons]
          omega
        rw [size]
        exact ih front
      · rename_i live
        have size : (item :: rest).length + front = rest.length + (front + 1) := by
          rw [List.length_cons]
          omega
        rw [size, List.length_cons]
        rcases ih (front + 1) with fits | all_live
        · left
          omega
        · right
          rw [List.forall_mem_cons]
          exact ⟨by simpa using live, all_live⟩

theorem retained_setRun (runs : Registry) (run : SubagentRunRecord) :
    Retained maxRetained (runs.setRun maxRetained run) :=
  retained_evictFrom 0

/-- A registry as its writes leave it. -/
structure LiveRegistry (maxRetained : Nat) where
  runs : Registry
  keyed : Keyed runs
  retained : Retained maxRetained runs

/-- `set_run`. -/
def LiveRegistry.setRun (registry : LiveRegistry maxRetained) (run : SubagentRunRecord) :
    LiveRegistry maxRetained :=
  { runs := registry.runs.setRun maxRetained run
    keyed := registry.keyed.setRun run
    retained := retained_setRun registry.runs run }

/-! ## What a prune does -/

/-- The suspended deliveries in the registry. -/
def suspendedCount (runs : Registry) : Nat := runs.countP fun item => item.2.isDeliverySuspended

/-- The runs whose delivery is suspended though they have not ended. -/
def unendedSuspended (runs : Registry) : List SubagentRunRecord :=
  runs.allRuns.filter fun run => !run.hasRunEnded && run.isDeliverySuspended

structure Pruned (config : PressureConfig) (before after : Registry) : Prop where
  capped : (suspendedCount after : Int) ≤ config.deliverySuspendSoftCap
  newest : ∀ id run, before.get id = some run → run.isDeliverySuspended = true →
    after.get id ≠ some run →
    ∀ item ∈ after, item.2.isDeliverySuspended = true → run.suspendedSince ≤ item.2.suspendedSince
  discarded : ∀ id run, before.get id = some run → run.isDeliverySuspended = true →
    after.get id = some run ∨ after.get id = some (run.markDeliveryDiscarded "pressure_prune")
  within : (suspendedCount before : Int) ≤ config.deliverySuspendSoftCap → after = before
  others : ∀ id run, before.get id = some run → run.isDeliverySuspended = false →
    after.get id = some run

/-- The runs of the backlog that were suspended first. -/
def oldest (runs : Registry) (count : Nat) : List SubagentRunRecord :=
  (Registry.oldestFirst runs.suspendedRuns).take count

/-- The backlog fits, or one prune is enough for it. -/
def CatchesUp (config : PressureConfig) (runs : Registry) : Prop :=
  let backlog := runs.suspendedRuns.length
  let unended := (unendedSuspended runs).length
  if backlog ≤ config.deliverySuspendSoftCap then
    backlog + unended ≤ config.deliverySuspendSoftCap
  else
    Registry.targetCount config backlog + unended ≤ config.deliverySuspendSoftCap ∧
      ∀ run ∈ oldest runs (Registry.toPruneCount config backlog).toNat,
        ∀ other ∈ unendedSuspended runs, run.suspendedSince ≤ other.suspendedSince

/-! ## The loop -/

/-- An item, its delivery discarded when its run is pruned. -/
def discardIn (ids : List String) (item : String × SubagentRunRecord) :
    String × SubagentRunRecord :=
  if item.1 ∈ ids then (item.1, item.2.markDeliveryDiscarded "pressure_prune") else item

/-- Writing a run that is there replaces its item. -/
theorem put_perm {id : String} {old new : SubagentRunRecord} (keyed : Keyed runs)
    (member : (id, old) ∈ runs) (own : new.runId = id) :
    (runs.put new).Perm (runs.map fun item => if item.1 = id then (id, new) else item) := by
  obtain ⟨front, back, rfl⟩ := List.append_of_mem member
  have distinct := keyed.distinct
  rw [List.map_append, List.map_cons, List.nodup_append, List.nodup_cons] at distinct
  have front_apart : ∀ item ∈ front, item.1 ≠ id := fun item inside =>
    distinct.2.2 item.1 (List.mem_map_of_mem inside) id List.mem_cons_self
  have back_apart : ∀ item ∈ back, item.1 ≠ id := fun item inside same =>
    distinct.2.1.1 (List.mem_map.mpr ⟨item, inside, same⟩)
  have kept : Registry.pop (front ++ (id, old) :: back) new.runId = front ++ back := by
    unfold Registry.pop
    rw [own, List.filter_append, List.filter_cons_of_neg (by simp),
      List.filter_eq_self.mpr (by simpa using front_apart),
      List.filter_eq_self.mpr (by simpa using back_apart)]
  have same : ∀ part : Registry, (∀ item ∈ part, item.1 ≠ id) →
      part.map (fun item => if item.1 = id then (id, new) else item) = part := by
    intro part apart
    conv_rhs => rw [← List.map_id part]
    apply List.map_congr_left
    intro item inside
    rw [if_neg (apart item inside), id_eq]
  rw [Registry.put, kept, List.map_append, List.map_cons, same front front_apart,
    same back back_apart, if_pos rfl, own]
  exact (List.perm_append_singleton _ _).trans List.perm_middle.symm

/-- The loop discards the deliveries of the pruned runs and evicts nothing. -/
theorem discardAll_perm (keyed : Keyed runs) (fits : pruned ≠ [] → runs.length ≤ maxRetained)
    (members : ∀ run ∈ pruned, (run.runId, run) ∈ runs)
    (distinct : (pruned.map (·.runId)).Nodup) :
    (Registry.discardAll maxRetained pruned runs).Perm
        (runs.map (discardIn (pruned.map (·.runId)))) ∧
      Keyed (Registry.discardAll maxRetained pruned runs) := by
  induction pruned generalizing runs with
  | nil =>
    have nothing : discardIn [] = id := by
      funext item
      simp [discardIn]
    exact ⟨by rw [List.map_nil, nothing, List.map_id]; rfl, keyed⟩
  | cons run pruned ih =>
    rw [List.map_cons, List.nodup_cons] at distinct
    have here := members run List.mem_cons_self
    have own : (run.markDeliveryDiscarded "pressure_prune").runId = run.runId := rfl
    have replaced := put_perm keyed here own
    have written : runs.setRun maxRetained (run.markDeliveryDiscarded "pressure_prune") =
        runs.put (run.markDeliveryDiscarded "pressure_prune") := by
      unfold Registry.setRun Registry.evictOverflow
      apply evictFrom_of_le
      rw [replaced.length_eq, List.length_map]
      exact fits (List.cons_ne_nil _ _)
    have later : ∀ other ∈ pruned, (other.runId, other) ∈
        runs.put (run.markDeliveryDiscarded "pressure_prune") := by
      intro other member
      have apart : other.runId ≠ run.runId := fun same =>
        distinct.1 (same ▸ List.mem_map_of_mem member)
      rw [Registry.put, List.mem_append, mem_pop]
      exact .inl ⟨members other (List.mem_cons_of_mem _ member), apart⟩
    have still_fits : pruned ≠ [] →
        (runs.put (run.markDeliveryDiscarded "pressure_prune")).length ≤ maxRetained := by
      intro _
      rw [replaced.length_eq, List.length_map]
      exact fits (List.cons_ne_nil _ _)
    have rest := ih (keyed.put _) still_fits later distinct.2
    rw [Registry.discardAll, List.foldl_cons, written]
    refine ⟨rest.1.trans ((replaced.map _).trans ?_), rest.2⟩
    rw [List.map_map]
    apply List.Perm.of_eq
    apply List.map_congr_left
    intro item member
    by_cases same : item.1 = run.runId
    · have found : item = (run.runId, run) :=
        List.inj_on_of_nodup_map keyed.distinct member here same
      subst found
      simp [discardIn, distinct.1]
    · simp [discardIn, same]

/-! ## The backlog -/

theorem mem_allRuns (keyed : Keyed runs) : run ∈ runs.allRuns ↔ (run.runId, run) ∈ runs := by
  unfold Registry.allRuns
  rw [List.mem_map]
  constructor
  · intro listed
    obtain ⟨item, member, same⟩ := listed
    have own := keyed.own item member
    rw [← same, own]
    exact member
  · intro member
    exact ⟨_, member, rfl⟩

theorem mem_suspendedRuns : run ∈ runs.suspendedRuns ↔
    run ∈ runs.allRuns ∧ run.hasRunEnded = true ∧ run.isDeliverySuspended = true := by
  rw [Registry.suspendedRuns, List.mem_filter, Bool.and_eq_true]

theorem mem_unendedSuspended : run ∈ unendedSuspended runs ↔
    run ∈ runs.allRuns ∧ run.hasRunEnded = false ∧ run.isDeliverySuspended = true := by
  rw [unendedSuspended, List.mem_filter, Bool.and_eq_true, Bool.not_eq_true']

theorem ids_nodup (keyed : Keyed runs) : (runs.allRuns.map (·.runId)).Nodup := by
  have same : runs.allRuns.map (·.runId) = runs.map (·.1) := by
    unfold Registry.allRuns
    rw [List.map_map]
    apply List.map_congr_left
    exact fun item member => keyed.own item member
  rw [same]
  exact keyed.distinct

theorem oldestFirst_perm (suspended : List SubagentRunRecord) :
    (Registry.oldestFirst suspended).Perm suspended :=
  List.perm_insertionSort _ _

theorem oldestFirst_sorted (suspended : List SubagentRunRecord) :
    (Registry.oldestFirst suspended).Pairwise fun a b => a.suspendedSince ≤ b.suspendedSince := by
  have total : Std.Total fun a b : SubagentRunRecord => a.suspendedSince ≤ b.suspendedSince :=
    ⟨fun a b => Nat.le_total _ _⟩
  have trans : IsTrans SubagentRunRecord fun a b => a.suspendedSince ≤ b.suspendedSince :=
    ⟨fun a b c => Nat.le_trans⟩
  exact List.pairwise_insertionSort _ _

theorem oldest_ids_nodup (keyed : Keyed runs) :
    ((Registry.oldestFirst runs.suspendedRuns).map (·.runId)).Nodup := by
  rw [((oldestFirst_perm _).map _).nodup_iff]
  exact (ids_nodup keyed).sublist (List.filter_sublist.map _)

theorem mem_oldest {count : Nat} (member : run ∈ oldest runs count) : run ∈ runs.suspendedRuns :=
  (oldestFirst_perm _).subset (List.mem_of_mem_take member)

/-- What the prune leaves suspended: the newer part of the backlog and the unended runs. -/
theorem suspendedCount_discard (keyed : Keyed runs) (count : Nat) :
    suspendedCount (runs.map (discardIn ((oldest runs count).map (·.runId)))) =
      (runs.suspendedRuns.length - count) + (unendedSuspended runs).length := by
  let ids := (oldest runs count).map (·.runId)
  let stays : SubagentRunRecord → Bool := fun run =>
    run.isDeliverySuspended && decide (run.runId ∉ ids)
  have left : suspendedCount (runs.map (discardIn ids)) = runs.allRuns.countP stays := by
    unfold suspendedCount Registry.allRuns
    rw [List.countP_map, List.countP_map]
    apply List.countP_congr
    intro item member
    have own := keyed.own item member
    by_cases chosen : item.1 ∈ ids
    · simp [discardIn, stays, chosen, own, SubagentRunRecord.markDeliveryDiscarded,
        SubagentRunRecord.isDeliverySuspended]
    · simp [discardIn, stays, chosen, own]
  have split_at : runs.allRuns.countP stays =
      runs.suspendedRuns.countP (fun run => decide (run.runId ∉ ids)) +
        (unendedSuspended runs).countP (fun run => decide (run.runId ∉ ids)) := by
    unfold Registry.suspendedRuns unendedSuspended
    rw [List.countP_filter, List.countP_filter]
    induction runs.allRuns with
    | nil => rfl
    | cons run rest ih =>
      rw [List.countP_cons, List.countP_cons, List.countP_cons, ih]
      cases ended : run.hasRunEnded <;> cases waits : run.isDeliverySuspended <;>
        simp [stays, waits] <;> omega
  have newer : runs.suspendedRuns.countP (fun run => decide (run.runId ∉ ids)) =
      runs.suspendedRuns.length - count := by
    have distinct := oldest_ids_nodup keyed
    rw [← (oldestFirst_perm runs.suspendedRuns).countP_eq,
      ← (oldestFirst_perm runs.suspendedRuns).length_eq, ← List.length_drop]
    conv_lhs => rw [← List.take_append_drop count (Registry.oldestFirst runs.suspendedRuns)]
    rw [← List.take_append_drop count (Registry.oldestFirst runs.suspendedRuns), List.map_append,
      List.nodup_append] at distinct
    have front : ((Registry.oldestFirst runs.suspendedRuns).take count).countP
        (fun run => decide (run.runId ∉ ids)) = 0 := by
      rw [List.countP_eq_zero]
      intro run member
      have inside : run.runId ∈ ids := List.mem_map_of_mem member
      simp [inside]
    have back : ((Registry.oldestFirst runs.suspendedRuns).drop count).countP
        (fun run => decide (run.runId ∉ ids)) =
        ((Registry.oldestFirst runs.suspendedRuns).drop count).length := by
      rw [List.countP_eq_length]
      intro run member
      have outside : run.runId ∉ ids := fun inside =>
        distinct.2.2 _ inside _ (List.mem_map_of_mem member) rfl
      simp [outside]
    rw [List.countP_append, front, back, Nat.zero_add]
  have unended : (unendedSuspended runs).countP (fun run => decide (run.runId ∉ ids)) =
      (unendedSuspended runs).length := by
    rw [List.countP_eq_length]
    intro run member
    have outside : run.runId ∉ ids := by
      intro inside
      obtain ⟨other, chosen, same⟩ := List.mem_map.mp inside
      obtain ⟨listed, ended, -⟩ := mem_suspendedRuns.mp (mem_oldest chosen)
      obtain ⟨listed', live, -⟩ := mem_unendedSuspended.mp member
      have equal := List.inj_on_of_nodup_map (ids_nodup keyed) listed listed' same
      rw [equal, live] at ended
      cases ended
    simp [outside]
  rw [left, split_at, newer, unended]

theorem suspendedCount_eq (keyed : Keyed runs) :
    suspendedCount runs = runs.suspendedRuns.length + (unendedSuspended runs).length := by
  have none_pruned := suspendedCount_discard keyed 0
  have nothing : discardIn ((oldest runs 0).map (·.runId)) = id := by
    funext item
    simp [discardIn, oldest]
  rwa [nothing, List.map_id, Nat.sub_zero] at none_pruned

/-! ## One prune -/

/-- The registry after the runs suspended first were discarded. -/
structure Discarded (before after : Registry) (count : Nat) : Prop where
  perm : after.Perm (before.map (discardIn ((oldest before count).map (·.runId))))
  keyed : Keyed after

theorem discarded_oldest (keyed : Keyed runs) (retained : Retained maxRetained runs) (count : Nat) :
    Discarded runs (Registry.discardAll maxRetained (oldest runs count) runs) count := by
  -- a terminal run is left, so the registry is within its limit and nothing is evicted
  have fits : oldest runs count ≠ [] → runs.length ≤ maxRetained := by
    intro some_run
    obtain ⟨run, member⟩ := List.exists_mem_of_ne_nil _ some_run
    obtain ⟨listed, ended, -⟩ := mem_suspendedRuns.mp (mem_oldest member)
    apply retained.resolve_right
    intro live
    have alive := live _ ((mem_allRuns keyed).mp listed)
    unfold Registry.isTerminal at alive
    unfold SubagentRunRecord.hasRunEnded at ended
    rw [ended] at alive
    cases alive
  have members : ∀ run ∈ oldest runs count, (run.runId, run) ∈ runs := fun run member =>
    (mem_allRuns keyed).mp (mem_suspendedRuns.mp (mem_oldest member)).1
  have distinct : ((oldest runs count).map (·.runId)).Nodup :=
    (oldest_ids_nodup keyed).sublist ((List.take_sublist _ _).map _)
  obtain ⟨perm, after_keyed⟩ := discardAll_perm keyed fits members distinct
  exact ⟨perm, after_keyed⟩

variable {after : Registry} {count : Nat}

theorem Discarded.get (result : Discarded runs after count) (keyed : Keyed runs) {id : String}
    (found : runs.get id = some run) :
    after.get id = some (if id ∈ (oldest runs count).map (·.runId) then
      run.markDeliveryDiscarded "pressure_prune" else run) := by
  rw [result.keyed.get_eq_some, result.perm.mem_iff, List.mem_map]
  refine ⟨(id, run), keyed.get_eq_some.mp found, ?_⟩
  unfold discardIn
  split <;> rfl

/-- An id is discarded exactly when its run is among the oldest. -/
theorem mem_oldest_ids (keyed : Keyed runs) {id : String} (found : runs.get id = some run) :
    id ∈ (oldest runs count).map (·.runId) ↔ run ∈ oldest runs count := by
  have own := keyed.get_runId found
  rw [List.mem_map]
  constructor
  · intro listed
    obtain ⟨other, member, same⟩ := listed
    have there := (mem_allRuns keyed).mp (mem_suspendedRuns.mp (mem_oldest member)).1
    have equal := keyed.get_eq_some.mpr there
    rw [same, found] at equal
    rwa [Option.some.inj equal]
  · exact fun member => ⟨run, member, own⟩

/-- A run that is still suspended was not among the oldest. -/
theorem Discarded.kept (result : Discarded runs after count) (keyed : Keyed runs)
    {item : String × SubagentRunRecord} (member : item ∈ after)
    (waits : item.2.isDeliverySuspended = true) :
    item.2 ∈ runs.allRuns ∧ item.2 ∉ oldest runs count := by
  obtain ⟨old, there, same⟩ := List.mem_map.mp (result.perm.mem_iff.mp member)
  have found : runs.get old.1 = some old.2 := keyed.get_eq_some.mpr there
  unfold discardIn at same
  split at same
  · subst same
    cases waits
  · rename_i outside
    subst same
    rw [mem_oldest_ids keyed found] at outside
    exact ⟨List.mem_map_of_mem there, outside⟩

/-- The oldest of the backlog are older than the rest of it. -/
theorem oldest_le {other : SubagentRunRecord} (first : run ∈ oldest runs count)
    (listed : other ∈ runs.suspendedRuns) (later : other ∉ oldest runs count) :
    run.suspendedSince ≤ other.suspendedSince := by
  have sorted := oldestFirst_sorted runs.suspendedRuns
  rw [← List.take_append_drop count (Registry.oldestFirst runs.suspendedRuns),
    List.pairwise_append] at sorted
  have inside := (oldestFirst_perm runs.suspendedRuns).mem_iff.mpr listed
  rw [← List.take_append_drop count (Registry.oldestFirst runs.suspendedRuns),
    List.mem_append] at inside
  exact sorted.2.2 run first other (inside.resolve_left later)

theorem ne_discarded (waits : run.isDeliverySuspended = true) :
    run.markDeliveryDiscarded "pressure_prune" ≠ run := by
  intro same
  rw [← same] at waits
  cases waits

/-- A prune satisfies its contract exactly when what it leaves fits and the unended runs are not
older than what it discards. -/
theorem Discarded.pruned_iff (result : Discarded runs after count) (keyed : Keyed runs)
    (exceeds : config.deliverySuspendSoftCap < runs.suspendedRuns.length) :
    Pruned config runs after ↔
      ((runs.suspendedRuns.length - count + (unendedSuspended runs).length : Nat) : Int) ≤
          config.deliverySuspendSoftCap ∧
        ∀ run ∈ oldest runs count, ∀ other ∈ unendedSuspended runs,
          run.suspendedSince ≤ other.suspendedSince := by
  have total : suspendedCount after =
      runs.suspendedRuns.length - count + (unendedSuspended runs).length := by
    rw [← suspendedCount_discard keyed, suspendedCount, suspendedCount, result.perm.countP_eq]
  constructor
  · intro pruned
    refine ⟨total ▸ pruned.capped, ?_⟩
    intro run member other unended
    obtain ⟨listed, ended, waits⟩ := mem_suspendedRuns.mp (mem_oldest member)
    obtain ⟨listed', live, waits'⟩ := mem_unendedSuspended.mp unended
    have found := keyed.get_eq_some.mpr ((mem_allRuns keyed).mp listed)
    have found' := keyed.get_eq_some.mpr ((mem_allRuns keyed).mp listed')
    have chosen := (@mem_oldest_ids _ _ count keyed _ found).mpr member
    have apart : other.runId ∉ (oldest runs count).map (·.runId) := by
      rw [mem_oldest_ids keyed found']
      intro inside
      rw [(mem_suspendedRuns.mp (mem_oldest inside)).2.1] at live
      cases live
    have gone := result.get keyed found
    have kept := result.get keyed found'
    rw [if_pos chosen] at gone
    rw [if_neg apart, result.keyed.get_eq_some] at kept
    apply pruned.newest run.runId run found waits _ _ kept waits'
    rw [gone]
    exact fun same => ne_discarded waits (Option.some.inj same)
  · intro ⟨fits, older⟩
    constructor
    · rw [total]
      exact fits
    · intro id run found waits changed item member still
      have gone : run ∈ oldest runs count := by
        by_contra outside
        have stays := result.get keyed found
        rw [if_neg (by rwa [mem_oldest_ids keyed found])] at stays
        exact changed stays
      obtain ⟨listed, later⟩ := result.kept keyed member still
      cases ended : item.2.hasRunEnded with
      | true => exact oldest_le gone (mem_suspendedRuns.mpr ⟨listed, ended, still⟩) later
      | false => exact older run gone item.2 (mem_unendedSuspended.mpr ⟨listed, ended, still⟩)
    · intro id run found waits
      rw [result.get keyed found]
      split
      · exact .inr rfl
      · exact .inl rfl
    · intro fits_before
      rw [suspendedCount_eq keyed] at fits_before
      omega
    · intro id run found awake
      rw [result.get keyed found, if_neg]
      rw [mem_oldest_ids keyed found]
      intro inside
      rw [(mem_suspendedRuns.mp (mem_oldest inside)).2.2] at awake
      cases awake

/-- A backlog within the cap is left alone. -/
theorem pruned_self_iff (keyed : Keyed runs) : Pruned config runs runs ↔
    ((runs.suspendedRuns.length + (unendedSuspended runs).length : Nat) : Int) ≤
      config.deliverySuspendSoftCap := by
  rw [← suspendedCount_eq keyed]
  constructor
  · exact fun pruned => pruned.capped
  · intro fits
    exact
      { capped := fits
        newest := fun id run found waits changed => absurd found changed
        discarded := fun id run found waits => .inl found
        within := fun _ => rfl
        others := fun id run found awake => found }

/-- One prune brings the suspended deliveries down to the soft cap exactly when the backlog and the
target leave no more than that. -/
theorem pressure_prune_iff (config : PressureConfig) (maxRetained : Nat)
    (registry : LiveRegistry maxRetained) :
    Pruned config registry.runs
        (registry.runs.pressurePruneSuspendedDeliveries config maxRetained).1 ↔
      CatchesUp config registry.runs := by
  obtain ⟨runs, keyed, retained⟩ := registry
  unfold Registry.pressurePruneSuspendedDeliveries CatchesUp
  dsimp only
  by_cases fits : (runs.suspendedRuns.length : Int) ≤ config.deliverySuspendSoftCap
  · rw [if_pos fits, if_pos fits, pruned_self_iff keyed]
    omega
  · rw [if_neg fits, if_neg fits]
    have result := discarded_oldest keyed retained
      (Registry.toPruneCount config runs.suspendedRuns.length).toNat
    have exceeds : config.deliverySuspendSoftCap < runs.suspendedRuns.length := by omega
    refine (result.pruned_iff keyed exceeds).trans ?_
    have left : ((runs.suspendedRuns.length -
          (Registry.toPruneCount config runs.suspendedRuns.length).toNat +
          (unendedSuspended runs).length : Nat) : Int) ≤ config.deliverySuspendSoftCap ↔
        Registry.targetCount config runs.suspendedRuns.length + (unendedSuspended runs).length ≤
          config.deliverySuspendSoftCap := by
      unfold Registry.toPruneCount Registry.targetCount
      omega
    rw [left]

/-! ## Three suspended deliveries and a cap of one -/

def waiting (runId : String) (since : Time) : String × SubagentRunRecord :=
  (runId, { runId, childSessionKey := "child", requesterSessionKey := "main"
            execution := { status := .terminal }
            delivery := { status := .suspended, suspendedAt := some since } })

def threeWaiting : LiveRegistry 10 :=
  { runs := [waiting "a" 1, waiting "b" 2, waiting "c" 3]
    keyed := { distinct := by decide, own := by decide }
    retained := .inl (by decide) }

/-- Two deliveries stay suspended. -/
theorem backlog_above_cap :
    ¬Pruned { deliverySuspendSoftCap := 1, deliverySuspendTarget := 1 } threeWaiting.runs
      (threeWaiting.runs.pressurePruneSuspendedDeliveries
        { deliverySuspendSoftCap := 1, deliverySuspendTarget := 1 } 10).1 := by
  intro pruned
  exact absurd pruned.capped (by decide)

end SherryAgent.Guarantees.PressurePrune
