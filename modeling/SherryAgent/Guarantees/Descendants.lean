import Mathlib.Data.List.Perm.Basic
import SherryAgent.Library.Machine
import SherryAgent.Contracts.Subagent.Registry

/-!
# Live descendants of a session

The walk from requester to child session sees the retained records alone, and the
overflow eviction takes the oldest finished ones, inner nodes of the spawn tree too.

* `count_is_exact` — the count is that of the full spawn history as long as nothing out
  of the registry has a live run below it;
* `evicted_parent_hides_descendant` — the eviction of a finished run hides the running
  run it spawned.
-/

namespace SherryAgent.Guarantees.Descendants

open SherryAgent.Library SherryAgent.Source.Subagent SherryAgent.Contracts.Subagent

/-- The registry, and the last record written of every run it ever held. -/
structure Spawned where
  registry : Registry := []
  history : Registry := []

/-- The writing calls of the registry. -/
inductive RegistryOp where
  | setRun (run : SubagentRunRecord)
  | update (runId : String) (change : SubagentRunRecord → SubagentRunRecord)
  | delete (runId : String)

namespace Spawned

/-- The registry after a call. -/
def retained (maxRetained : Nat) (spawned : Spawned) : RegistryOp → Registry
  | .setRun run => spawned.registry.setRun maxRetained run
  | .update runId change => spawned.registry.update runId change
  | .delete runId => spawned.registry.pop runId

/-- The spawn history with a call's write: `update` writes nothing of a run the registry
does not hold, and nothing is deleted. -/
def written (spawned : Spawned) : RegistryOp → Registry
  | .setRun run => spawned.history.put run
  | .update runId change =>
    if (spawned.registry.get runId).isSome then spawned.history.update runId change
    else spawned.history
  | .delete _ => spawned.history

def step (maxRetained : Nat) (spawned : Spawned) (op : RegistryOp) : Option Spawned :=
  some { registry := spawned.retained maxRetained op, history := spawned.written op }

end Spawned

/-- The runs that descend from a session. -/
abbrev Descends (runs : Registry) (sessionKey : String) : String × SubagentRunRecord → Prop :=
  Descent.Below (fun item => item.2.requesterSessionKey) (fun item => item.2.childSessionKey)
    runs sessionKey

/-- A run that is not live, with no live run below it. -/
def Settled (history : Registry) (item : String × SubagentRunRecord) : Prop :=
  item.2.isActive = false ∧
    ∀ other, Descends history item.2.childSessionKey other → other.2.isActive = false

/-- Every run that a registry lacks of a history is settled. -/
def Covers (registry history : Registry) : Prop :=
  ∀ item ∈ history, item ∉ registry → Settled history item

/-- What a call evicts or deletes, and what was evicted or deleted before it, is settled
in the history with the call's write. -/
def SparesLive (maxRetained : Nat) (spawned : Spawned) (op : RegistryOp) : Prop :=
  Covers (spawned.retained maxRetained op) (spawned.written op)

/-! ## The registry within the history -/

variable {runs registry history : Registry} {runId : String} {maxRetained size : Nat}
  {spawned : Spawned}

/-- Every retained record is the last one written of its run. -/
structure Within (spawned : Spawned) : Prop where
  registry_keys : (spawned.registry.map (·.1)).Nodup
  history_keys : (spawned.history.map (·.1)).Nodup
  recorded : ∀ item ∈ spawned.registry, item ∈ spawned.history

theorem Within.step {spawned' : Spawned} {op : RegistryOp} (within : Within spawned)
    (stepped : spawned.step maxRetained op = some spawned') : Within spawned' := by
  have result := Option.some.inj stepped
  subst result
  cases op with
  | setRun run =>
    have evicted : (spawned.registry.setRun maxRetained run).Sublist (spawned.registry.put run) :=
      evictFrom_sublist
    constructor
    · exact (put_keys_nodup within.registry_keys).sublist (evicted.map _)
    · exact put_keys_nodup within.history_keys
    · intro item member
      rcases List.mem_append.mp (evicted.subset member) with kept | new
      · have before := mem_pop.mp kept
        exact List.mem_append_left _ (mem_pop.mpr ⟨within.recorded item before.1, before.2⟩)
      · exact List.mem_append_right _ new
  | update runId change =>
    constructor
    · simp only [Spawned.retained, update_keys]
      exact within.registry_keys
    · simp only [Spawned.written]
      split
      · rw [update_keys]
        exact within.history_keys
      · exact within.history_keys
    · intro item member
      obtain ⟨old, kept, same⟩ := mem_update.mp member
      have before := within.recorded old kept
      simp only [Spawned.written]
      split
      · exact mem_update.mpr ⟨old, before, same⟩
      · rename_i absent
        have other : (old.1 == runId) = false := by
          by_contra same_key
          exact absent (get_isSome.mpr ⟨old, kept, by simpa using same_key⟩)
        rw [same, other]
        exact before
  | delete runId =>
    constructor
    · exact within.registry_keys.sublist (List.filter_sublist.map _)
    · exact within.history_keys
    · intro item member
      exact within.recorded item (mem_pop.mp member).1

/-! ## The count -/

/-- A live run is found through retained records only, when all that is not retained is
settled. -/
theorem descends_retained {sessionKey : String} {item : String × SubagentRunRecord}
    (covers : Covers registry history) (descends : Descends history sessionKey item)
    (live : item.2.isActive = true ∨
      ∃ other, Descends history item.2.childSessionKey other ∧ other.2.isActive = true) :
    Descends registry sessionKey item := by
  have retained : ∀ entry : String × SubagentRunRecord, entry ∈ history →
      (entry.2.isActive = true ∨
        ∃ other, Descends history entry.2.childSessionKey other ∧ other.2.isActive = true) →
      entry ∈ registry := by
    intro entry member carries
    by_contra gone
    have settled := covers entry member gone
    rcases carries with active | ⟨other, below, active⟩
    · simp [settled.1] at active
    · simp [settled.2 other below] at active
  induction descends with
  | root member start => exact .root (retained _ member live) start
  | edge above member step ih =>
    rename_i parent entry
    have here := retained entry member live
    have first : Descends history parent.2.childSessionKey entry :=
      .root member (List.mem_singleton.mpr step)
    apply Descent.ReachIn.edge _ here step
    apply ih
    rcases live with active | ⟨other, below, active⟩
    · exact .inr ⟨entry, first, active⟩
    · have deeper := Descent.Below.head member below
      exact .inr ⟨other, step ▸ deeper, active⟩

/-- A count by the search is a count of the live items found. -/
theorem count_eq (runs : Registry) (sessionKey : String) :
    runs.countActiveDescendantRuns sessionKey =
      ((Descent.collect (fun item => item.2.requesterSessionKey)
        (fun item => item.2.childSessionKey) runs [] [sessionKey]).filter
          fun item => item.2.isActive).length := by
  unfold Registry.countActiveDescendantRuns Registry.listDescendantRuns
  rw [List.countP_map, List.countP_eq_length_filter]
  rfl

theorem Covers.count_eq (within : Within spawned)
    (covers : Covers spawned.registry spawned.history) (sessionKey : String) :
    spawned.registry.countActiveDescendantRuns sessionKey =
      spawned.history.countActiveDescendantRuns sessionKey := by
  rw [Descendants.count_eq, Descendants.count_eq]
  have registry_nodup : spawned.registry.Nodup := within.registry_keys.of_map _
  have history_nodup : spawned.history.Nodup := within.history_keys.of_map _
  apply List.Perm.length_eq
  apply (List.perm_ext_iff_of_nodup ((Descent.nodup_collect registry_nodup).filter _)
    ((Descent.nodup_collect history_nodup).filter _)).mpr
  intro item
  rw [List.mem_filter, List.mem_filter, Descent.mem_collect_key, Descent.mem_collect_key]
  constructor
  · intro found
    exact ⟨found.1.mono within.recorded fun _ start => start, found.2⟩
  · intro found
    exact ⟨descends_retained covers found.1 (.inl found.2), found.2⟩

/-- The count the announce flow defers on, over every sequence of registry calls: while
no call leaves a run out of the registry that is live or has a live run below it, it is
the number of PENDING and RUNNING descendants in the whole spawn history. -/
theorem count_is_exact (maxRetained : Nat) (spawned : Spawned)
    (run : Machine.Runs (Spawned.step maxRetained) (SparesLive maxRetained) {} spawned)
    (sessionKey : String) :
    spawned.registry.countActiveDescendantRuns sessionKey =
      spawned.history.countActiveDescendantRuns sessionKey := by
  have invariant := run.invariant
    (fun spawned => Within spawned ∧ Covers spawned.registry spawned.history)
    (by
      constructor
      · constructor <;> simp
      · intro item member
        cases member)
    (by
      intro before after op kept spares stepped
      constructor
      · exact kept.1.step stepped
      · have result := Option.some.inj stepped
        subst result
        exact spares)
  exact Covers.count_eq invariant.1 invariant.2 sessionKey

/-! ## An evicted parent -/

/-- A run spawned by session `a`, and the run it spawned. -/
def parentRun (status : ExecutionStatus) : SubagentRunRecord where
  runId := "parent"
  childSessionKey := "b"
  requesterSessionKey := "a"
  execution := { status }

def childRun : SubagentRunRecord where
  runId := "child"
  childSessionKey := "c"
  requesterSessionKey := "b"

/-- A run that session `a` spawned beside it, with no run below. -/
def leafRun (status : ExecutionStatus) : SubagentRunRecord where
  runId := "leaf"
  childSessionKey := "d"
  requesterSessionKey := "a"
  execution := { status }

theorem nothing_below {sessionKey : String} {item : String × SubagentRunRecord}
    (childless : ∀ item ∈ runs, item.2.requesterSessionKey ≠ sessionKey) :
    ¬Descends runs sessionKey item := by
  intro descends
  induction descends with
  | root member start => exact childless _ member (List.mem_singleton.mp start)
  | edge _ _ _ ih => exact ih

/-- With room for two records: the leaf finishes, and the third run evicts it. -/
theorem count_is_exact_spawned :
    ∃ spawned, Machine.Runs (Spawned.step 2) (SparesLive 2) {} spawned ∧
      spawned.registry.countActiveDescendantRuns "a" =
        spawned.history.countActiveDescendantRuns "a" ∧
      spawned.registry.map (·.1) = ["parent", "child"] ∧
      spawned.history.map (·.1) = ["parent", "leaf", "child"] := by
  have spares : ∀ (spawned : Spawned) (op : RegistryOp),
      spawned.retained 2 op = spawned.written op → SparesLive 2 spawned op := by
    intro spawned op same item member gone
    exact absurd (same ▸ member) gone
  have evicts : SparesLive 2
      { registry := [("parent", parentRun .running), ("leaf", leafRun .terminal)]
        history := [("parent", parentRun .running), ("leaf", leafRun .terminal)] }
      (.setRun childRun) := by
    intro item member gone
    have three : item ∈ [("parent", parentRun .running), ("leaf", leafRun .terminal),
      ("child", childRun)] := member
    have two : item ∉ [("parent", parentRun .running), ("child", childRun)] := gone
    obtain rfl : item = ("leaf", leafRun .terminal) := by
      simp only [List.mem_cons, List.not_mem_nil, or_false, not_or] at three two
      tauto
    refine ⟨rfl, fun other below => ?_⟩
    exact absurd below (nothing_below (by decide))
  have run : Machine.Runs (Spawned.step 2) (SparesLive 2) {}
      { registry := [("parent", parentRun .running), ("child", childRun)]
        history := [("parent", parentRun .running), ("leaf", leafRun .terminal),
          ("child", childRun)] } := by
    apply Relation.ReflTransGen.tail
    · apply Relation.ReflTransGen.tail
      · apply Relation.ReflTransGen.tail
        · exact Relation.ReflTransGen.single
            ⟨.setRun (parentRun .running), spares _ _ rfl, rfl⟩
        · exact ⟨.setRun (leafRun .running), spares _ _ rfl, rfl⟩
      · exact ⟨.update "leaf" fun _ => leafRun .terminal, spares _ _ rfl, rfl⟩
    · exact ⟨.setRun childRun, evicts, rfl⟩
  exact ⟨_, run, count_is_exact 2 _ run "a", rfl, rfl⟩

/-- Finished runs of another session; `n` tells them apart. -/
def finishedRun (n : Nat) : SubagentRunRecord where
  runId := String.ofList (List.replicate (n + 7) 'f')
  childSessionKey := ""
  requesterSessionKey := "other"
  execution := { status := .terminal }

/-- The registry calls: the child is spawned, its parent finishes, then so many runs of
another session. -/
def crowd (others : Nat) : List RegistryOp :=
  [.setRun (parentRun .running), .setRun childRun, .setRun (parentRun .terminal)] ++
    (List.range others).map fun n => .setRun (finishedRun n)

/-- The state after a sequence of calls. -/
def Spawned.after (maxRetained : Nat) (ops : List RegistryOp) : Spawned :=
  ops.foldl (fun spawned op =>
    { registry := spawned.retained maxRetained op, history := spawned.written op }) {}

/-- The items of the finished runs. -/
def finishedItems (others : Nat) : Registry :=
  (List.range others).map fun n => ((finishedRun n).runId, finishedRun n)

/-- The registry while the crowd fits. -/
def crowded (others : Nat) : Registry :=
  ("child", childRun) :: ("parent", parentRun .terminal) :: finishedItems others

theorem finishedRun_fresh (n : Nat) :
    ∀ item ∈ crowded n, item.1 ≠ (finishedRun n).runId := by
  intro item member same
  have lengths := congrArg (fun text : String => text.toList.length) same
  simp only [finishedRun, String.toList_ofList, List.length_replicate] at lengths
  rcases List.mem_cons.mp member with rfl | member
  · revert lengths
    simp
  · rcases List.mem_cons.mp member with rfl | member
    · revert lengths
      simp
    · obtain ⟨k, below, rfl⟩ := List.mem_map.mp member
      have smaller := List.mem_range.mp below
      simp only [finishedRun, String.toList_ofList, List.length_replicate] at lengths
      omega

theorem finishedItems_succ (n : Nat) :
    finishedItems (n + 1) = finishedItems n ++ [((finishedRun n).runId, finishedRun n)] := by
  simp [finishedItems, List.range_succ]

theorem length_finishedItems (n : Nat) : (finishedItems n).length = n := by
  simp [finishedItems]

theorem put_crowded (n : Nat) : (crowded n).put (finishedRun n) = crowded (n + 1) := by
  unfold Registry.put
  rw [pop_fresh (finishedRun_fresh n)]
  simp [crowded, finishedItems_succ]

theorem length_crowded (n : Nat) : (crowded n).length = n + 2 := by
  simp [crowded, length_finishedItems]

theorem after_crowd_succ (maxRetained others : Nat) :
    Spawned.after maxRetained (crowd (others + 1)) =
      { registry := (Spawned.after maxRetained (crowd others)).retained maxRetained
          (.setRun (finishedRun others))
        history := (Spawned.after maxRetained (crowd others)).written
          (.setRun (finishedRun others)) } := by
  simp [Spawned.after, crowd, List.range_succ]

/-- Until the cap is passed, everything is retained. -/
theorem after_crowd {maxRetained others : Nat} (fits : others + 2 ≤ maxRetained) :
    Spawned.after maxRetained (crowd others) =
      { registry := crowded others, history := crowded others } := by
  induction others with
  | zero =>
    have keeps : ∀ runs : Registry, runs.length ≤ 2 →
        Registry.evictOverflow maxRetained runs = runs := by
      intro runs short
      exact evictFrom_of_le (by omega)
    have first := keeps (Registry.put [] (parentRun .running)) (by decide)
    have second := keeps (Registry.put (Registry.put [] (parentRun .running)) childRun) (by decide)
    have third := keeps (Registry.put (Registry.put (Registry.put [] (parentRun .running)) childRun)
      (parentRun .terminal)) (by decide)
    simp only [Spawned.after, crowd, List.range_zero, List.map_nil, List.append_nil,
      List.foldl_cons, List.foldl_nil, Spawned.retained, Spawned.written, Registry.setRun]
    rw [first, second, third]
    rfl
  | succ n ih =>
    rw [after_crowd_succ, ih (by omega)]
    simp only [Spawned.retained, Spawned.written, Registry.setRun, put_crowded]
    rw [Registry.evictOverflow, evictFrom_of_le]
    rw [length_crowded]
    omega

/-- One finished run more than the cap leaves room for takes the parent. -/
theorem after_full_crowd (others : Nat) :
    Spawned.after (others + 2) (crowd (others + 1)) =
      { registry := ("child", childRun) :: finishedItems (others + 1)
        history := crowded (others + 1) } := by
  rw [after_crowd_succ, after_crowd (Nat.le_refl _)]
  simp only [Spawned.retained, Spawned.written, Registry.setRun, put_crowded]
  have evicted : Registry.evictOverflow (others + 2) (crowded (others + 1)) =
      ("child", childRun) :: finishedItems (others + 1) := by
    unfold Registry.evictOverflow
    rw [length_crowded, crowded, Registry.evictFrom, if_neg (by omega),
      if_neg (by simp [Registry.isTerminal, childRun]), Registry.evictFrom, if_neg (by omega),
      if_pos (by simp [Registry.isTerminal, parentRun]), evictFrom_of_le (by omega)]
  rw [evicted]

theorem child_descends (others : Nat) : Descends (crowded others) "a" ("child", childRun) := by
  have parent : Descends (crowded others) "a" ("parent", parentRun .terminal) := by
    apply Descent.ReachIn.root
    · simp [crowded]
    · simp [parentRun]
  apply Descent.ReachIn.edge parent
  · simp [crowded]
  · rfl

theorem no_run_of_a (others : Nat) :
    Registry.countActiveDescendantRuns (("child", childRun) :: finishedItems others) "a" = 0 := by
  have none : Descent.children (fun item : String × SubagentRunRecord => item.2.requesterSessionKey)
      (("child", childRun) :: finishedItems others) "a" = [] := by
    unfold Descent.children
    apply List.filter_eq_nil_iff.mpr
    intro item member
    rcases List.mem_cons.mp member with rfl | member
    · simp [childRun]
    · obtain ⟨k, -, rfl⟩ := List.mem_map.mp member
      simp [finishedRun]
  rw [count_eq, Descent.collect, if_neg (by simp), none]
  simp [Descent.collect]

/-- With the configured cap of 2000: session `a` spawned a run, which spawned a run that is
still running; after 1999 finished runs of another session the count for `a` is 0. -/
theorem evicted_parent_hides_descendant :
    ("child", childRun) ∈ (Spawned.after 2000 (crowd 1999)).registry ∧
      Descends (Spawned.after 2000 (crowd 1999)).history "a" ("child", childRun) ∧
      (Spawned.after 2000 (crowd 1999)).registry.countActiveDescendantRuns "a" ≠
        (Spawned.after 2000 (crowd 1999)).history.countActiveDescendantRuns "a" := by
  have state := after_full_crowd 1998
  rw [state]
  have below := child_descends 1999
  have counted : 0 < (crowded 1999).countActiveDescendantRuns "a" := by
    rw [count_eq]
    apply List.length_pos_of_mem (a := ("child", childRun))
    apply List.mem_filter.mpr
    exact ⟨Descent.mem_collect_key.mpr below, rfl⟩
  refine ⟨List.mem_cons_self, below, ?_⟩
  have hidden := no_run_of_a 1999
  change Registry.countActiveDescendantRuns (("child", childRun) :: finishedItems 1999) "a" ≠ _
  rw [hidden]
  exact Nat.ne_of_lt counted

end SherryAgent.Guarantees.Descendants
