import SherryAgent.Source.Subagent.Memory

/-!
# What the registry's calls do to its items

A written run is found under its id, unless it is terminal and evicted at once; the other
runs are found as before, or are terminal and evicted.
-/

namespace SherryAgent.Contracts.Subagent

open SherryAgent.Source.Subagent

variable {runs : Registry} {runId id : String} {maxRetained size : Nat}

theorem evictFrom_sublist : (Registry.evictFrom maxRetained size runs).Sublist runs := by
  induction runs generalizing size with
  | nil => exact List.Sublist.refl _
  | cons item rest ih =>
    rw [Registry.evictFrom]
    split
    · exact List.Sublist.refl _
    · split
      · exact ih.cons item
      · exact ih.cons_cons item

theorem mem_pop {item : String × SubagentRunRecord} :
    item ∈ runs.pop runId ↔ item ∈ runs ∧ item.1 ≠ runId := by
  simp [Registry.pop]

theorem put_keys_nodup {run : SubagentRunRecord} (distinct : (runs.map (·.1)).Nodup) :
    ((runs.put run).map (·.1)).Nodup := by
  unfold Registry.put
  rw [List.map_append]
  apply List.Nodup.append
  · exact distinct.sublist (List.filter_sublist.map _)
  · simp
  · intro key kept new
    obtain ⟨item, member, same⟩ := List.mem_map.mp kept
    have away := (mem_pop.mp member).2
    have here : key = run.runId := by simpa using new
    exact away (same.trans here)

theorem update_keys (change : SubagentRunRecord → SubagentRunRecord) :
    (runs.update runId change).map (·.1) = runs.map (·.1) := by
  unfold Registry.update
  rw [List.map_map]
  apply List.map_congr_left
  intro item _
  simp only [Function.comp_apply]
  split <;> rfl

theorem mem_update {change : SubagentRunRecord → SubagentRunRecord}
    {item : String × SubagentRunRecord} :
    item ∈ runs.update runId change ↔
      ∃ old ∈ runs, item = if old.1 == runId then (old.1, change old.2) else old := by
  unfold Registry.update
  rw [List.mem_map]
  constructor
  · intro listed
    obtain ⟨old, member, same⟩ := listed
    exact ⟨old, member, same.symm⟩
  · intro listed
    obtain ⟨old, member, same⟩ := listed
    exact ⟨old, member, same.symm⟩

theorem get_isSome : (runs.get runId).isSome = true ↔ ∃ item ∈ runs, item.1 = runId := by
  simp [Registry.get]

theorem pop_fresh {runs : Registry} {runId : String} (fresh : ∀ item ∈ runs, item.1 ≠ runId) :
    runs.pop runId = runs := by
  unfold Registry.pop
  apply List.filter_eq_self.mpr
  intro item member
  simpa using fresh item member

theorem evictFrom_of_le {maxRetained size : Nat} {runs : Registry} (fits : size ≤ maxRetained) :
    Registry.evictFrom maxRetained size runs = runs := by
  cases runs with
  | nil => rfl
  | cons item rest => rw [Registry.evictFrom, if_pos fits]

/-- Distinct keys, each the id of its record. -/
structure Keyed (runs : Registry) : Prop where
  distinct : (runs.map (·.1)).Nodup
  own : ∀ item ∈ runs, item.2.runId = item.1

variable {run old : SubagentRunRecord}

theorem Keyed.get_eq_some (keyed : Keyed runs) : runs.get id = some run ↔ (id, run) ∈ runs := by
  unfold Registry.get
  constructor
  · intro found
    obtain ⟨item, at_key, same⟩ := Option.map_eq_some_iff.mp found
    have key : item.1 = id := by simpa using List.find?_some at_key
    have member := List.mem_of_find?_eq_some at_key
    rw [← key, ← same]
    exact member
  · intro member
    cases found : runs.find? fun item => item.1 == id with
    | none =>
      have absent := List.find?_eq_none.mp found (id, run) member
      simp at absent
    | some item =>
      have key : item.1 = id := by simpa using List.find?_some found
      have same := List.inj_on_of_nodup_map keyed.distinct (List.mem_of_find?_eq_some found) member
        key
      rw [same]
      rfl

theorem Keyed.get_runId (keyed : Keyed runs) (found : runs.get id = some run) :
    run.runId = id :=
  keyed.own (id, run) (keyed.get_eq_some.mp found)

theorem Keyed.sublist {fewer : Registry} (keyed : Keyed runs) (sublist : fewer.Sublist runs) :
    Keyed fewer := by
  constructor
  · exact keyed.distinct.sublist (sublist.map _)
  · intro item member
    exact keyed.own item (sublist.subset member)

theorem Keyed.put (keyed : Keyed runs) (run : SubagentRunRecord) : Keyed (runs.put run) := by
  constructor
  · exact put_keys_nodup keyed.distinct
  · intro item member
    rcases List.mem_append.mp member with kept | new
    · exact keyed.own item (mem_pop.mp kept).1
    · rw [List.mem_singleton.mp new]

theorem setRun_sublist : (runs.setRun maxRetained run).Sublist (runs.put run) := evictFrom_sublist

theorem Keyed.setRun (keyed : Keyed runs) (run : SubagentRunRecord) :
    Keyed (runs.setRun maxRetained run) :=
  (keyed.put run).sublist setRun_sublist

theorem get_put : (runs.put run).get id = if id = run.runId then some run else runs.get id := by
  have kept : (runs.pop run.runId).find? (fun item => item.1 == id) =
      if id = run.runId then none else runs.find? fun item => item.1 == id := by
    unfold Registry.pop
    rw [List.find?_filter]
    split
    · rename_i same
      apply List.find?_eq_none.mpr
      simp [same]
    · rename_i away
      congr 1
      funext item
      by_cases here : item.1 = id
      · simp [here, away]
      · simp [here]
  unfold Registry.get Registry.put
  rw [List.find?_append, kept]
  by_cases same : id = run.runId
  · simp [same]
  · have away : (run.runId == id) = false := by simpa using fun h : run.runId = id => same h.symm
    simp [same, away]

theorem mem_evictFrom {item : String × SubagentRunRecord} (member : item ∈ runs)
    (live : item.2.execution.status ≠ .terminal) :
    item ∈ Registry.evictFrom maxRetained size runs := by
  induction runs generalizing size with
  | nil => cases member
  | cons first rest ih =>
    rw [Registry.evictFrom]
    split
    · exact member
    · rcases List.mem_cons.mp member with rfl | later
      · rw [if_neg (by simpa [Registry.isTerminal] using live)]
        exact List.mem_cons_self
      · split
        · exact ih later
        · exact List.mem_cons_of_mem _ (ih later)

/-- A run is found as written, or it is terminal and evicted. -/
theorem Keyed.get_setRun (keyed : Keyed runs) (maxRetained : Nat) (run : SubagentRunRecord)
    (id : String) :
    (runs.setRun maxRetained run).get id = (if id = run.runId then some run else runs.get id) ∨
      (runs.setRun maxRetained run).get id = none ∧
        ∃ gone, (if id = run.runId then some run else runs.get id) = some gone ∧
          gone.execution.status = .terminal := by
  rw [← get_put]
  cases before : (runs.put run).get id with
  | none =>
    left
    by_contra found
    obtain ⟨record, at_id⟩ := Option.ne_none_iff_exists'.mp found
    have member := (keyed.setRun run).get_eq_some.mp at_id
    have inside := (keyed.put run).get_eq_some.mpr (setRun_sublist.subset member)
    rw [before] at inside
    cases inside
  | some record =>
    have member := (keyed.put run).get_eq_some.mp before
    cases after : (runs.setRun maxRetained run).get id with
    | none =>
      right
      refine ⟨rfl, record, rfl, ?_⟩
      by_contra live
      have kept : (id, record) ∈ runs.setRun maxRetained run := mem_evictFrom member live
      rw [(keyed.setRun run).get_eq_some.mpr kept] at after
      cases after
    | some found =>
      left
      have inside := setRun_sublist.subset ((keyed.setRun run).get_eq_some.mp after)
      rw [← (keyed.put run).get_eq_some.mpr inside, before]

/-! ## Counts of live runs -/

variable {p : SubagentRunRecord → Bool}

theorem countP_evictFrom (live : ∀ run, p run = true → run.execution.status ≠ .terminal) :
    (Registry.evictFrom maxRetained size runs).countP (fun item => p item.2) =
      runs.countP fun item => p item.2 := by
  induction runs generalizing size with
  | nil => rfl
  | cons item rest ih =>
    rw [Registry.evictFrom]
    split
    · rfl
    · split
      · rename_i terminal
        have uncounted : p item.2 = false := by
          by_contra counted
          have alive := live item.2 (by simpa using counted)
          simp [Registry.isTerminal] at terminal
          exact alive terminal
        rw [ih, List.countP_cons_of_neg (by simp [uncounted])]
      · rw [List.countP_cons, List.countP_cons, ih]

theorem Keyed.countP_pop (keyed : Keyed runs) (p : SubagentRunRecord → Bool) (id : String) :
    runs.countP (fun item => p item.2) =
      (runs.pop id).countP (fun item => p item.2) + (runs.get id).toList.countP p := by
  induction runs with
  | nil => rfl
  | cons first rest ih =>
    have later := ih (keyed.sublist (List.sublist_cons_self _ _))
    by_cases here : first.1 = id
    · have fresh : ∀ item ∈ rest, item.1 ≠ id := by
        intro item member same
        have apart := (List.nodup_cons.mp keyed.distinct).1
        have listed : item.1 ∈ rest.map (·.1) := List.mem_map_of_mem member
        rw [same, ← here] at listed
        exact apart listed
      have popped : Registry.pop (first :: rest) id = rest := by
        have kept := pop_fresh fresh
        unfold Registry.pop at kept ⊢
        rw [List.filter_cons_of_neg (by simp [here])]
        exact kept
      have found : Registry.get (first :: rest) id = some first.2 := by
        simp [Registry.get, here]
      rw [popped, found, List.countP_cons]
      simp [List.countP_cons]
    · have popped : Registry.pop (first :: rest) id = first :: Registry.pop rest id := by
        simp [Registry.pop, here]
      have found : Registry.get (first :: rest) id = Registry.get rest id := by
        simp [Registry.get, here]
      rw [popped, found, List.countP_cons, List.countP_cons, later]
      omega

/-- Writing a run replaces what it counted for. -/
theorem Keyed.countP_setRun (keyed : Keyed runs)
    (live : ∀ run, p run = true → run.execution.status ≠ .terminal) (maxRetained : Nat)
    (run : SubagentRunRecord) :
    (runs.setRun maxRetained run).countP (fun item => p item.2) +
        (runs.get run.runId).toList.countP p =
      runs.countP (fun item => p item.2) + [run].countP p := by
  unfold Registry.setRun Registry.evictOverflow
  rw [countP_evictFrom live, Registry.put, List.countP_append, keyed.countP_pop p run.runId]
  simp [List.countP_cons]
  omega

end SherryAgent.Contracts.Subagent
