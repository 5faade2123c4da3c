import SherryAgent.Source.Subagent.Completion

/-!
# Terminal facts of a run

The record is written whole, from copies that were read before a suspension point.

* `terminal_facts_kept` — while a fact is established only when no other operation holds
  a copy of the record, no write reverts one;
* `kill_reverts_delivery` — a kill writes back the copy from before its announce flow.
-/

namespace SherryAgent.Guarantees.TerminalFacts

open SherryAgent.Library SherryAgent.Source.Subagent SherryAgent.Source.Subagent.Completion

abbrev World := Tasks.World RunStore CompletionTask
abbrev Choice := Tasks.Choice CompletionTask CompletionInput

variable {config : DeliveryConfig} {w w' : World} {store : RunStore}
  {run copy : SubagentRunRecord} {flow : FlowEnd} {now : Time}

/-- DELIVERED or DISCARDED. -/
def isSettled (status : DeliveryStatus) : Bool := status == .delivered || status == .discarded

/-- What of the first record the second still says. -/
structure Kept (run run' : SubagentRunRecord) : Prop where
  execution : run.execution.status = .terminal →
    run'.execution.status = .terminal ∧ run'.execution.outcome = run.execution.outcome
  delivery : isSettled run.delivery.status = true → run'.delivery.status = run.delivery.status
  cleanup : run.cleanupCompletedAt.isSome = true → run'.cleanupCompletedAt.isSome = true

/-- The terminal facts of a record: its outcome, where its delivery ended, and whether it
is cleaned up. -/
def facts (run : SubagentRunRecord) : Option (Option RunOutcome) × Option DeliveryStatus × Bool :=
  (if run.execution.status = .terminal then some run.execution.outcome else none,
    if isSettled run.delivery.status then some run.delivery.status else none,
    run.cleanupCompletedAt.isSome)

/-! ## The condition -/

/-- The record that a kill writes back after its announce flow. -/
def outer : FlowEnd → List SubagentRunRecord
  | .kill run => [run]
  | _ => []

/-- The copies of the record that a task may write back. -/
def held : CompletionTask → List SubagentRunRecord
  | .merging copy flow | .capturing copy _ flow | .targeting copy _ flow | .routing copy flow =>
    copy :: outer flow
  | .dispatching copy attempted _ flow => copy :: attempted :: outer flow
  | .hooking flow | .settling flow | .settled flow | .cleaning flow => outer flow
  | .scanned _ copy => [copy]
  | _ => []

/-- No other task holds a copy of the record. -/
def Alone (w : World) (index : Nat) : Prop := ∀ task ∈ w.tasks.eraseIdx index, held task = []

/-- The condition on the task that moves next. -/
def CarefulTask (config : DeliveryConfig) (w : World) (index : Nat) :
    CompletionTask → CompletionInput → Prop
  | .complete _ _, _ | .kill _, _ | .killing _, _ => w.store.record.delivery.status ≠ .discarded ∧
      (w.store.record.execution.status ≠ .terminal → Alone w index)
  | .merging copy flow, _ => isSilentReply copy = true → Alone w index ∧ outer flow = []
  | .dispatching copy _ _ flow, .gaveUp now =>
    copy.shouldDiscardDelivery config.maxAnnounceRetryCount config.announceHardExpiryMs now = true →
      Alone w index ∧ outer flow = []
  | .routing _ flow, _ => Alone w index ∧ outer flow = []
  | .cleaning flow, _ => w.store.record.cleanupCompletedAt = none → Alone w index ∧ outer flow = []
  | .scanned .orphans copy, _ => copy.execution.status ≠ .terminal →
      Alone w index ∧ copy.delivery.status ≠ .discarded
  | .scanned .suspended copy, .next now _ =>
    copy.shouldDiscardDelivery config.maxAnnounceRetryCount config.announceHardExpiryMs now = true →
      Alone w index
  | .expire _, _ => w.store.record.delivery.status = .suspended → Alone w index
  | .activate, _ => w.store.record.swarmRunState = some .reserved →
      w.store.record.execution.status ≠ .terminal
  | _, _ => True

/-- A run is made terminal, delivered, discarded or cleaned up only while no other task
holds a copy of its record, nor the kill it happens in; no announce flow starts on a
discarded run, and no terminal run is activated. -/
def Careful (config : DeliveryConfig) (w : World) : Choice → Prop
  | .run index input => ∀ task ∈ w.tasks[index]?, CarefulTask config w index task input
  | _ => True

instance (w : World) (index : Nat) : Decidable (Alone w index) :=
  inferInstanceAs (Decidable (∀ task ∈ w.tasks.eraseIdx index, held task = []))

instance (w : World) (index : Nat) : (task : CompletionTask) → (input : CompletionInput) →
    Decidable (CarefulTask config w index task input)
  | .complete _ _, _ | .kill _, _ | .killing _, _ =>
    inferInstanceAs (Decidable (_ ≠ _ ∧ (_ ≠ _ → Alone w index)))
  | .merging _ flow, _ => inferInstanceAs (Decidable (_ = true → Alone w index ∧ outer flow = []))
  | .dispatching _ _ _ flow, .gaveUp _ =>
    inferInstanceAs (Decidable (_ = true → Alone w index ∧ outer flow = []))
  | .routing _ flow, _ => inferInstanceAs (Decidable (Alone w index ∧ outer flow = []))
  | .cleaning flow, _ => inferInstanceAs (Decidable (_ = none → Alone w index ∧ outer flow = []))
  | .scanned .orphans _, _ => inferInstanceAs (Decidable (_ ≠ _ → Alone w index ∧ _ ≠ _))
  | .scanned .suspended _, .next _ _ => inferInstanceAs (Decidable (_ = true → Alone w index))
  | .expire _, _ => inferInstanceAs (Decidable (_ = _ → Alone w index))
  | .activate, _ => inferInstanceAs (Decidable (_ = _ → _ ≠ _))
  | .dispatching _ _ _ _, .next _ _ | .dispatching _ _ _ _, .merged _ _ _ _ _
  | .dispatching _ _ _ _, .captured _ _ _ _ _ | .dispatching _ _ _ _, .redirect _
  | .dispatching _ _ _ _, .attemptFailed _ _ | .dispatching _ _ _ _, .published
  | .scanned .suspended _, .merged _ _ _ _ _ | .scanned .suspended _, .captured _ _ _ _ _
  | .scanned .suspended _, .redirect _ | .scanned .suspended _, .attemptFailed _ _
  | .scanned .suspended _, .published | .scanned .suspended _, .gaveUp _
  | .scanned .failed _, _ | .scanned .undelivered _, _ | .capturing _ _ _, _
  | .targeting _ _ _, _ | .hooking _, _ | .settling _, _ | .settled _, _ | .timer, _ | .scan _, _
  | .finalizeKilled, _ | .finished, _ => isTrue trivial

instance (w : World) : (choice : Choice) → Decidable (Careful config w choice)
  | .run index input =>
    inferInstanceAs (Decidable (∀ task ∈ w.tasks[index]?, CarefulTask config w index task input))
  | .spawn _ | .restart => isTrue trivial

/-! ## What the transitions keep -/

theorem Kept.of_facts {run' : SubagentRunRecord} (same : facts run' = facts run) :
    Kept run run' := by
  simp only [facts, Prod.mk.injEq] at same
  obtain ⟨execution, delivery, cleanup⟩ := same
  constructor
  · intro terminal
    rw [if_pos terminal] at execution
    split at execution
    · rename_i terminal'
      exact ⟨terminal', Option.some.inj execution⟩
    · cases execution
  · intro settled
    rw [if_pos settled] at delivery
    split at delivery
    · exact Option.some.inj delivery
    · cases delivery
  · intro cleaned
    rw [cleanup]
    exact cleaned

theorem Kept.trans {run' run'' : SubagentRunRecord} (first : Kept run run')
    (second : Kept run' run'') : Kept run run'' := by
  constructor
  · intro terminal
    have middle := first.execution terminal
    have last := second.execution middle.1
    exact ⟨last.1, last.2.trans middle.2⟩
  · intro settled
    have middle := first.delivery settled
    rw [← middle] at settled
    exact (second.delivery settled).trans middle
  · intro cleaned
    exact second.cleanup (first.cleanup cleaned)

/-- Two records that differ in the delivery state alone, where neither has settled it. -/
theorem facts_delivery {run' : SubagentRunRecord} (execution : run'.execution = run.execution)
    (cleanup : run'.cleanupCompletedAt = run.cleanupCompletedAt)
    (before : isSettled run.delivery.status = false)
    (after : isSettled run'.delivery.status = false) : facts run' = facts run := by
  simp [facts, execution, cleanup, before, after]

theorem facts_congr {run' : SubagentRunRecord} (execution : run'.execution = run.execution)
    (delivery : run'.delivery = run.delivery)
    (cleanup : run'.cleanupCompletedAt.isSome = run.cleanupCompletedAt.isSome) :
    facts run' = facts run := by
  simp [facts, execution, delivery, cleanup]

theorem settled_of_facts {run' : SubagentRunRecord} (same : facts run' = facts run) :
    isSettled run'.delivery.status = isSettled run.delivery.status := by
  simp only [facts, Prod.mk.injEq] at same
  have delivery := same.2.1
  by_cases settled : isSettled run.delivery.status = true
  · rw [if_pos settled] at delivery
    split at delivery
    · rename_i settled'
      rw [settled', settled]
    · cases delivery
  · rw [if_neg settled] at delivery
    split at delivery
    · cases delivery
    · rename_i unsettled
      rw [Bool.not_eq_true] at settled unsettled
      rw [settled, unsettled]

theorem terminal_of_facts {run' : SubagentRunRecord} (same : facts run' = facts run) :
    run'.execution.status = .terminal ↔ run.execution.status = .terminal := by
  simp only [facts, Prod.mk.injEq] at same
  have execution := same.1
  by_cases terminal : run.execution.status = .terminal
  · rw [if_pos terminal] at execution
    split at execution
    · rename_i terminal'
      exact ⟨fun _ => terminal, fun _ => terminal'⟩
    · cases execution
  · rw [if_neg terminal] at execution
    split at execution
    · cases execution
    · rename_i live
      exact ⟨fun h => absurd h live, fun h => absurd h terminal⟩

variable {outcome : RunOutcome} {resultText : Option String}

/-- The arbitration and the owner leave the facts. -/
theorem arbitrate_frame (run : SubagentRunRecord) (outcome : RunOutcome) :
    (run.arbitrateKillVsCompletion outcome).execution = run.execution ∧
      (run.arbitrateKillVsCompletion outcome).delivery = run.delivery ∧
      (run.arbitrateKillVsCompletion outcome).cleanupCompletedAt = run.cleanupCompletedAt := by
  unfold SubagentRunRecord.arbitrateKillVsCompletion
  split
  · simp
  · split
    · simp
    · split <;> simp [SubagentRunRecord.reconcile]

theorem owner_frame (run : SubagentRunRecord) (owner : String) :
    (run.markTerminalOwner owner).execution = run.execution ∧
      (run.markTerminalOwner owner).delivery = run.delivery ∧
      (run.markTerminalOwner owner).cleanupCompletedAt = run.cleanupCompletedAt := by
  unfold SubagentRunRecord.markTerminalOwner
  split <;> simp

theorem complete_frame (run : SubagentRunRecord) (outcome : RunOutcome)
    (resultText : Option String) (now : Time) :
    (run.complete outcome resultText now).delivery = run.delivery ∧
      (run.complete outcome resultText now).cleanupCompletedAt = run.cleanupCompletedAt ∧
      (run.complete outcome resultText now).execution.status = .terminal ∧
      (run.execution.status = .terminal →
        (run.complete outcome resultText now).execution = run.execution) := by
  unfold SubagentRunRecord.complete
  split
  · rename_i terminal
    exact ⟨rfl, rfl, terminal, fun _ => rfl⟩
  · rename_i live
    exact ⟨rfl, rfl, rfl, fun terminal => absurd terminal live⟩

/-- A completion ends a live run, and leaves the facts of a terminal one. -/
theorem completedBy_frame (run : SubagentRunRecord) (outcome : RunOutcome)
    (resultText : Option String) (now : Time) :
    (run.completedBy outcome resultText now).delivery = run.delivery ∧
      (run.completedBy outcome resultText now).cleanupCompletedAt = run.cleanupCompletedAt ∧
      (run.completedBy outcome resultText now).execution.status = .terminal ∧
      (run.execution.status = .terminal →
        (run.completedBy outcome resultText now).execution = run.execution) := by
  obtain ⟨execution, delivery, cleanup⟩ := arbitrate_frame run outcome
  obtain ⟨delivery', cleanup', terminal', same⟩ := complete_frame
    (run.arbitrateKillVsCompletion outcome) outcome resultText now
  obtain ⟨execution'', delivery'', cleanup''⟩ := owner_frame
    ((run.arbitrateKillVsCompletion outcome).complete outcome resultText now)
    ("outcome:" ++ SubagentRunRecord.outcomeValue outcome.status)
  unfold SubagentRunRecord.completedBy
  refine ⟨?_, ?_, ?_, ?_⟩
  · rw [delivery'', delivery', delivery]
  · rw [cleanup'', cleanup', cleanup]
  · rw [execution'']
    exact terminal'
  · intro terminal
    rw [execution'', same (by rw [execution]; exact terminal), execution]

theorem reconciled_frame (run : SubagentRunRecord) (now : Time) :
    (reconciled run now).delivery = run.delivery ∧
      (reconciled run now).cleanupCompletedAt = run.cleanupCompletedAt ∧
      (reconciled run now).execution.status = .terminal := by
  unfold reconciled
  generalize ended : { run with
    execution := {
      status := .terminal
      startedAt := run.execution.startedAt
      endedAt := some now
      outcome := some { status := .timeout, error := some "orphaned" } }
    endedReason := some "orphaned" } = updated
  obtain ⟨execution, delivery, cleanup⟩ := owner_frame updated "orphan-recovery"
  rw [execution, delivery, cleanup, ← ended]
  exact ⟨rfl, rfl, rfl⟩

theorem kept_completedBy (run : SubagentRunRecord) (outcome : RunOutcome)
    (resultText : Option String) (now : Time) :
    Kept run (run.completedBy outcome resultText now) := by
  obtain ⟨delivery, cleanup, terminal, same⟩ := completedBy_frame run outcome resultText now
  constructor
  · intro ended
    rw [same ended]
    exact ⟨ended, rfl⟩
  · intro _
    rw [delivery]
  · intro cleaned
    rw [cleanup]
    exact cleaned

theorem facts_completedBy (terminal : run.execution.status = .terminal) :
    facts (run.completedBy outcome resultText now) = facts run := by
  obtain ⟨delivery, cleanup, -, same⟩ := completedBy_frame run outcome resultText now
  simp [facts, delivery, cleanup, same terminal]

/-! ## Parts of the announce flow that establish nothing -/

/-- The copies the announce flow goes on with. -/
def flowCopies : CompletionTask → List SubagentRunRecord
  | .merging copy _ | .capturing copy _ _ | .targeting copy _ _ | .routing copy _ => [copy]
  | .dispatching copy attempted _ _ => [copy, attempted]
  | _ => []

def flowOf : CompletionTask → Option FlowEnd
  | .merging _ flow | .capturing _ _ flow | .targeting _ _ flow | .dispatching _ _ _ flow
  | .routing _ flow | .hooking flow | .settling flow | .settled flow | .cleaning flow => some flow
  | _ => none

/-- The record a kill holds says what the registry's says. -/
def Agrees (store : RunStore) (flow : FlowEnd) : Prop :=
  ∀ copy ∈ outer flow, facts copy = facts store.record

/-- A result that leaves the facts, whose copies agree with them. -/
structure Steady (store : RunStore) (flow : FlowEnd) (result : RunStore × CompletionTask) :
    Prop where
  record : facts result.1.record = facts store.record
  copies : ∀ copy ∈ held result.2, facts copy = facts store.record
  opened : ∀ copy ∈ flowCopies result.2, isSettled copy.delivery.status = false
  within : ∀ other ∈ flowOf result.2, other = flow

theorem Steady.rest (agrees : Agrees store flow) (after : RunStore)
    (record : facts after.record = facts store.record) (task : CompletionTask)
    (copies : held task = outer flow) (opened : flowCopies task = [])
    (within : flowOf task = some flow) : Steady store flow (after, task) := by
  constructor
  · exact record
  · rw [copies]
    exact agrees
  · simp [opened]
  · simp [within]

theorem Steady.finished (after : RunStore) (record : facts after.record = facts store.record) :
    Steady store flow (after, .finished) := by
  constructor
  · exact record
  · simp [held]
  · simp [flowCopies]
  · simp [flowOf]

theorem steady_afterFlow (agrees : Agrees store flow) (after : RunStore)
    (record : facts after.record = facts store.record) :
    Steady store flow (after, afterFlow flow) := by
  cases flow with
  | scan => exact Steady.finished after record
  | _ => exact Steady.rest agrees after record _ rfl rfl rfl

theorem endFlow_facts (agrees : Agrees store flow) (after : RunStore)
    (record : facts after.record = facts store.record) :
    facts (endFlow after flow).record = facts store.record := by
  cases flow with
  | kill run => exact agrees run (by simp [outer])
  | _ => exact record

theorem unsettled (undelivered : copy.delivery.status ≠ .delivered)
    (undiscarded : copy.delivery.status ≠ .discarded) :
    isSettled copy.delivery.status = false := by
  simp [isSettled, undelivered, undiscarded]

/-- A flow over a copy that agrees with the record. -/
theorem Steady.flowing (agrees : Agrees store flow) (after : RunStore)
    (record : facts after.record = facts store.record) (task : CompletionTask)
    (same : facts copy = facts store.record) (copies : held task = copy :: outer flow)
    (opened : flowCopies task = [copy]) (open_copy : isSettled copy.delivery.status = false)
    (within : flowOf task = some flow) : Steady store flow (after, task) := by
  constructor
  · exact record
  · rw [copies]
    intro other member
    rcases List.mem_cons.mp member with rfl | outside
    · exact same
    · exact agrees other outside
  · rw [opened]
    intro other member
    rw [List.mem_singleton.mp member]
    exact open_copy
  · simp [within]

theorem steady_announce (agrees : Agrees store flow) (after : RunStore)
    (record : facts after.record = facts store.record) (same : facts copy = facts store.record)
    (undiscarded : copy.delivery.status ≠ .discarded) :
    Steady store flow (after, announce copy flow) := by
  unfold announce
  split
  · rename_i due
    exact Steady.flowing agrees after record _ same rfl rfl (unsettled due.2.2.1 undiscarded) rfl
  · exact steady_afterFlow agrees after record

theorem suspended_facts (pending : isSettled copy.delivery.status = false) :
    facts (copy.markDeliverySuspended now) = facts copy :=
  facts_delivery rfl rfl pending rfl

theorem steady_startAnnounce (agrees : Agrees store flow) (same : facts run = facts store.record)
    (undiscarded : run.delivery.status ≠ .discarded) (now : Time) :
    Steady store flow (startAnnounce store run flow now) := by
  unfold startAnnounce
  split
  · exact steady_afterFlow agrees store rfl
  · split
    · rename_i suspends
      apply Steady.finished
      apply endFlow_facts agrees
      have pending : run.delivery.status = .pending := by
        unfold SubagentRunRecord.shouldSuspendPendingFinalDelivery at suspends
        simp only [Bool.and_eq_true, beq_iff_eq] at suspends
        exact suspends.2
      exact (suspended_facts (by simp [pending, isSettled])).trans same
    · split
      · exact steady_announce agrees store rfl same undiscarded
      · exact steady_afterFlow agrees store rfl

theorem steady_deliver (agrees : Agrees store flow) (after : RunStore)
    (record : facts after.record = facts store.record) (same : facts copy = facts store.record)
    (open_copy : isSettled copy.delivery.status = false) (deferred deduplicated : Bool)
    (pendingCount : Nat) : Steady store flow
      (deliver config after copy flow now deferred deduplicated pendingCount) := by
  unfold deliver
  split
  · exact Steady.rest agrees after record _ rfl rfl rfl
  · split
    · exact Steady.rest agrees _ ((suspended_facts open_copy).trans same) _ rfl rfl rfl
    · have opens : facts (copy.markDeliveryInProgress now) = facts copy :=
        facts_delivery rfl rfl open_copy rfl
      have written := opens.trans same
      exact Steady.flowing agrees _ written _ written rfl rfl rfl rfl

theorem steady_report (agrees : Agrees store flow) (after : RunStore)
    (record : facts after.record = facts store.record) (same : facts copy = facts store.record)
    (open_copy : isSettled copy.delivery.status = false) (block : Option String)
    (deferred deduplicated : Bool) (pendingCount : Nat) : Steady store flow
      (report config after copy block flow now deferred deduplicated pendingCount) := by
  cases block with
  | none => exact steady_deliver agrees after record same open_copy _ _ _
  | some block =>
    unfold report
    dsimp only
    split
    · exact steady_deliver agrees after record same open_copy _ _ _
    · generalize copy.completion.resultText.getD "" ++ "\n\n" ++ block = text
      have attached : facts (withResult after text).record = facts store.record := record
      have fresh : isSettled (withResult after text).record.delivery.status = false := by
        rw [settled_of_facts (attached.trans same.symm)]
        exact open_copy
      exact steady_deliver agrees _ attached attached fresh _ _ _

theorem steady_captured (agrees : Agrees store flow) (same : facts copy = facts store.record)
    (open_copy : isSettled copy.delivery.status = false) (block text : Option String)
    (deferred deduplicated : Bool) (pendingCount : Nat) : Steady store flow
      (captured config store copy block text flow now deferred deduplicated pendingCount) := by
  cases text with
  | none => exact steady_report agrees store rfl same open_copy _ _ _ _
  | some text =>
    unfold captured
    dsimp only
    split
    · exact steady_report agrees store rfl same open_copy _ _ _ _
    · have updated : facts (withResult store text).record = facts store.record := rfl
      have fresh : isSettled (withResult store text).record.delivery.status = false := by
        rw [settled_of_facts (updated.trans same.symm)]
        exact open_copy
      exact steady_report agrees _ updated updated fresh _ _ _ _

theorem steady_merged (agrees : Agrees store flow) (same : facts copy = facts store.record)
    (open_copy : isSettled copy.delivery.status = false) (spoken : isSilentReply copy ≠ true)
    (block : Option String) (deferred deduplicated : Bool) (pendingCount : Nat) :
    Steady store flow
      (merged config store copy block flow now deferred deduplicated pendingCount) := by
  unfold merged
  rw [if_neg spoken]
  split
  · exact Steady.flowing agrees store rfl _ same rfl rfl open_copy rfl
  · exact steady_report agrees store rfl same open_copy _ _ _ _

/-! ## The invariant -/

structure Inv (w : World) : Prop where
  same : ∀ task ∈ w.tasks, ∀ copy ∈ held task, facts copy = facts w.store.record
  opened : ∀ task ∈ w.tasks, ∀ copy ∈ flowCopies task, isSettled copy.delivery.status = false
  ended : ∀ task ∈ w.tasks, ∀ flow ∈ flowOf task, (FlowEnd.run flow).isSome = true →
    w.store.record.execution.status = .terminal

variable {task after : CompletionTask} {before later : List CompletionTask}

theorem mem_around {other : CompletionTask} (tasks' : w'.tasks = before ++ after :: later)
    (member : other ∈ w'.tasks) : other = after ∨ other ∈ before ++ later := by
  rw [tasks'] at member
  simp only [List.mem_append, List.mem_cons] at member ⊢
  tauto

theorem mem_others {other : CompletionTask} (tasks : w.tasks = before ++ task :: later)
    (member : other ∈ before ++ later) : other ∈ w.tasks := by
  rw [tasks]
  simp only [List.mem_append, List.mem_cons] at member ⊢
  tauto

/-- A step that keeps the facts; it establishes one only where no other copy is held. -/
theorem Inv.move (inv : Inv w) (tasks : w.tasks = before ++ task :: later)
    (tasks' : w'.tasks = before ++ after :: later) (kept : Kept w.store.record w'.store.record)
    (frame : facts w'.store.record = facts w.store.record ∨
      ∀ other ∈ before ++ later, held other = [])
    (own : ∀ copy ∈ held after, facts copy = facts w'.store.record)
    (opened : ∀ copy ∈ flowCopies after, isSettled copy.delivery.status = false)
    (within : ∀ flow ∈ flowOf after, (FlowEnd.run flow).isSome = true →
      w'.store.record.execution.status = .terminal) :
    Inv w' ∧ Kept w.store.record w'.store.record := by
  refine ⟨?_, kept⟩
  constructor
  · intro other member copy holds
    rcases mem_around tasks' member with rfl | elsewhere
    · exact own copy holds
    · rcases frame with same | alone
      · rw [same]
        exact inv.same other (mem_others tasks elsewhere) copy holds
      · rw [alone other elsewhere] at holds
        cases holds
  · intro other member
    rcases mem_around tasks' member with rfl | elsewhere
    · exact opened
    · exact inv.opened other (mem_others tasks elsewhere)
  · intro other member flow belongs acts
    rcases mem_around tasks' member with rfl | elsewhere
    · exact within flow belongs acts
    · exact (kept.execution (inv.ended other (mem_others tasks elsewhere) flow belongs acts)).1

/-- A step that leaves the facts. -/
theorem Inv.steady (inv : Inv w) (tasks : w.tasks = before ++ task :: later)
    (tasks' : w'.tasks = before ++ after :: later) (steady : Steady w.store flow (w'.store, after))
    (acts : (FlowEnd.run flow).isSome = true → w.store.record.execution.status = .terminal) :
    Inv w' ∧ Kept w.store.record w'.store.record := by
  have same : facts w'.store.record = facts w.store.record := steady.record
  apply inv.move tasks tasks' (Kept.of_facts same) (.inl same)
  · intro copy holds
    exact (steady.copies copy holds).trans same.symm
  · exact steady.opened
  · intro other belongs other_acts
    rw [steady.within other belongs] at other_acts
    exact (terminal_of_facts same).mpr (acts other_acts)

/-- A completion of the run, by itself or in a kill. -/
theorem Inv.completes (inv : Inv w) (tasks : w.tasks = before ++ task :: later)
    (tasks' : w'.tasks = before ++ after :: later) (kills superseded : Bool)
    (same : facts store.record = facts w.store.record)
    (completes : completeSubagentRun store kills outcome resultText now superseded =
      (w'.store, after))
    (undiscarded : store.record.delivery.status ≠ .discarded)
    (alone : w.store.record.execution.status ≠ .terminal →
      ∀ other ∈ before ++ later, held other = []) :
    Inv w' ∧ Kept w.store.record w'.store.record := by
  unfold completeSubagentRun at completes
  dsimp only at completes
  split at completes
  · obtain ⟨written, task'⟩ := Prod.mk.inj completes
    subst task'
    have steady : Steady w.store .scan (w'.store, .finished) := by
      apply Steady.finished
      rw [← written]
      cases kills
      · exact same
      · exact same
    exact inv.steady tasks tasks' steady (by simp [FlowEnd.run])
  · generalize ended : store.record.completedBy outcome resultText now = updated at completes
    obtain ⟨delivery, -, terminal, -⟩ := completedBy_frame store.record outcome resultText now
    rw [ended] at delivery terminal
    have agrees : Agrees { record := updated, locked := true }
        (if kills then FlowEnd.kill updated else FlowEnd.complete updated) := by
      intro copy member
      cases kills
      · cases member
      · rw [List.mem_singleton.mp member]
    have steady := steady_startAnnounce agrees rfl (by rw [delivery]; exact undiscarded) now
    rw [completes] at steady
    have written : facts w'.store.record = facts updated := steady.record
    have kept : Kept store.record updated := by
      rw [← ended]
      exact kept_completedBy _ _ _ _
    apply inv.move tasks tasks'
    · exact ((Kept.of_facts same).trans kept).trans (Kept.of_facts written)
    · by_cases closed : w.store.record.execution.status = .terminal
      · left
        have left_alone : facts updated = facts store.record := by
          rw [← ended]
          exact facts_completedBy ((terminal_of_facts same).mpr closed)
        exact written.trans (left_alone.trans same)
      · exact .inr (alone closed)
    · intro copy holds
      exact (steady.copies copy holds).trans written.symm
    · exact steady.opened
    · intro _ _ _
      exact (terminal_of_facts written).mpr terminal

/-- A write that changes the delivery state alone, of a copy whose delivery is open. -/
theorem kept_delivery {run' : SubagentRunRecord} (execution : run'.execution = run.execution)
    (cleanup : run'.cleanupCompletedAt = run.cleanupCompletedAt)
    (before : isSettled run.delivery.status = false) : Kept run run' := by
  constructor
  · intro terminal
    rw [execution]
    exact ⟨terminal, rfl⟩
  · intro settled
    rw [before] at settled
    cases settled
  · intro cleaned
    rw [cleanup]
    exact cleaned

/-- The delivery ends, while no other copy of the record is held. -/
theorem Inv.settles (inv : Inv w) (tasks : w.tasks = before ++ task :: later)
    (tasks' : w'.tasks = before ++ after :: later) (same : facts copy = facts w.store.record)
    (open_copy : isSettled copy.delivery.status = false)
    (execution : w'.store.record.execution = copy.execution)
    (cleanup : w'.store.record.cleanupCompletedAt = copy.cleanupCompletedAt)
    (alone : ∀ other ∈ before ++ later, held other = []) (none_held : held after = [])
    (none_open : flowCopies after = [])
    (within : ∀ flow ∈ flowOf after, flowOf task = some flow) :
    Inv w' ∧ Kept w.store.record w'.store.record := by
  have here : task ∈ w.tasks := by simp [tasks]
  have kept : Kept w.store.record w'.store.record :=
    (Kept.of_facts same).trans (kept_delivery execution cleanup open_copy)
  apply inv.move tasks tasks' kept (.inr alone)
  · simp [none_held]
  · simp [none_open]
  · intro flow belongs acts
    exact (kept.execution (inv.ended task here flow (within flow belongs) acts)).1

/-- A step that writes nothing and holds nothing. -/
theorem Inv.still (inv : Inv w) (tasks : w.tasks = before ++ task :: later)
    (tasks' : w'.tasks = before ++ .finished :: later)
    (same : facts w'.store.record = facts w.store.record) :
    Inv w' ∧ Kept w.store.record w'.store.record := by
  have steady : Steady w.store .scan (w'.store, .finished) := Steady.finished _ same
  exact inv.steady tasks tasks' steady (by simp [FlowEnd.run])

/-- A scan acts on its snapshot. -/
theorem Inv.acts (inv : Inv w) {kind : Scan} {answer : Bool}
    (tasks : w.tasks = before ++ .scanned kind copy :: later)
    (tasks' : w'.tasks = before ++ after :: later)
    (acts : act config w.store kind copy now answer = (w'.store, after))
    (orphan : kind = .orphans → copy.execution.status ≠ .terminal →
      (∀ other ∈ before ++ later, held other = []) ∧ copy.delivery.status ≠ .discarded)
    (discard : kind = .suspended → copy.shouldDiscardDelivery config.maxAnnounceRetryCount
      config.announceHardExpiryMs now = true → ∀ other ∈ before ++ later, held other = []) :
    Inv w' ∧ Kept w.store.record w'.store.record := by
  have same : facts copy = facts w.store.record :=
    inv.same (.scanned kind copy) (by simp [tasks]) copy (by simp [held])
  have agrees : Agrees w.store .scan := by
    intro other member
    cases member
  have quiet : (w.store, CompletionTask.finished) = (w'.store, after) →
      Inv w' ∧ Kept w.store.record w'.store.record := by
    intro result
    obtain ⟨written, task'⟩ := Prod.mk.inj result
    subst task'
    exact inv.still tasks tasks' (by rw [← written])
  have retry : copy.delivery.status = .failed ∨ copy.delivery.status = .suspended →
      (write w.store copy.markDeliveryPending, announce copy.markDeliveryPending .scan) =
        (w'.store, after) → Inv w' ∧ Kept w.store.record w'.store.record := by
    intro waiting result
    have open_copy : isSettled copy.delivery.status = false := by
      rcases waiting with status | status <;> simp [isSettled, status]
    have pending : facts copy.markDeliveryPending = facts copy :=
      facts_delivery rfl rfl open_copy rfl
    have written := pending.trans same
    have steady := steady_announce agrees (write w.store copy.markDeliveryPending) written written
      (by simp [SubagentRunRecord.markDeliveryPending])
    rw [result] at steady
    exact inv.steady tasks tasks' steady (by simp [FlowEnd.run])
  cases kind with
  | orphans =>
    unfold act at acts
    dsimp only at acts
    split at acts
    · rename_i due
      simp only [Bool.and_eq_true, bne_iff_ne] at due
      obtain ⟨alone, undiscarded⟩ := orphan rfl due.1.1
      obtain ⟨delivery, cleanup, terminal⟩ := reconciled_frame copy now
      have agrees' : Agrees (write w.store (reconciled copy now)) (.orphan (reconciled copy now)) := by
        intro _ member
        cases member
      have itself : facts (reconciled copy now) = facts (write w.store (reconciled copy now)).record :=
        rfl
      have undiscarded' : (reconciled copy now).delivery.status ≠ .discarded := by
        rw [delivery]
        exact undiscarded
      have steady := steady_startAnnounce agrees' itself undiscarded' now
      rw [acts] at steady
      have written : facts w'.store.record = facts (reconciled copy now) := steady.record
      have kept : Kept copy (reconciled copy now) := by
        constructor
        · intro ended
          exact absurd ended due.1.1
        · intro _
          rw [delivery]
        · intro cleaned
          rw [cleanup]
          exact cleaned
      apply inv.move tasks tasks' ((Kept.of_facts same).trans (kept.trans (Kept.of_facts written)))
        (.inr alone)
      · intro other holds
        exact (steady.copies other holds).trans written.symm
      · exact steady.opened
      · intro _ _ _
        exact (terminal_of_facts written).mpr terminal
    · exact quiet acts
  | suspended =>
    unfold act at acts
    dsimp only at acts
    split at acts
    · exact quiet acts
    · rename_i due
      have waiting : copy.delivery.status = .failed ∨ copy.delivery.status = .suspended := by
        simp only [Bool.or_eq_true, Bool.and_eq_true, bne_iff_ne] at due
        tauto
      split at acts
      · rename_i discards
        obtain ⟨written, task'⟩ := Prod.mk.inj acts
        subst task'
        have open_copy : isSettled copy.delivery.status = false := by
          rcases waiting with status | status <;> simp [isSettled, status]
        exact inv.settles tasks tasks' same open_copy (by rw [← written]; rfl)
          (by rw [← written]; rfl) (discard rfl discards) rfl rfl (by simp [flowOf])
      · split at acts
        · exact quiet acts
        · split at acts
          · exact retry waiting acts
          · exact quiet acts
  | failed =>
    unfold act at acts
    dsimp only at acts
    split at acts
    · rename_i due
      simp only [Bool.and_eq_true, beq_iff_eq] at due
      exact retry (.inl due.1.2) acts
    · exact quiet acts
  | undelivered =>
    unfold act at acts
    dsimp only at acts
    split at acts
    · rename_i due
      simp only [Bool.and_eq_true, beq_iff_eq] at due
      have steady := steady_announce agrees w.store rfl same (by simp [due.1.2])
      rw [acts] at steady
      exact inv.steady tasks tasks' steady (by simp [FlowEnd.run])
    · exact quiet acts

/-! ## Steps -/

/-- `complete_swarm_run` of a terminal run writes the swarm state alone. -/
theorem facts_completeSwarm (terminal : store.record.execution.status = .terminal) :
    facts (completeSwarm store run now).record = facts store.record := by
  unfold completeSwarm
  split
  · simp [write, facts, SubagentRunRecord.complete, terminal]
  · rfl

/-- The tasks beside the one that moves. -/
theorem alone_others {index : Nat} (others : w.tasks.eraseIdx index = before ++ later)
    (alone : Alone w index) : ∀ other ∈ before ++ later, held other = [] := by
  intro other member
  rw [← others] at member
  exact alone other member

theorem Inv.ends (inv : Inv w) (tasks : w.tasks = before ++ task :: later)
    (tasks' : w'.tasks = before ++ after :: later)
    (same : some (w.store, CompletionTask.finished) = some (w'.store, after)) :
    Inv w' ∧ Kept w.store.record w'.store.record := by
  obtain ⟨store, task'⟩ := Prod.mk.inj (Option.some.inj same)
  subst task'
  exact inv.still tasks tasks' (by rw [← store])

/-- A kill from its snapshot on. -/
theorem Inv.kills (inv : Inv w) {reason : String} {superseded : Bool}
    (tasks : w.tasks = before ++ task :: later) (tasks' : w'.tasks = before ++ after :: later)
    (kills : killRun w.store reason now superseded = (w'.store, after))
    (undiscarded : w.store.record.delivery.status ≠ .discarded)
    (alone : w.store.record.execution.status ≠ .terminal →
      ∀ other ∈ before ++ later, held other = []) :
    Inv w' ∧ Kept w.store.record w'.store.record := by
  have same : facts (write w.store w.store.record.saveKillReconciliation).record =
      facts w.store.record := rfl
  exact inv.completes tasks tasks' true superseded same kills undiscarded alone

section Steps

variable {index : Nat} {input : CompletionInput}

theorem Inv.onComplete (inv : Inv w) {outcome : RunOutcome} {resultText : Option String}
    (careful : CarefulTask config w index (.complete outcome resultText) input)
    (resumes : (program config).Resumes w w' index (.complete outcome resultText) after input) :
    Inv w' ∧ Kept w.store.record w'.store.record := by
  obtain ⟨before, later, tasks, tasks', others⟩ := resumes.split_others
  have resumed := resumes.resumed
  simp only [program] at resumed
  cases input with
  | next now superseded =>
    have same : facts w.store.record = facts w.store.record := rfl
    exact inv.completes tasks tasks' false superseded same (Option.some.inj resumed) careful.1
      fun live => alone_others others (careful.2 live)
  | _ => cases resumed

theorem Inv.onKill (inv : Inv w) {reason : String}
    (careful : CarefulTask config w index (.kill reason) input)
    (resumes : (program config).Resumes w w' index (.kill reason) after input) :
    Inv w' ∧ Kept w.store.record w'.store.record := by
  obtain ⟨before, later, tasks, tasks', others⟩ := resumes.split_others
  have resumed := resumes.resumed
  simp only [program] at resumed
  cases input with
  | next now superseded =>
    rw [Completion.resume] at resumed
    split at resumed
    · exact inv.ends tasks tasks' resumed
    · split at resumed
      · obtain ⟨store, task'⟩ := Prod.mk.inj (Option.some.inj resumed)
        subst task'
        have steady : Steady w.store .scan (w'.store, .killing reason) := by
          constructor <;> simp [← store, held, flowCopies, flowOf]
        exact inv.steady tasks tasks' steady (by simp [FlowEnd.run])
      · exact inv.kills tasks tasks' (Option.some.inj resumed) careful.1
          fun live => alone_others others (careful.2 live)
  | _ => cases resumed

theorem Inv.onKilling (inv : Inv w) {reason : String}
    (careful : CarefulTask config w index (.killing reason) input)
    (resumes : (program config).Resumes w w' index (.killing reason) after input) :
    Inv w' ∧ Kept w.store.record w'.store.record := by
  obtain ⟨before, later, tasks, tasks', others⟩ := resumes.split_others
  have resumed := resumes.resumed
  simp only [program] at resumed
  cases input with
  | next now superseded =>
    rw [Completion.resume] at resumed
    split at resumed
    · exact inv.ends tasks tasks' resumed
    · exact inv.kills tasks tasks' (Option.some.inj resumed) careful.1
        fun live => alone_others others (careful.2 live)
  | _ => cases resumed

theorem Inv.onMerging (inv : Inv w)
    (careful : CarefulTask config w index (.merging copy flow) input)
    (resumes : (program config).Resumes w w' index (.merging copy flow) after input) :
    Inv w' ∧ Kept w.store.record w'.store.record := by
  obtain ⟨before, later, tasks, tasks', others⟩ := resumes.split_others
  have resumed := resumes.resumed
  simp only [program] at resumed
  have here := resumes.mem
  have copies := inv.same _ here
  have opened := inv.opened _ here
  cases input with
  | merged block now deferred deduplicated pendingCount =>
    have result := Option.some.inj resumed
    have same := copies copy (by simp [held])
    have open_copy := opened copy (by simp [flowCopies])
    by_cases silent : isSilentReply copy = true
    · obtain ⟨alone, unheld⟩ := careful silent
      unfold merged at result
      rw [if_pos silent] at result
      obtain ⟨store, task'⟩ := Prod.mk.inj result
      subst task'
      exact inv.settles tasks tasks' same open_copy (by rw [← store]; rfl)
        (by rw [← store]; rfl) (alone_others others alone) unheld rfl (by simp [flowOf])
    · have agrees : Agrees w.store flow := by
        intro other member
        exact copies other (by simp [held, member])
      have steady : Steady w.store flow
          (merged config w.store copy block flow now deferred deduplicated pendingCount) :=
        steady_merged agrees same open_copy silent block deferred deduplicated pendingCount
      rw [result] at steady
      exact inv.steady tasks tasks' steady (inv.ended _ here flow rfl)
  | _ => cases resumed

theorem Inv.onCapturing (inv : Inv w) {block : Option String}
    (resumes : (program config).Resumes w w' index (.capturing copy block flow) after input) :
    Inv w' ∧ Kept w.store.record w'.store.record := by
  obtain ⟨before, later, tasks, tasks'⟩ := resumes.split
  have resumed := resumes.resumed
  simp only [program] at resumed
  have here := resumes.mem
  have copies := inv.same _ here
  have opened := inv.opened _ here
  cases input with
  | captured text now deferred deduplicated pendingCount =>
    have result := Option.some.inj resumed
    have agrees : Agrees w.store flow := by
      intro other member
      exact copies other (by simp [held, member])
    have steady : Steady w.store flow
        (captured config w.store copy block text flow now deferred deduplicated pendingCount) :=
      steady_captured agrees (copies copy (by simp [held])) (opened copy (by simp [flowCopies]))
        block text deferred deduplicated pendingCount
    rw [result] at steady
    exact inv.steady tasks tasks' steady (inv.ended _ here flow rfl)
  | _ => cases resumed

theorem Inv.onTargeting (inv : Inv w) {pendingCount : Nat}
    (resumes : (program config).Resumes w w' index (.targeting copy pendingCount flow) after input) :
    Inv w' ∧ Kept w.store.record w'.store.record := by
  obtain ⟨before, later, tasks, tasks'⟩ := resumes.split
  have resumed := resumes.resumed
  simp only [program] at resumed
  have here := resumes.mem
  have copies := inv.same _ here
  have opened := inv.opened _ here
  have same := copies copy (by simp [held])
  have open_copy := opened copy (by simp [flowCopies])
  have agrees : Agrees w.store flow := by
    intro other member
    exact copies other (by simp [held, member])
  cases input with
  | redirect requesterSessionKey =>
    obtain ⟨store, task'⟩ := Prod.mk.inj (Option.some.inj resumed)
    subst task'
    have redirected : facts w'.store.record = facts w.store.record := by
      rw [← store]
      exact same
    have steady : Steady w.store flow (w'.store,
        .targeting { copy with requesterSessionKey } pendingCount flow) := by
      have moved : facts { copy with requesterSessionKey } = facts w.store.record := same
      exact Steady.flowing agrees w'.store redirected _ moved rfl rfl open_copy rfl
    exact inv.steady tasks tasks' steady (inv.ended _ here flow rfl)
  | next now answer =>
    obtain ⟨store, task'⟩ := Prod.mk.inj (Option.some.inj resumed)
    subst task'
    have steady : Steady w.store flow (w'.store, .dispatching copy copy pendingCount flow) := by
      constructor
      · rw [← store]
      · intro other member
        simp only [held, List.mem_cons] at member
        rcases member with rfl | rfl | outside
        · exact same
        · exact same
        · exact agrees other outside
      · intro other member
        simp only [flowCopies, List.mem_cons, List.not_mem_nil, or_false, or_self] at member
        rw [member]
        exact open_copy
      · simp [flowOf]
    exact inv.steady tasks tasks' steady (inv.ended _ here flow rfl)
  | _ => cases resumed

theorem Inv.onDispatching (inv : Inv w) {attempted : SubagentRunRecord} {pendingCount : Nat}
    (careful : CarefulTask config w index (.dispatching copy attempted pendingCount flow) input)
    (resumes : (program config).Resumes w w' index (.dispatching copy attempted pendingCount flow) after input) :
    Inv w' ∧ Kept w.store.record w'.store.record := by
  obtain ⟨before, later, tasks, tasks', others⟩ := resumes.split_others
  have resumed := resumes.resumed
  simp only [program] at resumed
  have here := resumes.mem
  have copies := inv.same _ here
  have opened := inv.opened _ here
  have same := copies copy (by simp [held])
  have open_copy := opened copy (by simp [flowCopies])
  have agrees : Agrees w.store flow := by
    intro other member
    exact copies other (by simp [held, member])
  cases input with
  | attemptFailed error now =>
    obtain ⟨store, task'⟩ := Prod.mk.inj (Option.some.inj resumed)
    have failing : facts (attempted.markDeliveryFailed error now) = facts attempted :=
      facts_delivery rfl rfl (opened attempted (by simp [flowCopies])) rfl
    have failed := failing.trans (copies attempted (by simp [held]))
    subst task'
    have steady : Steady w.store flow (w'.store, .dispatching copy
        (attempted.markDeliveryFailed error now) pendingCount flow) := by
      constructor
      · rw [← store]
        exact failed
      · intro other member
        simp only [held, List.mem_cons] at member
        rcases member with rfl | rfl | outside
        · exact same
        · exact failed
        · exact agrees other outside
      · intro other member
        simp only [flowCopies, List.mem_cons, List.not_mem_nil, or_false] at member
        rcases member with rfl | rfl
        · exact open_copy
        · rfl
      · simp [flowOf]
    exact inv.steady tasks tasks' steady (inv.ended _ here flow rfl)
  | published =>
    obtain ⟨store, task'⟩ := Prod.mk.inj (Option.some.inj resumed)
    subst task'
    have steady : Steady w.store flow (w'.store, .routing copy flow) :=
      Steady.flowing agrees w'.store (by rw [← store]) _ same rfl rfl open_copy rfl
    exact inv.steady tasks tasks' steady (inv.ended _ here flow rfl)
  | gaveUp now =>
    obtain ⟨store, task'⟩ := Prod.mk.inj (Option.some.inj resumed)
    subst task'
    unfold giveUp at store
    split at store
    · rename_i discards
      obtain ⟨alone, unheld⟩ := careful discards
      exact inv.settles tasks tasks' same open_copy (by rw [← store]; rfl)
        (by rw [← store]; rfl) (alone_others others alone) unheld rfl (by simp [flowOf])
    · have left_alone : facts w'.store.record = facts w.store.record := by
        rw [← store]
        split
        · exact (suspended_facts open_copy).trans same
        · rfl
      have steady := Steady.rest agrees w'.store left_alone (.hooking flow) rfl rfl rfl
      exact inv.steady tasks tasks' steady (inv.ended _ here flow rfl)
  | _ => cases resumed

theorem Inv.onRouting (inv : Inv w)
    (careful : CarefulTask config w index (.routing copy flow) input)
    (resumes : (program config).Resumes w w' index (.routing copy flow) after input) :
    Inv w' ∧ Kept w.store.record w'.store.record := by
  obtain ⟨before, later, tasks, tasks', others⟩ := resumes.split_others
  have resumed := resumes.resumed
  simp only [program] at resumed
  have here := resumes.mem
  have copies := inv.same _ here
  have opened := inv.opened _ here
  cases input with
  | next now answer =>
    obtain ⟨store, task'⟩ := Prod.mk.inj (Option.some.inj resumed)
    obtain ⟨alone, unheld⟩ := careful
    subst task'
    exact inv.settles tasks tasks' (copies copy (by simp [held]))
      (opened copy (by simp [flowCopies])) (by rw [← store]; rfl) (by rw [← store]; rfl)
      (alone_others others alone) unheld rfl (by simp [flowOf])
  | _ => cases resumed

theorem Inv.onHooking (inv : Inv w)
    (resumes : (program config).Resumes w w' index (.hooking flow) after input) :
    Inv w' ∧ Kept w.store.record w'.store.record := by
  obtain ⟨before, later, tasks, tasks'⟩ := resumes.split
  have resumed := resumes.resumed
  simp only [program] at resumed
  have here := resumes.mem
  have copies := inv.same _ here
  cases input with
  | next now answer =>
    have steady : Steady w.store flow (w.store, afterFlow flow) :=
      steady_afterFlow copies w.store rfl
    rw [Option.some.inj resumed] at steady
    exact inv.steady tasks tasks' steady (inv.ended _ here flow rfl)
  | _ => cases resumed

theorem Inv.onSettling (inv : Inv w)
    (resumes : (program config).Resumes w w' index (.settling flow) after input) :
    Inv w' ∧ Kept w.store.record w'.store.record := by
  obtain ⟨before, later, tasks, tasks'⟩ := resumes.split
  have resumed := resumes.resumed
  simp only [program] at resumed
  have here := resumes.mem
  have copies := inv.same _ here
  cases input with
  | next now answer =>
    obtain ⟨store, task'⟩ := Prod.mk.inj (Option.some.inj resumed)
    have left_alone : facts w'.store.record = facts w.store.record := by
      rw [← store]
      cases held_run : FlowEnd.run flow with
      | none => rfl
      | some run =>
        exact facts_completeSwarm (inv.ended _ here flow rfl (by rw [held_run]; rfl))
    subst task'
    have steady := Steady.rest copies w'.store left_alone (.settled flow) rfl rfl rfl
    exact inv.steady tasks tasks' steady (inv.ended _ here flow rfl)
  | _ => cases resumed

theorem Inv.onSettled (inv : Inv w)
    (resumes : (program config).Resumes w w' index (.settled flow) after input) :
    Inv w' ∧ Kept w.store.record w'.store.record := by
  obtain ⟨before, later, tasks, tasks'⟩ := resumes.split
  have resumed := resumes.resumed
  simp only [program] at resumed
  have here := resumes.mem
  have copies := inv.same _ here
  cases input with
  | next now cleans =>
    rw [Completion.resume] at resumed
    split at resumed
    · obtain ⟨store, task'⟩ := Prod.mk.inj (Option.some.inj resumed)
      subst task'
      have steady := Steady.rest copies w'.store (by rw [← store]) (.cleaning flow) rfl rfl rfl
      exact inv.steady tasks tasks' steady (inv.ended _ here flow rfl)
    · obtain ⟨store, task'⟩ := Prod.mk.inj (Option.some.inj resumed)
      subst task'
      apply inv.still tasks tasks'
      rw [← store]
      exact endFlow_facts copies w.store rfl
  | _ => cases resumed

theorem Inv.onCleaning (inv : Inv w)
    (careful : CarefulTask config w index (.cleaning flow) input)
    (resumes : (program config).Resumes w w' index (.cleaning flow) after input) :
    Inv w' ∧ Kept w.store.record w'.store.record := by
  obtain ⟨before, later, tasks, tasks', others⟩ := resumes.split_others
  have resumed := resumes.resumed
  simp only [program] at resumed
  have here := resumes.mem
  have copies := inv.same _ here
  cases input with
  | next now answer =>
    obtain ⟨store, task'⟩ := Prod.mk.inj (Option.some.inj resumed)
    subst task'
    cases cleaned : w.store.record.cleanupCompletedAt with
    | some time =>
      apply inv.still tasks tasks'
      rw [← store]
      apply endFlow_facts copies
      apply facts_congr
      · rfl
      · rfl
      · rw [cleaned]
        rfl
    | none =>
      obtain ⟨alone, unheld⟩ := careful cleaned
      have written : w'.store.record =
          { w.store.record with cleanupCompletedAt := some now } := by
        rw [← store]
        cases flow with
        | kill run => simp [outer] at unheld
        | _ => rfl
      have kept : Kept w.store.record w'.store.record := by
        rw [written]
        constructor
        · intro terminal
          exact ⟨terminal, rfl⟩
        · intro _
          rfl
        · intro _
          rfl
      apply inv.move tasks tasks' kept (.inr (alone_others others alone)) <;>
        simp [held, flowCopies, flowOf]
  | _ => cases resumed

theorem Inv.onTimer (inv : Inv w)
    (resumes : (program config).Resumes w w' index .timer after input) :
    Inv w' ∧ Kept w.store.record w'.store.record := by
  obtain ⟨before, later, tasks, tasks'⟩ := resumes.split
  have resumed := resumes.resumed
  simp only [program] at resumed
  cases input with
  | next now cleans =>
    rw [Completion.resume] at resumed
    split at resumed
    · exact inv.ends tasks tasks' resumed
    · obtain ⟨store, task'⟩ := Prod.mk.inj (Option.some.inj resumed)
      subst task'
      have steady : Steady w.store .scan (w'.store, .cleaning .scan) := by
        constructor <;> simp [← store, held, outer, flowCopies, flowOf]
      exact inv.steady tasks tasks' steady (by simp [FlowEnd.run])
  | _ => cases resumed

theorem Inv.onScan (inv : Inv w) {kind : Scan}
    (resumes : (program config).Resumes w w' index (.scan kind) after input) :
    Inv w' ∧ Kept w.store.record w'.store.record := by
  obtain ⟨before, later, tasks, tasks'⟩ := resumes.split
  have resumed := resumes.resumed
  simp only [program] at resumed
  cases input with
  | next now answer =>
    obtain ⟨store, task'⟩ := Prod.mk.inj (Option.some.inj resumed)
    subst task'
    have steady : Steady w.store .scan (w'.store, .scanned kind w.store.record) := by
      constructor <;> simp [← store, held, flowCopies, flowOf]
    exact inv.steady tasks tasks' steady (by simp [FlowEnd.run])
  | _ => cases resumed

theorem Inv.onScanned (inv : Inv w) {kind : Scan}
    (careful : CarefulTask config w index (.scanned kind copy) input)
    (resumes : (program config).Resumes w w' index (.scanned kind copy) after input) :
    Inv w' ∧ Kept w.store.record w'.store.record := by
  obtain ⟨before, later, tasks, tasks', others⟩ := resumes.split_others
  have resumed := resumes.resumed
  simp only [program] at resumed
  cases input with
  | next now answer =>
    apply inv.acts tasks tasks' (Option.some.inj resumed)
    · intro orphans live
      subst orphans
      obtain ⟨alone, undiscarded⟩ := careful live
      exact ⟨alone_others others alone, undiscarded⟩
    · intro suspended discards
      subst suspended
      exact alone_others others (careful discards)
  | _ => cases resumed

theorem Inv.onExpire (inv : Inv w) {reason : String}
    (careful : CarefulTask config w index (.expire reason) input)
    (resumes : (program config).Resumes w w' index (.expire reason) after input) :
    Inv w' ∧ Kept w.store.record w'.store.record := by
  obtain ⟨before, later, tasks, tasks', others⟩ := resumes.split_others
  have resumed := resumes.resumed
  simp only [program] at resumed
  cases input with
  | next now expired =>
    rw [Completion.resume] at resumed
    split at resumed
    · rename_i due
      simp only [Bool.and_eq_true, beq_iff_eq] at due
      obtain ⟨store, task'⟩ := Prod.mk.inj (Option.some.inj resumed)
      subst task'
      exact inv.settles tasks tasks' rfl (by simp [isSettled, due.1]) (by rw [← store]; rfl)
        (by rw [← store]; rfl) (alone_others others (careful due.1)) rfl rfl (by simp [flowOf])
    · exact inv.ends tasks tasks' resumed
  | _ => cases resumed

theorem Inv.onFinalizeKilled (inv : Inv w)
    (resumes : (program config).Resumes w w' index .finalizeKilled after input) :
    Inv w' ∧ Kept w.store.record w'.store.record := by
  obtain ⟨before, later, tasks, tasks'⟩ := resumes.split
  have resumed := resumes.resumed
  simp only [program] at resumed
  cases input with
  | next now answer =>
    rw [Completion.resume] at resumed
    split at resumed
    · obtain ⟨store, task'⟩ := Prod.mk.inj (Option.some.inj resumed)
      subst task'
      have steady : Steady w.store .scan (w'.store, .cleaning .scan) := by
        constructor <;> simp [← store, held, outer, flowCopies, flowOf]
      exact inv.steady tasks tasks' steady (by simp [FlowEnd.run])
    · exact inv.ends tasks tasks' resumed
  | _ => cases resumed

theorem Inv.onActivate (inv : Inv w)
    (careful : CarefulTask config w index .activate input)
    (resumes : (program config).Resumes w w' index .activate after input) :
    Inv w' ∧ Kept w.store.record w'.store.record := by
  obtain ⟨before, later, tasks, tasks'⟩ := resumes.split
  have resumed := resumes.resumed
  simp only [program] at resumed
  cases input with
  | next now admitted =>
    rw [Completion.resume] at resumed
    split at resumed
    · rename_i due
      simp only [Bool.and_eq_true, beq_iff_eq] at due
      have live := careful due.1.1
      obtain ⟨store, task'⟩ := Prod.mk.inj (Option.some.inj resumed)
      subst task'
      apply inv.still tasks tasks'
      have running : (write w.store (activated w.store.record now)).record.execution.status ≠
          .terminal := by
        simp [write, activated]
      rw [← store]
      unfold facts
      rw [if_neg live, if_neg running]
      rfl
    · exact inv.ends tasks tasks' resumed
  | _ => cases resumed

end Steps

theorem Inv.resume (inv : Inv w) {index : Nat} {input : CompletionInput}
    (careful : CarefulTask config w index task input)
    (resumes : (program config).Resumes w w' index task after input) :
    Inv w' ∧ Kept w.store.record w'.store.record := by
  cases task with
  | complete _ _ => exact inv.onComplete careful resumes
  | kill _ => exact inv.onKill careful resumes
  | killing _ => exact inv.onKilling careful resumes
  | merging _ _ => exact inv.onMerging careful resumes
  | capturing _ _ _ => exact inv.onCapturing resumes
  | targeting _ _ _ => exact inv.onTargeting resumes
  | dispatching _ _ _ _ => exact inv.onDispatching careful resumes
  | routing _ _ => exact inv.onRouting careful resumes
  | hooking _ => exact inv.onHooking resumes
  | settling _ => exact inv.onSettling resumes
  | settled _ => exact inv.onSettled resumes
  | cleaning _ => exact inv.onCleaning careful resumes
  | timer => exact inv.onTimer resumes
  | scan _ => exact inv.onScan resumes
  | scanned _ _ => exact inv.onScanned careful resumes
  | expire _ => exact inv.onExpire careful resumes
  | finalizeKilled => exact inv.onFinalizeKilled resumes
  | activate => exact inv.onActivate careful resumes
  | finished =>
    have resumed := resumes.resumed
    cases input <;> cases resumed

theorem Inv.step (inv : Inv w) {choice : Choice} (careful : Careful config w choice)
    (stepped : (program config).step w choice = some w') :
    Inv w' ∧ Kept w.store.record w'.store.record := by
  rcases Tasks.Program.step_cases _ stepped with ⟨task, -, starts, store, tasks⟩ |
    ⟨index, input, task, after, rfl, resumes⟩ | ⟨-, restarted, -⟩
  · have quiet : held task = [] ∧ flowCopies task = [] ∧ flowOf task = none := by
      cases task <;> first | exact ⟨rfl, rfl, rfl⟩ | cases starts
    have listed : ∀ other ∈ w'.tasks, other ∈ w.tasks ∨ other = task := by
      intro other member
      rw [tasks] at member
      simpa using member
    refine ⟨?_, Kept.of_facts (by rw [store])⟩
    constructor
    · intro other member copy holds
      rw [store]
      rcases listed other member with old | rfl
      · exact inv.same other old copy holds
      · rw [quiet.1] at holds
        cases holds
    · intro other member copy goes
      rcases listed other member with old | rfl
      · exact inv.opened other old copy goes
      · rw [quiet.2.1] at goes
        cases goes
    · intro other member flow belongs
      rw [store]
      rcases listed other member with old | rfl
      · exact inv.ended other old flow belongs
      · rw [quiet.2.2] at belongs
        cases belongs
  · exact inv.resume (careful task resumes.at_index) resumes
  · cases restarted

theorem inv_start (record : SubagentRunRecord) : Inv { store := { record } } := by
  constructor <;> simp

theorem Kept.refl (run : SubagentRunRecord) : Kept run run := Kept.of_facts rfl

/-- In every run of careful steps, what the record once says of its end it says on. -/
theorem terminal_facts_kept (config : DeliveryConfig) (record : SubagentRunRecord) (w w' : World)
    (first : (program config).Runs (Careful config) { store := { record } } w)
    (further : (program config).Runs (Careful config) w w') :
    Kept w.store.record w'.store.record := by
  have inv : Inv w := first.invariant Inv (inv_start record)
    fun _ _ _ inv careful stepped => (inv.step careful stepped).1
  have both : Inv w' ∧ Kept w.store.record w'.store.record :=
    further.invariant (fun u => Inv u ∧ Kept w.store.record u.store.record)
      ⟨inv, Kept.refl _⟩ fun _ _ _ holds careful stepped =>
        ⟨(holds.1.step careful stepped).1, holds.2.trans (holds.1.step careful stepped).2⟩
  exact both.2

def running : SubagentRunRecord where
  runId := "r"
  childSessionKey := "agent:main:subagent:r"
  requesterSessionKey := "agent:main"
  execution := { status := .running, startedAt := some 0 }
  delivery := { status := .pending }

/-- The run completes, and its completion is delivered. -/
def delivered : List Choice :=
  [.spawn (.complete { status := .ok } (some "done")), .run 0 (.next 1 false),
    .run 0 (.merged none 2 false false 0), .run 0 (.next 3 false), .run 0 .published,
    .run 0 (.next 4 false)]

/-- The completion defers the cleanup to a timer, which cleans up; a second completion comes
late. -/
def cleanedUp : List Choice :=
  [.run 0 (.next 5 false), .run 0 (.next 6 false), .run 0 (.next 7 true), .spawn .timer,
    .run 1 (.next 8 false), .run 1 (.next 8 false), .spawn (.complete { status := .error } none),
    .run 2 (.next 9 false)]

theorem terminal_facts_kept_delivered :
    ∃ w w', (program {}).Runs (Careful {}) { store := { record := running } } w ∧
      (program {}).Runs (Careful {}) w w' ∧ w.store.record.delivery.status = .delivered ∧
      w'.store.record.cleanupCompletedAt = some 8 ∧ Kept w.store.record w'.store.record := by
  have played : (Machine.play (program {}).step (fun w choice => decide (Careful {} w choice))
      { store := { record := running } } delivered).any (fun w =>
        w.store.record.delivery.status == .delivered &&
        (Machine.play (program {}).step (fun w choice => decide (Careful {} w choice)) w
          cleanedUp).any fun w' => w'.store.record.cleanupCompletedAt == some 8) = true := by
    decide +kernel
  obtain ⟨w, run, test⟩ := Machine.Runs.exists_of_play played
  simp only [Bool.and_eq_true, beq_iff_eq] at test
  obtain ⟨w', run', test'⟩ := Machine.Runs.exists_of_play test.2
  have first : (program {}).Runs (Careful {}) { store := { record := running } } w :=
    run.mono fun _ _ allowed => of_decide_eq_true allowed
  have further : (program {}).Runs (Careful {}) w w' :=
    run'.mono fun _ _ allowed => of_decide_eq_true allowed
  exact ⟨w, w', first, further, test.1, by simpa using test',
    terminal_facts_kept {} running w w' first further⟩

/-- The run is killed, and its completion is delivered. -/
def killedDelivered : List Choice :=
  [.spawn (.kill "killed"), .run 0 (.next 1 false), .run 0 (.merged none 2 false false 0),
    .run 0 (.captured none 3 false false 0), .run 0 (.next 4 false), .run 0 .published,
    .run 0 (.next 5 false)]

/-- The rest of the kill, alone. -/
def killedEnds : List Choice :=
  [.run 0 (.next 6 false), .run 0 (.next 7 false), .run 0 (.next 8 false)]

/-- The record of a killed run is delivered, and pending again when the kill has ended. -/
theorem kill_reverts_delivery :
    ∃ w w', (program {}).Runs (fun _ _ => True) { store := { record := running } } w ∧
      (program {}).Runs (fun _ _ => True) w w' ∧ w.store.record.delivery.status = .delivered ∧
      w'.store.record.delivery.status = .pending ∧ ¬ Kept w.store.record w'.store.record := by
  have played : (Machine.play (program {}).step (fun _ _ => true)
      { store := { record := running } } killedDelivered).any (fun w =>
        w.store.record.delivery.status == .delivered &&
        (Machine.play (program {}).step (fun _ _ => true) w killedEnds).any fun w' =>
          w'.store.record.delivery.status == .pending) = true := by
    decide +kernel
  obtain ⟨w, run, test⟩ := Machine.Runs.exists_of_play played
  simp only [Bool.and_eq_true, beq_iff_eq] at test
  obtain ⟨w', run', test'⟩ := Machine.Runs.exists_of_play test.2
  have pending : w'.store.record.delivery.status = .pending := by simpa using test'
  refine ⟨w, w', run.mono fun _ _ _ => trivial, run'.mono fun _ _ _ => trivial, test.1, pending, ?_⟩
  intro kept
  have settled : isSettled w.store.record.delivery.status = true := by
    rw [test.1]
    rfl
  have still := kept.delivery settled
  rw [pending, test.1] at still
  cases still

end SherryAgent.Guarantees.TerminalFacts
