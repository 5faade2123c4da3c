import SherryAgent.Contracts.Subagent.Registry
import SherryAgent.Source.Subagent.Swarm

/-!
# What the scheduler's operations do to its store

A reserved run is live and stays in the queue until it is activated or failed. A copy of a
terminal run is written back over a terminal record, or over none.
-/

namespace SherryAgent.Contracts.Subagent.Swarm

open SherryAgent.Source.Subagent SherryAgent.Source.Subagent.Swarm

variable {maxRetained : Nat} {config : SwarmGroupConfig} {store : SwarmStore}
  {run new copy : SubagentRunRecord} {id : String} {now : Time} {budget : Int}

/-- A run in the queue: it waits, or has failed. -/
def Queued (run : SubagentRunRecord) : Prop :=
  run.swarmRunState = some .reserved ∨
    run.swarmRunState = some .failed ∧ run.execution.status = .terminal

structure StoreOk (config : SwarmGroupConfig) (store : SwarmStore) : Prop where
  keyed : Keyed store.runs
  order : (store.activated ++ store.queue).Sublist store.reserved
  distinct : store.reserved.Nodup
  never : store.revived = []
  known : ∀ id run, store.runs.get id = some run → id ∈ store.reserved
  group : ∀ id run, store.runs.get id = some run → ofGroup config run = true
  live : ∀ id run, store.runs.get id = some run → run.swarmRunState = some .reserved →
    run.execution.status ≠ .terminal
  queued : ∀ id ∈ store.queue, ∀ run, store.runs.get id = some run → Queued run

/-- A run whose execution is over and that does not wait. -/
structure Over (run : SubagentRunRecord) : Prop where
  terminal : run.execution.status = .terminal
  unreserved : run.swarmRunState ≠ some .reserved

/-- A copy a task may write back. -/
structure Copy (config : SwarmGroupConfig) (store : SwarmStore) (copy : SubagentRunRecord) :
    Prop where
  itself : Over copy
  group : ofGroup config copy = true
  known : copy.runId ∈ store.reserved
  unqueued : copy.runId ∉ store.queue
  record : ∀ run, store.runs.get copy.runId = some run → Over run

/-- A live reserved run waits in the queue. -/
def Waiting (store : SwarmStore) : Prop :=
  ∃ id ∈ store.queue, ∃ run, store.runs.get id = some run ∧ run.swarmRunState = some .reserved

/-! ## A write -/

theorem over_inactive (isOver : Over run) : isActive config run = false := by
  simp [isActive, isOver.terminal]

/-- What a write leaves under an id. -/
theorem get_write (keyed : Keyed store.runs)
    (found : (write maxRetained store new).runs.get id = some run) :
    (id = new.runId ∧ run = new) ∨ (id ≠ new.runId ∧ store.runs.get id = some run) := by
  rcases keyed.get_setRun maxRetained new id with same | ⟨gone, -⟩
  · have found' : (store.runs.setRun maxRetained new).get id = some run := found
    rw [same] at found'
    split at found'
    · rename_i here
      exact .inl ⟨here, (Option.some.inj found').symm⟩
    · rename_i away
      exact .inr ⟨away, found'⟩
  · have found' : (store.runs.setRun maxRetained new).get id = some run := found
    rw [gone] at found'
    cases found'

theorem active_live (active : isActive config run = true) : run.execution.status ≠ .terminal := by
  intro terminal
  simp [isActive, terminal] at active

/-- A write replaces what the run counted for. -/
theorem countActive_write (maxRetained : Nat) (config : SwarmGroupConfig) (new : SubagentRunRecord)
    (keyed : Keyed store.runs) :
    countActive config (write maxRetained store new).runs +
        (store.runs.get new.runId).toList.countP (isActive config) =
      countActive config store.runs + [new].countP (isActive config) :=
  keyed.countP_setRun (fun _ => active_live) maxRetained new

theorem StoreOk.write (ok : StoreOk config store) (known : new.runId ∈ store.reserved)
    (group : ofGroup config new = true)
    (live : new.swarmRunState = some .reserved → new.execution.status ≠ .terminal)
    (queued : new.runId ∈ store.queue → Queued new) :
    StoreOk config (write maxRetained store new) := by
  constructor
  · exact ok.keyed.setRun new
  · exact ok.order
  · exact ok.distinct
  · exact ok.never
  · intro id run found
    rcases get_write ok.keyed found with ⟨rfl, -⟩ | ⟨-, old⟩
    · exact known
    · exact ok.known id run old
  · intro id run found
    rcases get_write ok.keyed found with ⟨-, rfl⟩ | ⟨-, old⟩
    · exact group
    · exact ok.group id run old
  · intro id run found
    rcases get_write ok.keyed found with ⟨-, rfl⟩ | ⟨-, old⟩
    · exact live
    · exact ok.live id run old
  · intro id member run found
    rcases get_write ok.keyed found with ⟨rfl, rfl⟩ | ⟨-, old⟩
    · exact queued member
    · exact ok.queued id member run old

/-- A run that is over stays over, whatever is written elsewhere. -/
theorem Copy.write (kept : Copy config store copy) (keyed : Keyed store.runs)
    (over_if : new.runId = copy.runId → Over new) :
    Copy config (write maxRetained store new) copy := by
  constructor
  · exact kept.itself
  · exact kept.group
  · exact kept.known
  · exact kept.unqueued
  · intro run found
    rcases get_write keyed found with ⟨here, rfl⟩ | ⟨-, old⟩
    · exact over_if here.symm
    · exact kept.record run old

/-- No run starts to wait by being over. -/
theorem Waiting.of_write (waits : Waiting (write maxRetained store new)) (keyed : Keyed store.runs)
    (isOver : Over new) : Waiting store := by
  obtain ⟨id, member, run, found, reserved⟩ := waits
  rcases get_write keyed found with ⟨-, rfl⟩ | ⟨-, old⟩
  · exact absurd reserved isOver.unreserved
  · exact ⟨id, member, run, old, reserved⟩

/-! ## A copy written back -/

theorem Copy.writeBack (maxRetained : Nat) (kept : Copy config store copy) (ok : StoreOk config store)
    (sameId : new.runId = copy.runId) (sameGroup : new.swarmGroupId = copy.swarmGroupId)
    (isOver : Over new) :
    StoreOk config (Swarm.write maxRetained store new) ∧
      countActive config (Swarm.write maxRetained store new).runs =
        countActive config store.runs ∧
      Copy config (Swarm.write maxRetained store new) new := by
  have known : new.runId ∈ store.reserved := by
    rw [sameId]
    exact kept.known
  have group : ofGroup config new = true := by
    have grouped := kept.group
    unfold ofGroup at grouped ⊢
    rw [sameGroup]
    exact grouped
  have unqueued : new.runId ∉ store.queue := by
    rw [sameId]
    exact kept.unqueued
  refine ⟨?_, ?_, ?_⟩
  · apply ok.write known group
    · intro reserved
      exact absurd reserved isOver.unreserved
    · intro member
      exact absurd member unqueued
  · have counted := countActive_write maxRetained config new ok.keyed
    have before : (store.runs.get new.runId).toList.countP (isActive config) = 0 := by
      rw [sameId]
      cases found : store.runs.get copy.runId with
      | none => rfl
      | some run => simp [over_inactive (kept.record run found)]
    simp [over_inactive isOver] at counted
    omega
  · constructor
    · exact isOver
    · exact group
    · exact known
    · exact unqueued
    · intro run found
      rcases get_write ok.keyed found with ⟨-, same⟩ | ⟨away, -⟩
      · rw [same]
        exact isOver
      · exact absurd rfl away

/-- The record in the registry, where there is one, is a copy like the one held. -/
theorem Copy.refresh (kept : Copy config store copy) (ok : StoreOk config store) :
    Copy config store ((store.runs.get copy.runId).getD copy) := by
  cases found : store.runs.get copy.runId with
  | none => exact kept
  | some run =>
    have itself : run.runId = copy.runId := ok.keyed.get_runId found
    constructor
    · exact kept.record run found
    · exact ok.group copy.runId run found
    · simpa [itself] using kept.known
    · simpa [itself] using kept.unqueued
    · intro other at_id
      apply kept.record
      simpa [itself] using at_id

/-! ## The ends of a run -/

theorem completed_over {outcome : RunOutcome} {resultText : Option String} :
    Over (completed run outcome resultText now) := by
  constructor
  · unfold completed SubagentRunRecord.complete
    split
    · assumption
    · rfl
  · unfold completed
    split <;> simp

@[simp] theorem completed_runId {outcome : RunOutcome} {resultText : Option String} :
    (completed run outcome resultText now).runId = run.runId := by
  unfold completed SubagentRunRecord.complete
  split <;> rfl

@[simp] theorem completed_group {outcome : RunOutcome} {resultText : Option String} :
    (completed run outcome resultText now).swarmGroupId = run.swarmGroupId := by
  unfold completed SubagentRunRecord.complete
  split <;> rfl

/-- Killing leaves the run's identity and its place in the group, and ends it. -/
theorem killed_frame (run : SubagentRunRecord) (outcome : RunOutcome) (now : Time) :
    (killed run outcome now).runId = run.runId ∧
      (killed run outcome now).swarmGroupId = run.swarmGroupId ∧
      (killed run outcome now).swarmRunState = run.swarmRunState ∧
      (killed run outcome now).execution.status = .terminal := by
  have arbitrated : ∀ run : SubagentRunRecord,
      (run.arbitrateKillVsCompletion outcome).runId = run.runId ∧
        (run.arbitrateKillVsCompletion outcome).swarmGroupId = run.swarmGroupId ∧
        (run.arbitrateKillVsCompletion outcome).swarmRunState = run.swarmRunState ∧
        (run.arbitrateKillVsCompletion outcome).execution = run.execution := by
    intro run
    unfold SubagentRunRecord.arbitrateKillVsCompletion
    split
    · simp
    · split
      · simp
      · split <;> simp [SubagentRunRecord.reconcile]
  have ended : ∀ run : SubagentRunRecord,
      ((run.complete outcome none now).markTerminalOwner "outcome:killed").runId = run.runId ∧
        ((run.complete outcome none now).markTerminalOwner "outcome:killed").swarmGroupId =
          run.swarmGroupId ∧
        ((run.complete outcome none now).markTerminalOwner "outcome:killed").swarmRunState =
          run.swarmRunState ∧
        ((run.complete outcome none now).markTerminalOwner "outcome:killed").execution.status =
          .terminal := by
    intro run
    unfold SubagentRunRecord.markTerminalOwner SubagentRunRecord.complete
    by_cases terminal : run.execution.status = .terminal
    · rw [if_pos terminal]
      split <;> simp [terminal]
    · rw [if_neg terminal]
      split <;> simp
  have first := arbitrated run.saveKillReconciliation
  have last := ended (run.saveKillReconciliation.arbitrateKillVsCompletion outcome)
  unfold killed
  refine ⟨last.1.trans first.1, last.2.1.trans first.2.1, last.2.2.1.trans first.2.2.1, last.2.2.2⟩

/-- A live run that does not wait is not in the queue. -/
theorem StoreOk.unqueued (ok : StoreOk config store) (found : store.runs.get id = some run)
    (live : run.execution.status ≠ .terminal) (unreserved : run.swarmRunState ≠ some .reserved) :
    id ∉ store.queue := by
  intro member
  rcases ok.queued id member run found with reserved | ⟨-, terminal⟩
  · exact unreserved reserved
  · exact live terminal

/-- What a write of its end leaves of a live run. -/
theorem StoreOk.finish (maxRetained : Nat) (ok : StoreOk config store) (found : store.runs.get id = some run)
    (live : run.execution.status ≠ .terminal) (unreserved : run.swarmRunState ≠ some .reserved)
    (sameId : new.runId = run.runId) (sameGroup : new.swarmGroupId = run.swarmGroupId)
    (isOver : Over new) :
    StoreOk config (Swarm.write maxRetained store new) ∧
      Copy config (Swarm.write maxRetained store new) new := by
  have itself : run.runId = id := ok.keyed.get_runId found
  have unqueued := ok.unqueued found live unreserved
  have known : new.runId ∈ store.reserved := by
    rw [sameId, itself]
    exact ok.known id run found
  have group : ofGroup config new = true := by
    have grouped := ok.group id run found
    unfold ofGroup at grouped ⊢
    rw [sameGroup]
    exact grouped
  have away : new.runId ∉ store.queue := by
    rw [sameId, itself]
    exact unqueued
  constructor
  · apply ok.write known group
    · intro reserved
      exact absurd reserved isOver.unreserved
    · intro member
      exact absurd member away
  · constructor
    · exact isOver
    · exact group
    · exact known
    · exact away
    · intro later at_id
      rcases get_write ok.keyed at_id with ⟨-, same⟩ | ⟨other, -⟩
      · rw [same]
        exact isOver
      · exact absurd rfl other

/-- A run that is over counts for nothing: the count does not grow by writing one. -/
theorem countActive_write_over (keyed : Keyed store.runs) (isOver : Over new) :
    countActive config (write maxRetained store new).runs ≤ countActive config store.runs := by
  have counted := countActive_write maxRetained config new keyed
  simp [over_inactive isOver] at counted
  omega

/-- The count stays when the run written over was not active. -/
theorem countActive_write_inactive (keyed : Keyed store.runs) (found : store.runs.get id = some run)
    (sameId : new.runId = id) (before : isActive config run = false)
    (after : isActive config new = false) :
    countActive config (write maxRetained store new).runs = countActive config store.runs := by
  have counted := countActive_write maxRetained config new keyed
  rw [sameId, found] at counted
  simp [before, after] at counted
  exact counted

/-! ## A reservation -/

/-- The run of a fresh id, written without its group and then with it, at the queue's end. -/
theorem StoreOk.reserve (maxRetained : Nat) (new bare : SubagentRunRecord)
    (ok : StoreOk config store) (fresh : store.runs.get new.runId = none)
    (unused : new.runId ∉ store.reserved) (group : ofGroup config new = true)
    (live : new.execution.status ≠ .terminal) (waits : new.swarmRunState = some .reserved)
    (sameId : bare.runId = new.runId)
    (uncounted : isActive config bare = false) :
    let after : SwarmStore := { Swarm.write maxRetained (Swarm.write maxRetained store bare) new with
      queue := store.queue ++ [new.runId], reserved := store.reserved ++ [new.runId] }
    StoreOk config after ∧ countActive config after.runs = countActive config store.runs ∧
      ∀ copy, Copy config store copy → Copy config after copy := by
  have keyed : Keyed (Swarm.write maxRetained store bare).runs := ok.keyed.setRun bare
  have found : ∀ id run, (Swarm.write maxRetained (Swarm.write maxRetained store bare) new).runs.get
      id = some run → (id = new.runId ∧ run = new) ∨ (id ≠ new.runId ∧
        store.runs.get id = some run) := by
    intro id run at_id
    rcases get_write keyed at_id with same | ⟨away, old⟩
    · exact .inl same
    · rcases get_write ok.keyed old with ⟨here, -⟩ | ⟨-, older⟩
      · exact absurd (here.trans sameId) away
      · exact .inr ⟨away, older⟩
  refine ⟨?_, ?_, ?_⟩
  · constructor
    · exact keyed.setRun new
    · have order := ok.order.append_right [new.runId]
      rw [List.append_assoc] at order
      exact order
    · apply List.Nodup.append ok.distinct
      · simp
      · intro id old last
        rw [List.mem_singleton.mp last] at old
        exact unused old
    · exact ok.never
    · intro id run at_id
      apply List.mem_append.mpr
      rcases found id run at_id with ⟨here, -⟩ | ⟨-, old⟩
      · exact .inr (by simp [here])
      · exact .inl (ok.known id run old)
    · intro id run at_id
      rcases found id run at_id with ⟨-, rfl⟩ | ⟨-, old⟩
      · exact group
      · exact ok.group id run old
    · intro id run at_id
      rcases found id run at_id with ⟨-, rfl⟩ | ⟨-, old⟩
      · intro _
        exact live
      · exact ok.live id run old
    · intro id member run at_id
      rcases found id run at_id with ⟨-, rfl⟩ | ⟨away, old⟩
      · exact .inl waits
      · rcases List.mem_append.mp member with queued | last
        · exact ok.queued id queued run old
        · exact absurd (List.mem_singleton.mp last) away
  · have first := countActive_write maxRetained config bare ok.keyed
    have second := countActive_write maxRetained config new keyed
    have inactive : isActive config new = false := by simp [isActive, waits]
    have nothing : ((Swarm.write maxRetained store bare).runs.get new.runId).toList.countP
        (isActive config) = 0 := by
      cases at_id : (Swarm.write maxRetained store bare).runs.get new.runId with
      | none => rfl
      | some run =>
        rcases get_write ok.keyed at_id with ⟨-, rfl⟩ | ⟨-, old⟩
        · simp [uncounted]
        · rw [fresh] at old
          cases old
    rw [sameId, fresh] at first
    rw [nothing] at second
    simp [uncounted] at first
    simp [inactive] at second
    exact second.trans first
  · intro copy kept
    have away : copy.runId ≠ new.runId := by
      intro same
      rw [← same] at unused
      exact unused kept.known
    constructor
    · exact kept.itself
    · exact kept.group
    · exact List.mem_append_left _ kept.known
    · intro member
      rcases List.mem_append.mp member with queued | last
      · exact kept.unqueued queued
      · exact away (List.mem_singleton.mp last)
    · intro run at_id
      rcases found copy.runId run at_id with ⟨here, -⟩ | ⟨-, old⟩
      · exact absurd here away
      · exact kept.record run old

/-! ## The pump -/

/-- How the loop ends: the queue is used up or the budget is, or a waiting run is
activated; the budget is what it was, or counted anew. -/
theorem pumpLoop_cases (maxRetained : Nat) (config : SwarmGroupConfig) (now : Time)
    (store : SwarmStore) (queue : List String)
    (queued : ∀ id ∈ queue, ∀ run, store.runs.get id = some run →
      Queued run ∧ ofGroup config run = true) (budget : Int) :
    (∃ rest, pumpLoop maxRetained config now queue store budget =
        ({ store with queue := rest }, none) ∧ rest <:+ queue ∧
        (rest = [] ∨ budget ≤ 0 ∨ budgetOf config store ≤ 0)) ∨
    ∃ id rest run left, pumpLoop maxRetained config now queue store budget =
        (activate maxRetained { store with queue := rest } run now, some (id, left)) ∧
      (id :: rest) <:+ queue ∧ store.runs.get id = some run ∧
      run.swarmRunState = some .reserved ∧ 0 < left ∧
      (left = budget ∨ left = budgetOf config store) := by
  induction queue generalizing budget with
  | nil => exact .inl ⟨[], rfl, List.suffix_refl _, .inl rfl⟩
  | cons first rest ih =>
    have queued_rest : ∀ id ∈ rest, ∀ run, store.runs.get id = some run →
        Queued run ∧ ofGroup config run = true := by
      intro id member
      exact queued id (List.mem_cons_of_mem _ member)
    have skip : pumpLoop maxRetained config now (first :: rest) store budget =
        pumpLoop maxRetained config now rest store (budgetOf config store) →
        (∃ rest', pumpLoop maxRetained config now (first :: rest) store budget =
          ({ store with queue := rest' }, none) ∧ rest' <:+ first :: rest ∧
          (rest' = [] ∨ budget ≤ 0 ∨ budgetOf config store ≤ 0)) ∨
        ∃ id rest' run left, pumpLoop maxRetained config now (first :: rest) store budget =
            (activate maxRetained { store with queue := rest' } run now, some (id, left)) ∧
          (id :: rest') <:+ first :: rest ∧ store.runs.get id = some run ∧
          run.swarmRunState = some .reserved ∧ 0 < left ∧
          (left = budget ∨ left = budgetOf config store) := by
      intro same
      rw [same]
      rcases ih queued_rest (budgetOf config store) with
        ⟨rest', looped, suffix, ends⟩ | ⟨id, rest', run, left, looped, suffix, found, waits, pos, is⟩
      · exact .inl ⟨rest', looped, suffix.trans (List.suffix_cons _ _), by tauto⟩
      · exact .inr ⟨id, rest', run, left, looped, suffix.trans (List.suffix_cons _ _), found,
          waits, pos, by tauto⟩
    by_cases spent : budget ≤ 0
    · refine .inl ⟨first :: rest, ?_, List.suffix_refl _, .inr (.inl spent)⟩
      rw [pumpLoop, if_pos spent]
    · cases found : store.runs.get first with
      | none =>
        apply skip
        rw [pumpLoop, if_neg spent, found]
      | some run =>
        obtain ⟨waits, grouped⟩ := queued first List.mem_cons_self run found
        have in_group : run.swarmGroupId.isNone = false := by
          unfold ofGroup at grouped
          cases group : run.swarmGroupId with
          | none =>
            rw [group] at grouped
            cases grouped
          | some _ => rfl
        rcases waits with reserved | ⟨failed, -⟩
        · refine .inr ⟨first, rest, run, budget, ?_, List.suffix_refl _, found, reserved, by omega,
            .inl rfl⟩
          simp [pumpLoop, spent, found, reserved, in_group]
        · apply skip
          simp [pumpLoop, spent, found, failed]

/-- Runs may leave the queue's front. -/
theorem StoreOk.dequeue (ok : StoreOk config store) {rest : List String}
    (suffix : rest <:+ store.queue) : StoreOk config { store with queue := rest } := by
  constructor
  · exact ok.keyed
  · exact (suffix.sublist.append_left _).trans ok.order
  · exact ok.distinct
  · exact ok.never
  · exact ok.known
  · exact ok.group
  · exact ok.live
  · intro id member
    exact ok.queued id (suffix.mem member)

theorem Copy.dequeue (kept : Copy config store copy) {rest : List String}
    (suffix : rest <:+ store.queue) : Copy config { store with queue := rest } copy := by
  constructor
  · exact kept.itself
  · exact kept.group
  · exact kept.known
  · intro member
    exact kept.unqueued (suffix.mem member)
  · exact kept.record

theorem Waiting.dequeue {rest : List String} (suffix : rest <:+ store.queue)
    (waits : Waiting { store with queue := rest }) : Waiting store := by
  obtain ⟨id, member, run, found, reserved⟩ := waits
  exact ⟨id, suffix.mem member, run, found, reserved⟩

/-- Activating the run at the front makes one more active run, in its turn. -/
theorem StoreOk.activate (maxRetained : Nat) (now : Time) (ok : StoreOk config store)
    {rest : List String}
    (front : (id :: rest) <:+ store.queue) (found : store.runs.get id = some run)
    (waits : run.swarmRunState = some .reserved) :
    let after := Swarm.activate maxRetained { store with queue := rest } run now
    StoreOk config after ∧ countActive config after.runs = countActive config store.runs + 1 ∧
      (∀ copy, Copy config store copy → Copy config after copy) ∧
      (Waiting after → Waiting store) ∧ after.locked = store.locked := by
  have itself : run.runId = id := ok.keyed.get_runId found
  have suffix : rest <:+ store.queue := (List.suffix_cons id rest).trans front
  have unqueued : id ∉ rest := by
    have queue := (List.nodup_append.mp (ok.distinct.sublist ok.order)).2.1
    exact (List.nodup_cons.mp (queue.sublist front.sublist)).1
  have erased : rest.erase run.runId = rest := by
    rw [itself]
    exact List.erase_of_not_mem unqueued
  have live := ok.live id run found waits
  have group := ok.group id run found
  have dequeued := ok.dequeue suffix
  have new_id : (activated run now).runId = id := itself
  have wrote : StoreOk config (Swarm.write maxRetained { store with queue := rest }
      (activated run now)) := by
    apply dequeued.write
    · rw [new_id]
      exact ok.known id run found
    · exact group
    · intro reserved
      cases reserved
    · intro member
      rw [new_id] at member
      exact absurd member unqueued
  unfold Swarm.activate
  rw [erased, itself, if_neg live]
  refine ⟨?_, ?_, ?_, ?_, rfl⟩
  · constructor
    · exact wrote.keyed
    · have order := front.sublist.append_left store.activated
      show ((store.activated ++ [id]) ++ rest).Sublist store.reserved
      rw [List.append_assoc]
      exact order.trans ok.order
    · exact wrote.distinct
    · exact wrote.never
    · exact wrote.known
    · exact wrote.group
    · exact wrote.live
    · exact wrote.queued
  · have counted := countActive_write maxRetained config (activated run now) ok.keyed
    have before : isActive config run = false := by simp [isActive, waits]
    have after : isActive config (activated run now) = true := by
      unfold ofGroup at group
      simp [isActive, activated, group]
    rw [new_id, found] at counted
    simp [before, after] at counted
    exact counted
  · intro copy kept
    have away : id ≠ copy.runId := by
      intro same
      have ended := kept.record run (by rw [← same]; exact found)
      exact ended.unreserved waits
    have later : Copy config (Swarm.write maxRetained { store with queue := rest }
        (activated run now)) copy :=
      (kept.dequeue suffix).write ok.keyed fun same => absurd (new_id.symm.trans same) away
    exact ⟨later.itself, later.group, later.known, later.unqueued, later.record⟩
  · intro waiting
    obtain ⟨other, member, later, at_id, reserved⟩ := waiting
    have away : other ≠ id := by
      intro same
      rw [same] at member
      exact unqueued member
    rcases get_write ok.keyed at_id with ⟨here, -⟩ | ⟨-, old⟩
    · exact absurd (here.trans new_id) away
    · exact ⟨other, suffix.mem member, later, old, reserved⟩

end SherryAgent.Contracts.Subagent.Swarm
