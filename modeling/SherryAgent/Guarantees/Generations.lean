import SherryAgent.Source.Subagent.Generations

/-!
# Stale generations

The guard of the completion callbacks is a side table: a spawn and a steer register the
generation, the recovery and `resume_subagent_run` bump it without, and the first accepted
completion erases the entry.

* `stale_generations_rejected` — while the entry is erased and bumped past only when no
  callback is left behind, a callback changes nothing of another generation;
* `resumed_run_takes_stale_callback` — a callback of the generation before a resume.
-/

namespace SherryAgent.Guarantees.Generations

open SherryAgent.Library SherryAgent.Source.Subagent SherryAgent.Source.Subagent.Generations
  TerminalGenerationTracker

abbrev World := Tasks.World GenerationStore GenerationTask
abbrev Choice := Tasks.Choice GenerationTask GenerationInput

variable {w w' : World} {store : GenerationStore} {run copy : SubagentRunRecord} {caller : Caller}
  {outcome : RunOutcome} {resultText : Option String} {now : Time} {superseded : Bool}

/-- The generation of a callback that has not come yet. -/
def outstanding : GenerationTask → Option Nat
  | .executing generation _ | .grace generation _ _ => some generation
  | _ => none

/-- The generation of a callback whose completion is in progress. -/
def announces : GenerationTask → Option Nat
  | .announcing (.callback generation) _ _ | .closing (.callback generation) _ => some generation
  | _ => none

/-- The expected generation a completion callback carries. -/
def carries (task : GenerationTask) : Option Nat := (outstanding task).or (announces task)

/-- The copies of the record that a task may write back. -/
def held : GenerationTask → List SubagentRunRecord
  | .announcing _ copy announced => [copy, announced]
  | .closing _ copy => [copy]
  | .rebuilding updated _ => [updated]
  | _ => []

/-- What a callback may change of its own generation only. -/
def facts (run : SubagentRunRecord) :
    ExecutionState × CompletionState × CompletionDeliveryState :=
  (run.execution, run.completion, run.delivery)

/-- A callback that carries `generation` changes the record only at that generation. -/
def Guarded (w : World) : Prop :=
  ∀ (w' : World) (index : Nat) (task after : GenerationTask) (input : GenerationInput)
    (generation : Nat), program.Resumes w w' index task after input →
    carries task = some generation → facts w'.store.record ≠ facts w.store.record →
    w.store.record.generation = generation

/-! ## The condition -/

/-- No task holds a copy of the record. -/
def Unheld (w : World) : Prop := ∀ task ∈ w.tasks, held task = []

/-- No callback of the record's generation is left. -/
def Unawaited (w : World) : Prop :=
  ∀ task ∈ w.tasks, outstanding task ≠ some w.store.record.generation

/-- A completion that is accepted leaves no callback of another generation. -/
def Last (w : World) (generation : Nat) : Prop :=
  w.store.locked = false → isCallbackCurrent w.store.expected generation = true →
    ∀ task ∈ w.tasks, ∀ other ∈ outstanding task,
      other = w.store.record.generation ∨ other = generation

/-- The condition on the task that moves next. -/
def CarefulTask (w : World) : GenerationTask → Prop
  | .executing generation _ => Last w generation
  | .grace generation _ _ => w.store.record.execution.status ≠ .terminal → Last w generation
  | .kill _ | .killing _ =>
    w.store.record.execution.status ≠ .terminal → Last w w.store.record.generation
  | .settling _ _ => Unheld w
  | .reading => Unheld w ∧ Unawaited w
  | .resume => w.store.record.execution.status = .interrupted → Unheld w ∧ Unawaited w
  | _ => True

/-- The generation is bumped only while no copy of the record is held, and without a
registration only while no callback of the current one is left; and the entry is erased
only when no older callback is left. -/
def Careful (w : World) : Choice → Prop
  | .run index _ => ∀ task ∈ w.tasks[index]?, CarefulTask w task
  | _ => True

instance (w : World) : Decidable (Unheld w) :=
  inferInstanceAs (Decidable (∀ task ∈ w.tasks, held task = []))

instance (w : World) : Decidable (Unawaited w) :=
  inferInstanceAs (Decidable (∀ task ∈ w.tasks, outstanding task ≠ some _))

instance (w : World) (generation : Nat) : Decidable (Last w generation) :=
  inferInstanceAs (Decidable (_ → _ → ∀ task ∈ w.tasks, ∀ other ∈ outstanding task, _ ∨ _))

instance (w : World) : (task : GenerationTask) → Decidable (CarefulTask w task)
  | .executing generation _ => inferInstanceAs (Decidable (Last w generation))
  | .grace generation _ _ => inferInstanceAs (Decidable (_ → Last w generation))
  | .kill _ | .killing _ => inferInstanceAs (Decidable (_ → Last w _))
  | .settling _ _ => inferInstanceAs (Decidable (Unheld w))
  | .reading => inferInstanceAs (Decidable (Unheld w ∧ Unawaited w))
  | .resume => inferInstanceAs (Decidable (_ → Unheld w ∧ Unawaited w))
  | .launched _ | .announcing _ _ _ | .closing _ _ | .steer | .rebuilding _ _ | .recover
  | .pause | .finished => isTrue trivial

instance (w : World) : (choice : Choice) → Decidable (Careful w choice)
  | .run index _ => inferInstanceAs (Decidable (∀ task ∈ w.tasks[index]?, CarefulTask w task))
  | .spawn _ | .restart => isTrue trivial

/-! ## A completion -/

theorem completed_generation (run : SubagentRunRecord) (outcome : RunOutcome)
    (resultText : Option String) (now : Time) :
    (run.completedBy outcome resultText now).generation = run.generation := by
  have arbitrated : (run.arbitrateKillVsCompletion outcome).generation = run.generation := by
    unfold SubagentRunRecord.arbitrateKillVsCompletion
    split
    · rfl
    · split
      · rfl
      · split <;> rfl
  have ended : ((run.arbitrateKillVsCompletion outcome).complete outcome resultText
      now).generation = (run.arbitrateKillVsCompletion outcome).generation := by
    unfold SubagentRunRecord.complete
    split <;> rfl
  have owned : ∀ owner, (((run.arbitrateKillVsCompletion outcome).complete outcome resultText
      now).markTerminalOwner owner).generation = ((run.arbitrateKillVsCompletion
        outcome).complete outcome resultText now).generation := by
    intro owner
    unfold SubagentRunRecord.markTerminalOwner
    split <;> rfl
  unfold SubagentRunRecord.completedBy
  rw [owned, ended, arbitrated]

@[simp] theorem returned_expected :
    (returned store copy caller).expected = store.expected := by
  cases caller <;> rfl

theorem returned_generation (same : copy.generation = store.record.generation) :
    (returned store copy caller).record.generation = store.record.generation := by
  cases caller with
  | kill => exact same
  | _ => rfl

theorem returned_facts : facts (returned store store.record caller).record = facts store.record := by
  cases caller <;> rfl

/-- The end of `complete_subagent_run`'s first part. -/
structure Completes (store store' : GenerationStore) (caller : Caller) (after : GenerationTask) :
    Prop where
  generation : store'.record.generation = store.record.generation
  silent : outstanding after = none
  copies : ∀ copy ∈ held after, copy.generation = store.record.generation
  tagged : ∀ generation ∈ announces after, caller = .callback generation ∧
    isCallbackCurrent store.expected generation = true
  effect : store'.expected = store.expected ∧ facts store'.record = facts store.record ∨
    store.locked = false ∧ isCallbackCurrent store.expected (asked store caller) = true ∧
      store'.expected = none

theorem complete_cases (store : GenerationStore) (caller : Caller) (outcome : RunOutcome)
    (resultText : Option String) (now : Time) (superseded : Bool) :
    Completes store (completeSubagentRun store caller outcome resultText now superseded).1 caller
      (completeSubagentRun store caller outcome resultText now superseded).2 := by
  unfold completeSubagentRun
  dsimp only
  by_cases locked : store.locked = true
  · rw [if_pos locked]
    refine ⟨returned_generation rfl, rfl, by simp [held], by simp [announces], ?_⟩
    exact .inl ⟨returned_expected, returned_facts⟩
  · rw [if_neg locked]
    have free : store.locked = false := by simpa using locked
    by_cases current : isCallbackCurrent store.expected (asked store caller) = true
    · rw [if_pos current]
      have same := completed_generation store.record outcome resultText now
      have tagged : ∀ copy announced generation,
          (generation ∈ announces (.announcing caller copy announced) ∨
            generation ∈ announces (.closing caller copy)) →
          caller = .callback generation ∧ isCallbackCurrent store.expected generation = true := by
        intro copy announced generation tag
        cases caller with
        | callback other =>
          obtain rfl : other = generation := by simpa [announces] using tag
          exact ⟨rfl, current⟩
        | _ => simp [announces] at tag
      split
      · refine ⟨returned_generation rfl, rfl, by simp [held], by simp [announces], ?_⟩
        exact .inr ⟨free, current, returned_expected⟩
      · split
        · refine ⟨same, rfl, by simp [held, same], ?_, .inr ⟨free, current, rfl⟩⟩
          intro generation tag
          exact tagged _ (store.record.completedBy outcome resultText now) generation (.inr tag)
        · split
          · refine ⟨?_, rfl, by simp [held], by simp [announces], ?_⟩
            · cases caller <;> exact same
            · exact .inr ⟨free, current, returned_expected⟩
          · refine ⟨same, rfl, by simp [held, same], ?_, .inr ⟨free, current, rfl⟩⟩
            intro generation tag
            exact tagged _ _ generation (.inl tag)
    · rw [if_neg current]
      refine ⟨returned_generation rfl, rfl, by simp [held], by simp [announces], ?_⟩
      exact .inl ⟨returned_expected, returned_facts⟩

/-! ## The invariant -/

/-- A callback that has not come is of the record's generation, or the entry rejects it. -/
def Fenced (store : GenerationStore) (generation : Nat) : Prop :=
  generation = store.record.generation ∨ ∃ expected ∈ store.expected, generation < expected

structure Inv (w : World) : Prop where
  bounded : ∀ task ∈ w.tasks, ∀ generation ∈ outstanding task,
    generation ≤ w.store.record.generation
  fenced : ∀ task ∈ w.tasks, ∀ generation ∈ outstanding task, Fenced w.store generation
  copies : ∀ task ∈ w.tasks, ∀ copy ∈ held task, copy.generation = w.store.record.generation
  announced : ∀ task ∈ w.tasks, ∀ generation ∈ announces task,
    generation = w.store.record.generation

variable {task after : GenerationTask} {before later : List GenerationTask}

theorem mem_around {other : GenerationTask} (tasks' : w'.tasks = before ++ after :: later)
    (member : other ∈ w'.tasks) : other = after ∨ other ∈ before ++ later := by
  rw [tasks'] at member
  simp only [List.mem_append, List.mem_cons] at member ⊢
  tauto

theorem mem_others {other : GenerationTask} (tasks : w.tasks = before ++ task :: later)
    (member : other ∈ before ++ later) : other ∈ w.tasks := by
  rw [tasks]
  simp only [List.mem_append, List.mem_cons] at member ⊢
  tauto

/-- A step that keeps the record's generation. The entry stays, or is erased with no other
callback left behind. -/
theorem Inv.keep (inv : Inv w) (tasks : w.tasks = before ++ task :: later)
    (tasks' : w'.tasks = before ++ after :: later)
    (generation : w'.store.record.generation = w.store.record.generation)
    (entry : w'.store.expected = w.store.expected ∨
      ∀ other ∈ before ++ later, ∀ left ∈ outstanding other, left = w.store.record.generation)
    (left : ∀ left ∈ outstanding after, left = w.store.record.generation ∨
      w'.store.expected = w.store.expected ∧ outstanding task = some left)
    (own : ∀ copy ∈ held after, copy.generation = w.store.record.generation)
    (tagged : ∀ tag ∈ announces after, tag = w.store.record.generation) : Inv w' := by
  have here : task ∈ w.tasks := by simp [tasks]
  constructor
  · rw [generation]
    intro other member tag awaited
    rcases mem_around tasks' member with rfl | elsewhere
    · rcases left tag awaited with same | ⟨-, old⟩
      · exact le_of_eq same
      · exact inv.bounded task here tag old
    · exact inv.bounded other (mem_others tasks elsewhere) tag awaited
  · intro other member tag awaited
    unfold Fenced
    rw [generation]
    rcases mem_around tasks' member with rfl | elsewhere
    · rcases left tag awaited with same | ⟨kept, old⟩
      · exact .inl same
      · rw [kept]
        exact inv.fenced task here tag old
    · rcases entry with kept | last
      · rw [kept]
        exact inv.fenced other (mem_others tasks elsewhere) tag awaited
      · exact .inl (last other elsewhere tag awaited)
  · rw [generation]
    intro other member copy holds
    rcases mem_around tasks' member with rfl | elsewhere
    · exact own copy holds
    · exact inv.copies other (mem_others tasks elsewhere) copy holds
  · rw [generation]
    intro other member tag announcing
    rcases mem_around tasks' member with rfl | elsewhere
    · exact tagged tag announcing
    · exact inv.announced other (mem_others tasks elsewhere) tag announcing

/-- A task that announces holds a copy. -/
theorem announces_of_unheld (nothing : held task = []) : announces task = none := by
  cases task with
  | announcing caller copy announced => cases nothing
  | closing caller copy => cases nothing
  | _ => rfl

/-- A bump of the generation, registered or with no callback of it left. -/
theorem Inv.bump (inv : Inv w) (tasks : w.tasks = before ++ task :: later)
    (tasks' : w'.tasks = before ++ after :: later) (unheld : Unheld w)
    (generation : w.store.record.generation < w'.store.record.generation)
    (entry : w'.store.expected = some w'.store.record.generation ∨
      w'.store.expected = w.store.expected ∧ Unawaited w)
    (silent : outstanding after = none) (mute : announces after = none)
    (own : ∀ copy ∈ held after, copy.generation = w'.store.record.generation) : Inv w' := by
  constructor
  · intro other member tag awaited
    rcases mem_around tasks' member with rfl | elsewhere
    · rw [silent] at awaited
      cases awaited
    · have bound := inv.bounded other (mem_others tasks elsewhere) tag awaited
      omega
  · intro other member tag awaited
    rcases mem_around tasks' member with rfl | elsewhere
    · rw [silent] at awaited
      cases awaited
    · have listed := mem_others tasks elsewhere
      have bound := inv.bounded other listed tag awaited
      rcases entry with registered | ⟨kept, unawaited⟩
      · exact .inr ⟨_, registered, by omega⟩
      · rcases inv.fenced other listed tag awaited with same | rejected
        · rw [same] at awaited
          exact absurd awaited (unawaited other listed)
        · unfold Fenced
          rw [kept]
          exact .inr rejected
  · intro other member copy holds
    rcases mem_around tasks' member with rfl | elsewhere
    · exact own copy holds
    · rw [unheld other (mem_others tasks elsewhere)] at holds
      cases holds
  · intro other member tag announcing
    rcases mem_around tasks' member with rfl | elsewhere
    · rw [mute] at announcing
      cases announcing
    · rw [announces_of_unheld (unheld other (mem_others tasks elsewhere))] at announcing
      cases announcing

/-- An accepted callback is of the record's generation. -/
theorem Fenced.accepted {generation : Nat} (fenced : Fenced store generation)
    (current : isCallbackCurrent store.expected generation = true) :
    generation = store.record.generation := by
  rcases fenced with same | ⟨expected, registered, older⟩
  · exact same
  · have entry : store.expected = some expected := registered
    unfold isCallbackCurrent at current
    rw [entry] at current
    have newer : expected ≤ generation := by simpa using current
    omega

/-! ## Steps -/

/-- A completion of the run, of a callback or of a kill. -/
theorem Inv.completes (inv : Inv w) (tasks : w.tasks = before ++ task :: later)
    (tasks' : w'.tasks = before ++ after :: later)
    (completes : Completes store w'.store caller after)
    (generation : store.record.generation = w.store.record.generation)
    (expected : store.expected = w.store.expected) (locked : store.locked = w.store.locked)
    (last : Last w (asked store caller))
    (own : ∀ tag, caller = .callback tag → outstanding task = some tag) : Inv w' := by
  have here : task ∈ w.tasks := by simp [tasks]
  have current_own : ∀ tag, caller = .callback tag →
      isCallbackCurrent w.store.expected tag = true → tag = w.store.record.generation := by
    intro tag same current
    exact (inv.fenced task here tag (own tag same)).accepted current
  have same := completes.generation
  rw [generation] at same
  apply inv.keep tasks tasks' same
  · rcases completes.effect with ⟨kept, -⟩ | ⟨free, current, -⟩
    · exact .inl (kept.trans expected)
    · right
      rw [locked] at free
      rw [expected] at current
      intro other member left awaited
      rcases last free current other (mem_others tasks member) left awaited with same | tag
      · exact same
      · cases caller with
        | callback tag' => exact tag.trans (current_own tag' rfl current)
        | kill => exact tag.trans generation
        | orphan => exact tag.trans generation
  · intro left awaited
    rw [completes.silent] at awaited
    cases awaited
  · intro copy holds
    rw [completes.copies copy holds, generation]
  · intro tag announcing
    obtain ⟨same, current⟩ := completes.tagged tag announcing
    rw [expected] at current
    exact current_own tag same current

/-- A step that leaves the tracker and the generation, and whose task awaits, holds and
announces nothing new. -/
theorem Inv.quiet (inv : Inv w) (tasks : w.tasks = before ++ task :: later)
    (tasks' : w'.tasks = before ++ after :: later)
    (generation : w'.store.record.generation = w.store.record.generation)
    (expected : w'.store.expected = w.store.expected)
    (awaits : ∀ left ∈ outstanding after, outstanding task = some left)
    (holds : ∀ copy ∈ held after, copy ∈ held task ∨
      copy.generation = w.store.record.generation)
    (tags : ∀ tag ∈ announces after, announces task = some tag) : Inv w' := by
  have here : task ∈ w.tasks := by simp [tasks]
  apply inv.keep tasks tasks' generation (.inl expected)
  · intro left awaited
    exact .inr ⟨expected, awaits left awaited⟩
  · intro copy member
    rcases holds copy member with old | new
    · exact inv.copies task here copy old
    · exact new
  · intro tag announcing
    exact inv.announced task here tag (tags tag announcing)

theorem steered_generation (run : SubagentRunRecord) (frozen : Option String) :
    (steered run frozen).generation = run.generation + 1 := by
  cases frozen <;> rfl

theorem resumedBy_generation (recovering : Bool) (run : SubagentRunRecord) :
    (resumedBy recovering run).generation = run.generation := by
  cases recovering <;> rfl

theorem markRunning_generation (run : SubagentRunRecord) (now : Time) :
    (run.markRunning now).generation = run.generation := by
  unfold SubagentRunRecord.markRunning
  split <;> rfl

theorem Inv.resume (inv : Inv w) {index : Nat} {input : GenerationInput}
    (careful : CarefulTask w task) (resumes : program.Resumes w w' index task after input) :
    Inv w' := by
  obtain ⟨before, later, tasks, tasks'⟩ := resumes.split
  have resumed := resumes.resumed
  have here := resumes.mem
  simp only [program] at resumed
  have ends : some (w.store, GenerationTask.finished) = some (w'.store, after) → Inv w' := by
    intro same
    obtain ⟨store, task'⟩ := Prod.mk.inj (Option.some.inj same)
    subst task'
    apply inv.quiet tasks tasks' (by rw [← store]) (by rw [← store]) <;>
      simp [outstanding, held, announces]
  cases task with
  | launched steered =>
    cases input with
    | next now superseded =>
      rw [Generations.resume] at resumed
      split at resumed
      · exact ends resumed
      · obtain ⟨store, task'⟩ := Prod.mk.inj (Option.some.inj resumed)
        have same : w'.store.record.generation = w.store.record.generation := by
          rw [← store]
          dsimp only
          split
          · exact markRunning_generation _ _
          · rfl
        rw [← store] at same
        subst task'
        apply inv.keep tasks tasks' (by rw [← store]; exact same) (.inl (by rw [← store]))
        · intro left awaited
          obtain rfl := Option.some.inj awaited
          exact .inl same
        · simp [held]
        · simp [announces]
    | _ => cases resumed
  | executing generation steered =>
    cases input with
    | ended outcome resultText now superseded =>
      rw [Generations.resume] at resumed
      split at resumed
      · obtain ⟨store, task'⟩ := Prod.mk.inj (Option.some.inj resumed)
        subst task'
        apply inv.quiet tasks tasks' (by rw [← store]) (by rw [← store]) <;>
          simp [outstanding, held, announces]
      · have completes := complete_cases w.store (.callback generation) outcome resultText now
          superseded
        rw [Option.some.inj resumed] at completes
        apply inv.completes tasks tasks' completes rfl rfl rfl careful
        intro tag same
        cases same
        rfl
    | _ => cases resumed
  | grace generation outcome resultText =>
    cases input with
    | next now superseded =>
      rw [Generations.resume] at resumed
      split at resumed
      · exact ends resumed
      · rename_i live
        have completes := complete_cases w.store (.callback generation) outcome resultText now
          superseded
        rw [Option.some.inj resumed] at completes
        apply inv.completes tasks tasks' completes rfl rfl rfl (careful live)
        intro tag same
        cases same
        rfl
    | _ => cases resumed
  | announcing caller copy announced =>
    have copies : ∀ other ∈ [copy, announced],
        other.generation = w.store.record.generation := inv.copies _ here
    cases input with
    | refresh =>
      obtain ⟨store, task'⟩ := Prod.mk.inj (Option.some.inj resumed)
      subst task'
      apply inv.quiet tasks tasks' (by rw [← store]) (by rw [← store])
      · simp [outstanding]
      · intro other member
        rcases List.mem_cons.mp member with rfl | new
        · exact .inl (by simp [held])
        · rw [List.mem_singleton.mp new]
          exact .inr rfl
      · intro tag announcing
        cases caller <;> exact announcing
    | rewrite delivery =>
      obtain ⟨store, task'⟩ := Prod.mk.inj (Option.some.inj resumed)
      have same := copies announced (by simp)
      subst task'
      apply inv.quiet tasks tasks' (by rw [← store]; exact same) (by rw [← store])
      · simp [outstanding]
      · intro other member
        rcases List.mem_cons.mp member with rfl | new
        · exact .inl (by simp [held])
        · rw [List.mem_singleton.mp new]
          exact .inr same
      · intro tag announcing
        cases caller <;> exact announcing
    | next now superseded =>
      cases caller with
      | orphan => exact ends resumed
      | _ =>
        obtain ⟨store, task'⟩ := Prod.mk.inj (Option.some.inj resumed)
        subst task'
        apply inv.quiet tasks tasks' (by rw [← store]) (by rw [← store]) <;>
          simp [outstanding, held, announces]
    | _ => cases caller <;> cases resumed
  | closing caller copy =>
    cases input with
    | next now superseded =>
      obtain ⟨store, task'⟩ := Prod.mk.inj (Option.some.inj resumed)
      have same : copy.generation = w.store.record.generation :=
        inv.copies _ here copy (by simp [held])
      have kept : w'.store.record.generation = w.store.record.generation := by
        rw [← store]
        cases caller with
        | kill => exact same
        | _ => rfl
      subst task'
      apply inv.quiet tasks tasks' kept (by rw [← store]; exact returned_expected) <;>
        simp [outstanding, held, announces]
    | _ => cases resumed
  | kill reason =>
    cases input with
    | next now superseded =>
      rw [Generations.resume] at resumed
      split at resumed
      · exact ends resumed
      · rename_i live
        split at resumed
        · obtain ⟨store, task'⟩ := Prod.mk.inj (Option.some.inj resumed)
          subst task'
          apply inv.quiet tasks tasks' (by rw [← store]) (by rw [← store]) <;>
            simp [outstanding, held, announces]
        · have completes := complete_cases { w.store with
            record := w.store.record.saveKillReconciliation } .kill
            { status := .killed, error := some reason } none now superseded
          unfold killRun at resumed
          rw [Option.some.inj resumed] at completes
          apply inv.completes tasks tasks' completes rfl rfl rfl (careful live)
          intro tag same
          cases same
    | _ => cases resumed
  | killing reason =>
    cases input with
    | next now superseded =>
      rw [Generations.resume] at resumed
      split at resumed
      · exact ends resumed
      · rename_i live
        have completes := complete_cases { w.store with
          record := w.store.record.saveKillReconciliation } .kill
          { status := .killed, error := some reason } none now superseded
        unfold killRun at resumed
        rw [Option.some.inj resumed] at completes
        apply inv.completes tasks tasks' completes rfl rfl rfl (careful live)
        intro tag same
        cases same
    | _ => cases resumed
  | steer =>
    cases input with
    | admitted =>
      rw [Generations.resume] at resumed
      split at resumed
      · obtain ⟨store, task'⟩ := Prod.mk.inj (Option.some.inj resumed)
        subst task'
        apply inv.quiet tasks tasks' (by rw [← store]; rfl) (by rw [← store]) <;>
          simp [outstanding, held, announces]
      · exact ends resumed
    | refused now => exact ends resumed
    | _ => cases resumed
  | settling frozen recovering =>
    cases input with
    | next now superseded =>
      obtain ⟨store, task'⟩ := Prod.mk.inj (Option.some.inj resumed)
      have more : w'.store.record.generation = w.store.record.generation + 1 := by
        rw [← store]
        exact steered_generation _ _
      subst task'
      apply inv.bump tasks tasks' careful (by omega) (.inl (by rw [← store])) rfl rfl
      intro copy holds
      rw [List.mem_singleton.mp holds, ← store]
    | _ => cases resumed
  | rebuilding updated recovering =>
    have same : updated.generation = w.store.record.generation :=
      inv.copies _ here updated (by simp [held])
    cases input with
    | admitted =>
      obtain ⟨store, task'⟩ := Prod.mk.inj (Option.some.inj resumed)
      have kept : w'.store.record.generation = w.store.record.generation := by
        rw [← store, ← same]
        exact resumedBy_generation _ _
      subst task'
      apply inv.quiet tasks tasks' kept (by rw [← store]) <;>
        simp [outstanding, held, announces]
    | refused now =>
      obtain ⟨store, task'⟩ := Prod.mk.inj (Option.some.inj resumed)
      have kept : w'.store.record.generation = w.store.record.generation := by
        rw [← store]
        exact resumedBy_generation _ _
      subst task'
      apply inv.quiet tasks tasks' kept (by rw [← store]) <;>
        simp [outstanding, held, announces]
    | _ => cases resumed
  | recover =>
    cases input with
    | next now superseded =>
      rw [Generations.resume] at resumed
      split at resumed
      · exact ends resumed
      · obtain ⟨store, task'⟩ := Prod.mk.inj (Option.some.inj resumed)
        subst task'
        apply inv.quiet tasks tasks' (by rw [← store]) (by rw [← store]) <;>
          simp [outstanding, held, announces]
    | _ => cases resumed
  | reading =>
    cases input with
    | admitted =>
      rw [Generations.resume] at resumed
      split at resumed
      · obtain ⟨store, task'⟩ := Prod.mk.inj (Option.some.inj resumed)
        have more : w'.store.record.generation = w.store.record.generation + 1 := by
          rw [← store]
          rfl
        subst task'
        apply inv.bump tasks tasks' careful.1 (by omega)
          (.inr ⟨by rw [← store], careful.2⟩) rfl rfl
        simp [held]
      · cases resumed
    | refused now =>
      have result := Option.some.inj resumed
      unfold finalizeRun at result
      rw [if_neg (by simp [SubagentRunRecord.replaceAfterSteer])] at result
      obtain ⟨store, task'⟩ := Prod.mk.inj result
      have more : w'.store.record.generation = w.store.record.generation + 1 := by
        rw [← store]
        rfl
      have written : w'.store.record =
          w.store.record.replaceAfterSteer.finalizeInterrupted now := by rw [← store]
      subst task'
      apply inv.bump tasks tasks' careful.1 (by omega)
        (.inr ⟨by rw [← store], careful.2⟩) rfl rfl
      intro copy holds
      rw [written]
      rcases List.mem_cons.mp holds with rfl | last
      · rfl
      · rw [List.mem_singleton.mp last]
    | _ => cases resumed
  | resume =>
    cases input with
    | next now superseded =>
      rw [Generations.resume] at resumed
      split at resumed
      · rename_i interrupted
        obtain ⟨unheld, unawaited⟩ := careful interrupted
        obtain ⟨store, task'⟩ := Prod.mk.inj (Option.some.inj resumed)
        have more : w'.store.record.generation = w.store.record.generation + 1 := by
          rw [← store]
          rfl
        subst task'
        apply inv.bump tasks tasks' unheld (by omega) (.inr ⟨by rw [← store], unawaited⟩) rfl rfl
        simp [held]
      · exact ends resumed
    | _ => cases resumed
  | pause =>
    cases input with
    | next now superseded =>
      obtain ⟨store, task'⟩ := Prod.mk.inj (Option.some.inj resumed)
      subst task'
      apply inv.quiet tasks tasks' (by rw [← store]; rfl) (by rw [← store]) <;>
        simp [outstanding, held, announces]
    | _ => cases resumed
  | finished => cases input <;> cases resumed

theorem Inv.step (inv : Inv w) {choice : Choice} (careful : Careful w choice)
    (stepped : program.step w choice = some w') : Inv w' := by
  rcases Tasks.Program.step_cases _ stepped with ⟨task, -, starts, store, tasks⟩ |
    ⟨index, input, task, after, rfl, resumes⟩ | ⟨-, restarted, -⟩
  · have quiet : outstanding task = none ∧ held task = [] ∧ announces task = none := by
      cases task <;> first | exact ⟨rfl, rfl, rfl⟩ | cases starts
    have listed : ∀ other ∈ w'.tasks, other ∈ w.tasks ∨ other = task := by
      intro other member
      rw [tasks] at member
      simpa using member
    constructor
    · intro other member tag awaited
      rw [store]
      rcases listed other member with old | rfl
      · exact inv.bounded other old tag awaited
      · rw [quiet.1] at awaited
        cases awaited
    · intro other member tag awaited
      rw [store]
      rcases listed other member with old | rfl
      · exact inv.fenced other old tag awaited
      · rw [quiet.1] at awaited
        cases awaited
    · intro other member copy holds
      rw [store]
      rcases listed other member with old | rfl
      · exact inv.copies other old copy holds
      · rw [quiet.2.1] at holds
        cases holds
    · intro other member tag announcing
      rw [store]
      rcases listed other member with old | rfl
      · exact inv.announced other old tag announcing
      · rw [quiet.2.2] at announcing
        cases announcing
  · exact inv.resume (careful task resumes.at_index) resumes
  · cases restarted

/-- A completion that changes the record was accepted. -/
theorem Completes.accepted {store' : GenerationStore} {after : GenerationTask}
    (completes : Completes store store' caller after)
    (changed : facts store'.record ≠ facts store.record) :
    isCallbackCurrent store.expected (asked store caller) = true := by
  rcases completes.effect with ⟨-, same⟩ | ⟨-, current, -⟩
  · exact absurd same changed
  · exact current

theorem Inv.guarded (inv : Inv w) : Guarded w := by
  intro w' index task after input generation resumes carried changed
  have resumed := resumes.resumed
  have here := resumes.mem
  simp only [program] at resumed
  cases task with
  | executing tag steered =>
    obtain rfl : tag = generation := by simpa [carries, outstanding] using carried
    cases input with
    | ended outcome resultText now superseded =>
      rw [Generations.resume] at resumed
      split at resumed
      · obtain ⟨store, -⟩ := Prod.mk.inj (Option.some.inj resumed)
        rw [← store] at changed
        exact absurd rfl changed
      · have completes := complete_cases w.store (.callback tag) outcome resultText now superseded
        rw [Option.some.inj resumed] at completes
        exact ((inv.fenced _ here tag rfl).accepted (completes.accepted changed)).symm
    | _ => cases resumed
  | grace tag outcome resultText =>
    obtain rfl : tag = generation := by simpa [carries, outstanding] using carried
    cases input with
    | next now superseded =>
      rw [Generations.resume] at resumed
      split at resumed
      · obtain ⟨store, -⟩ := Prod.mk.inj (Option.some.inj resumed)
        rw [← store] at changed
        exact absurd rfl changed
      · have completes := complete_cases w.store (.callback tag) outcome resultText now superseded
        rw [Option.some.inj resumed] at completes
        exact ((inv.fenced _ here tag rfl).accepted (completes.accepted changed)).symm
    | _ => cases resumed
  | announcing caller copy announced =>
    exact (inv.announced _ here generation (by simpa [carries, outstanding] using carried)).symm
  | closing caller copy =>
    exact (inv.announced _ here generation (by simpa [carries, outstanding] using carried)).symm
  | _ => cases carried

/-- A run just spawned, or restored without its child. -/
def starting (record : SubagentRunRecord) (restored : Bool) : World :=
  if restored then { store := { record } }
  else { store := { record, expected := some record.generation }, tasks := [.launched false] }

theorem inv_starting (record : SubagentRunRecord) (restored : Bool) :
    Inv (starting record restored) := by
  cases restored <;> constructor <;> simp [starting, outstanding, held, announces]

/-- In every run of careful steps a completion callback changes the run's execution,
completion or delivery only at its own generation. -/
theorem stale_generations_rejected (record : SubagentRunRecord) (restored : Bool) (w : World)
    (run : program.Runs Careful (starting record restored) w) : Guarded w := by
  have inv : Inv w := run.invariant Inv (inv_starting record restored)
    fun _ _ _ inv careful stepped => inv.step careful stepped
  exact inv.guarded

def spawned : SubagentRunRecord where
  runId := "r"
  childSessionKey := "agent:main:subagent:r"
  requesterSessionKey := "agent:main"
  generation := 1
  execution := { status := .pending }
  delivery := { status := .pending }

/-- The child runs and is steered; its own callback comes late and is rejected, and the
callback of the new generation is accepted. -/
def steeredOnce : List Choice :=
  [.run 0 (.next 1), .spawn .steer, .run 1 .admitted, .run 1 (.next 2), .run 1 .admitted,
    .run 1 (.next 3), .run 0 (.ended { status := .killed } none 4),
    .run 1 (.ended { status := .ok } (some "new") 5)]

theorem stale_generations_rejected_steered :
    ∃ w, program.Runs Careful (starting spawned false) w ∧ w.store.record.generation = 2 ∧
      w.store.record.completion.resultText = some "new" ∧ Guarded w := by
  have played : (Machine.play program.step (fun w choice => decide (Careful w choice))
      (starting spawned false) steeredOnce).any (fun w => w.store.record.generation == 2 &&
        w.store.record.completion.resultText == some "new") = true := by
    decide +kernel
  obtain ⟨w, run, test⟩ := Machine.Runs.exists_of_play played
  simp only [Bool.and_eq_true, beq_iff_eq] at test
  have careful : program.Runs Careful (starting spawned false) w :=
    run.mono fun _ _ allowed => of_decide_eq_true allowed
  exact ⟨w, careful, test.1, test.2, stale_generations_rejected spawned false w careful⟩

/-- The task at the index changes the record with a callback of another generation. -/
def takesStale (w : World) (index : Nat) (input : GenerationInput) : Bool :=
  w.tasks[index]?.any fun task => (carries task).any fun generation =>
    (Generations.resume w.store task input).any fun resumed =>
      facts resumed.1.record != facts w.store.record && w.store.record.generation != generation

theorem not_guarded {index : Nat} {input : GenerationInput}
    (stale : takesStale w index input = true) : ¬ Guarded w := by
  obtain ⟨task, at_index, stale⟩ := (Option.any_eq_true _ _).mp stale
  obtain ⟨generation, carried, stale⟩ := (Option.any_eq_true _ _).mp stale
  obtain ⟨result, resumed, stale⟩ := (Option.any_eq_true _ _).mp stale
  simp only [Bool.and_eq_true, bne_iff_ne] at stale
  intro guarded
  apply stale.2
  have moves : program.Resumes w { store := result.1, tasks := w.tasks.set index result.2 } index
      task result.2 input := ⟨at_index, resumed, rfl⟩
  exact guarded _ index task result.2 input generation moves carried stale.1

/-- The child runs, yields and is resumed as the next generation. -/
def resumedOnce : List Choice :=
  [.run 0 (.next 1), .spawn .pause, .run 1 (.next 2), .spawn .resume, .run 2 (.next 3)]

/-- A callback of generation 1 completes the run of generation 2. -/
theorem resumed_run_takes_stale_callback :
    ∃ w, program.Runs (fun _ _ => True) (starting spawned false) w ∧
      takesStale w 0 (.ended { status := .ok } (some "old") 4) = true ∧ ¬ Guarded w := by
  have played : (Machine.play program.step (fun _ _ => true) (starting spawned false)
      resumedOnce).any
      (fun w => takesStale w 0 (.ended { status := .ok } (some "old") 4)) = true := by
    decide +kernel
  obtain ⟨w, run, stale⟩ := Machine.Runs.exists_of_play played
  exact ⟨w, run.mono fun _ _ _ => trivial, stale, not_guarded stale⟩

end SherryAgent.Guarantees.Generations
