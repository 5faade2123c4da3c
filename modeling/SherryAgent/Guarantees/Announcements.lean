import Mathlib.Data.List.Nodup
import SherryAgent.Source.Subagent.Delivery

/-!
# Announcements

The delivered keys are recorded after a publication, the mirror before the attempt. A call
that neither is handed to the effect worker nor finds its content in the mirror answers
for a publication.

* `delivery_honest_and_once` — such a call succeeds, and a record is marked as delivered,
  only once the message is published; it is published once while no call passes the checks
  beside another one on the run, or after its key was evicted;
* `enqueued_call_succeeds` — with execution on, a call succeeds with nothing published.
-/

namespace SherryAgent.Guarantees.Announcements

open SherryAgent.Library SherryAgent.Source.Subagent SherryAgent.Source.Subagent.Announce

abbrev World := Tasks.World AnnounceStore AnnounceTask
abbrev Choice := Tasks.Choice AnnounceTask AnnounceInput

variable {config : AnnounceConfig} {w w' : World} {store store' : AnnounceStore}
  {task after : AnnounceTask} {input : AnnounceInput} {call : DeliveryCall}
  {run attempted : SubagentRunRecord} {now : Time}

/-- What a completion is delivered for. -/
def key (run : SubagentRunRecord) : String × Nat := (run.runId, run.generation)

/-- What has been published, latest first. -/
def sent (store : AnnounceStore) : List (String × Nat) :=
  store.published.map fun message => (message.runId, message.generation)

/-- A success that is not owed to the worker or to the mirror, and a record that is marked as
delivered, stand for a published message. -/
structure Honest (store : AnnounceStore) : Prop where
  reports : ∀ report ∈ store.reports, report.call.run.completion.required = true →
    handsOver report.call = false → report.route ≠ .mirror → report.result.success = true →
      key report.call.run ∈ sent store
  written : ∀ record ∈ store.written, record.completion.required = true →
    record.delivery.status = .delivered → key record ∈ sent store

/-! ## The condition -/

/-- The run and generation a call has begun to deliver. -/
def delivering : AnnounceTask → Option (String × Nat)
  | .targeting call _ _ | .resuming call _ _ | .attempting call _ _ _ _ => some (key call.run)
  | _ => none

/-- The run and generation a call has published and not yet recorded. -/
def routed : AnnounceTask → Option (String × Nat)
  | .routing call _ => some (key call.run)
  | _ => none

def underWay (task : AnnounceTask) : Option (String × Nat) := (delivering task).or (routed task)

/-- The call is neither handed over nor answered by one of the two checks. -/
def passes (store : AnnounceStore) (call : DeliveryCall) : Bool :=
  !handsOver call && !isAlreadyDelivered store call.run && !mirrors store call.run

def CarefulTask (w : World) : AnnounceTask → Prop
  | .called call => passes w.store call = true →
      (∀ task ∈ w.tasks, underWay task ≠ some (key call.run)) ∧
        idempotencyKey call.run ∉ w.store.evicted
  | _ => True

/-- A call passes the checks only with no other one under way on its run and generation,
and while their key has not been evicted. -/
def Careful (w : World) : Choice → Prop
  | .run index _ => ∀ task ∈ w.tasks[index]?, CarefulTask w task
  | _ => True

instance (w : World) : (task : AnnounceTask) → Decidable (CarefulTask w task)
  | .called _ => inferInstanceAs (Decidable (_ → (∀ task ∈ w.tasks, _) ∧ _))
  | .targeting _ _ _ | .resuming _ _ _ | .attempting _ _ _ _ _ | .routing _ _ | .returned =>
    isTrue trivial

instance (w : World) : (choice : Choice) → Decidable (Careful w choice)
  | .run index _ => inferInstanceAs (Decidable (∀ task ∈ w.tasks[index]?, CarefulTask w task))
  | .spawn _ | .restart => isTrue trivial

/-! ## Keys -/

section Keys

variable {α : Type} {a : α} {first second tail tail' : List α}

/-- What stands behind the last separator. -/
theorem eq_of_append_separator (notin : a ∉ tail) (notin' : a ∉ tail')
    (same : first ++ a :: tail = second ++ a :: tail') : first = second ∧ tail = tail' := by
  have front : ∀ (xs ys us vs : List α), a ∉ us → (xs ++ a :: us = (xs ++ ys) ++ a :: vs) →
      ys = [] := by
    intro xs ys us vs out joined
    rw [List.append_assoc, List.append_cancel_left_eq] at joined
    cases ys with
    | nil => rfl
    | cons y ys =>
      have rest := (List.cons.inj joined).2
      exact absurd (by rw [rest]; simp) out
  obtain ⟨middle, joined, -⟩ | ⟨middle, joined, -⟩ := List.append_eq_append_iff.mp same
  · subst joined
    have nothing := front first middle tail tail' notin same
    subst nothing
    simpa using same
  · subst joined
    have nothing := front second middle tail' tail notin' same.symm
    subst nothing
    simpa using same

theorem colon_not_digit (n : Nat) : ':' ∉ Nat.toDigits 10 n := fun member =>
  absurd (Nat.isDigit_of_mem_toDigits (by decide) (by decide) member) (by decide)

/-- The idempotency key determines the run and the generation. -/
theorem buildIdempotencyKey_injective {runId other : String} {generation second : Nat}
    (same : buildIdempotencyKey runId generation = buildIdempotencyKey other second) :
    runId = other ∧ generation = second := by
  have shape : ∀ (id : String) (n : Nat), (buildIdempotencyKey id n).toList =
      ("subagent_announce:".toList ++ id.toList ++ ":gen".toList) ++
        ':' :: Nat.toDigits 10 n := by
    intro id n
    have separator : ":gen:".toList = ":gen".toList ++ [':'] := by decide
    unfold buildIdempotencyKey
    simp only [String.toList_append, Nat.toString_eq_repr, Nat.toList_repr, separator,
      List.append_assoc, List.singleton_append]
  have chars := congrArg String.toList same
  rw [shape, shape] at chars
  obtain ⟨front, digits⟩ :=
    eq_of_append_separator (colon_not_digit generation) (colon_not_digit second) chars
  rw [List.append_cancel_right_eq, List.append_cancel_left_eq] at front
  constructor
  · exact String.toList_injective front
  · rw [← Nat.ofDigitChars_ten_toDigits (n := generation), digits, Nat.ofDigitChars_ten_toDigits]

end Keys

/-! ## The copies a call goes on with -/

/-- A call keeps the run and generation it came with, is not marked as delivered before it
has published, and waits on the third path for a published message. -/
def Sound (store : AnnounceStore) : AnnounceTask → Prop
  | .called _ | .returned => True
  | .targeting call run _ => key run = key call.run ∧ run.delivery.status ≠ .delivered
  | .resuming call run _ => key run = key call.run
  | .attempting call run attempted _ _ => key run = key call.run ∧ key attempted = key call.run
  | .routing call run => key run = key call.run ∧ key run ∈ sent store

/-- Every delivered key stands for a published message. -/
def Accounted (store : AnnounceStore) : Prop :=
  ∀ entry ∈ store.deliveredKeys, ∃ run ∈ sent store, buildIdempotencyKey run.1 run.2 = entry

theorem Sound.mono (sound : Sound store task) (grown : sent store ⊆ sent store') :
    Sound store' task := by
  cases task with
  | routing call run => exact ⟨sound.1, grown sound.2⟩
  | called call => trivial
  | returned => trivial
  | targeting call run pendingCount => exact sound
  | resuming call run pendingCount => exact sound
  | attempting call run attempted attempt pendingCount => exact sound

theorem sent_of_delivered (accounted : Accounted store)
    (delivered : isAlreadyDelivered store run = true) : key run ∈ sent store := by
  unfold isAlreadyDelivered at delivered
  obtain ⟨owner, member, same⟩ := accounted _ (by simpa using delivered)
  obtain ⟨runs, generations⟩ := buildIdempotencyKey_injective same
  have owned : owner = key run := Prod.ext runs generations
  rwa [← owned]

/-- What a step of one call owes to the rest. -/
structure Settles (store store' : AnnounceStore) (after : AnnounceTask) : Prop where
  honest : Honest store'
  accounted : Accounted store'
  sound : Sound store' after
  grown : sent store ⊆ sent store'

/-- Nothing is published, answered or recorded as delivered. -/
structure Quiet (store store' : AnnounceStore) : Prop where
  sent : sent store' = sent store
  keys : store'.deliveredKeys = store.deliveredKeys
  reports : store'.reports = store.reports

section Answers

variable {route : DeliveryRoute} {result : AnnounceDeliveryResult}

/-- An answer of a step that has published nothing new. -/
theorem Settles.answer (honest : Honest store) (accounted : Accounted store)
    (quiet : Quiet store store')
    (written : ∀ record ∈ store'.written, record ∈ store.written ∨
      record.completion.required = false ∨ record.delivery.status ≠ .delivered)
    (owed : call.run.completion.required = true → handsOver call = false → route ≠ .mirror →
      result.success = true → key call.run ∈ sent store) :
    Settles store (Announce.answer store' call route result).1
      (Announce.answer store' call route result).2 := by
  have published : sent (Announce.answer store' call route result).1 = sent store := quiet.sent
  constructor
  · constructor
    · intro report member required kept unmirrored success
      rw [published]
      rcases List.mem_cons.mp member with new | old
      · subst new
        exact owed required kept unmirrored success
      · rw [quiet.reports] at old
        exact honest.reports report old required kept unmirrored success
    · intro record member required delivered
      rw [published]
      rcases written record member with old | unrequired | undelivered
      · exact honest.written record old required delivered
      · rw [unrequired] at required
        cases required
      · exact absurd delivered undelivered
  · intro entry member
    rw [published]
    exact accounted entry (quiet.keys ▸ member)
  · trivial
  · rw [published]
    exact List.Subset.refl _

end Answers

/-- A step that goes on with another record written. -/
theorem Settles.goOn (honest : Honest store) (accounted : Accounted store)
    (quiet : Quiet store store')
    (written : ∀ record ∈ store'.written, record ∈ store.written ∨
      record.delivery.status ≠ .delivered)
    (sound : Sound store' after) : Settles store store' after := by
  constructor
  · constructor
    · intro report member required kept unmirrored success
      rw [quiet.sent]
      rw [quiet.reports] at member
      exact honest.reports report member required kept unmirrored success
    · intro record member required delivered
      rw [quiet.sent]
      rcases written record member with old | undelivered
      · exact honest.written record old required delivered
      · exact absurd delivered undelivered
  · intro entry member
    rw [quiet.sent]
    exact accounted entry (quiet.keys ▸ member)
  · exact sound
  · rw [quiet.sent]
    exact List.Subset.refl _

theorem Settles.deliver (honest : Honest store) (accounted : Accounted store)
    (pendingCount : Nat) :
    Settles store (Announce.deliver config store call pendingCount now).1
      (Announce.deliver config store call pendingCount now).2 := by
  unfold Announce.deliver
  dsimp only
  split
  · rename_i handed
    apply Settles.answer honest accounted
    · exact ⟨rfl, rfl, rfl⟩
    · intro record member
      exact .inl member
    · intro _ kept
      rw [handed] at kept
      cases kept
  split
  · rename_i delivered
    apply Settles.answer honest accounted
    · exact ⟨rfl, rfl, rfl⟩
    · intro record member
      exact .inl member
    · intro _ _ _ _
      exact sent_of_delivered accounted delivered
  split
  · apply Settles.answer honest accounted
    · exact ⟨rfl, rfl, rfl⟩
    · intro record member
      exact .inl member
    · intro _ _ unmirrored
      exact absurd rfl unmirrored
  split
  · rename_i unrequired
    have unneeded : call.run.completion.required = false := by simpa using unrequired
    apply Settles.answer honest accounted
    · exact ⟨rfl, rfl, rfl⟩
    · intro record member
      rcases List.mem_cons.mp member with new | old
      · subst new
        exact .inr (.inl unneeded)
      · exact .inl old
    · intro required
      rw [unneeded] at required
      cases required
  split
  · apply Settles.answer honest accounted
    · exact ⟨rfl, rfl, rfl⟩
    · intro record member
      rcases List.mem_cons.mp member with new | old
      · subst new
        exact .inr (.inr (by simp [SubagentRunRecord.markDeliverySuspended]))
      · exact .inl old
    · intro _ _ _ success
      cases success
  · have undelivered : (call.run.markDeliveryInProgress now).delivery.status ≠ .delivered := by
      simp [SubagentRunRecord.markDeliveryInProgress]
    apply Settles.goOn honest accounted
    · exact ⟨rfl, rfl, rfl⟩
    · intro record member
      rcases List.mem_cons.mp member with new | old
      · subst new
        exact .inr undelivered
      · exact .inl old
    · exact ⟨rfl, undelivered⟩

theorem Settles.giveUp (honest : Honest store) (accounted : Accounted store)
    (pendingCount : Nat) :
    Settles store (Announce.giveUp config store call run pendingCount now).1
      (Announce.giveUp config store call run pendingCount now).2 := by
  unfold Announce.giveUp
  dsimp only
  split
  · apply Settles.answer honest accounted
    · exact ⟨rfl, rfl, rfl⟩
    · intro record member
      rcases List.mem_cons.mp member with new | old
      · subst new
        exact .inr (.inr (by simp [SubagentRunRecord.markDeliveryDiscarded]))
      · exact .inl old
    · intro _ _ _ success
      cases success
  split
  · apply Settles.answer honest accounted
    · exact ⟨rfl, rfl, rfl⟩
    · intro record member
      rcases List.mem_cons.mp member with new | old
      · subst new
        exact .inr (.inr (by simp [SubagentRunRecord.markDeliverySuspended]))
      · exact .inl old
    · intro _ _ _ success
      cases success
  · apply Settles.answer honest accounted
    · exact ⟨rfl, rfl, rfl⟩
    · intro record member
      exact .inl member
    · intro _ _ _ success
      cases success

/-- All that `_mark_delivered` changes. -/
theorem markDelivered_cases {order : List String}
    (marked : markDelivered store run order = some store') :
    sent store' = sent store ∧ store'.reports = store.reports ∧ store'.written = store.written ∧
      (∀ entry ∈ store'.deliveredKeys, entry = idempotencyKey run ∨ entry ∈ store.deliveredKeys) ∧
      (∀ entry, entry = idempotencyKey run ∨ entry ∈ store.deliveredKeys ∨ entry ∈ store.evicted →
        entry ∈ store'.deliveredKeys ∨ entry ∈ store'.evicted) := by
  have inserted : ∀ entry, entry ∈ insertKey store.deliveredKeys (idempotencyKey run) ↔
      entry = idempotencyKey run ∨ entry ∈ store.deliveredKeys := by
    intro entry
    unfold insertKey
    split
    · rename_i there
      have held : idempotencyKey run ∈ store.deliveredKeys := by simpa using there
      constructor
      · exact .inr
      · rintro (same | old)
        · exact same ▸ held
        · exact old
    · simp
  unfold markDelivered at marked
  dsimp only at marked
  split at marked
  · have result := Option.some.inj marked
    subst result
    refine ⟨rfl, rfl, rfl, fun entry member => (inserted entry).mp member, ?_⟩
    rintro entry (same | old | gone)
    · exact .inl ((inserted entry).mpr (.inl same))
    · exact .inl ((inserted entry).mpr (.inr old))
    · exact .inr gone
  split at marked
  · rename_i listed
    have result := Option.some.inj marked
    subst result
    have perm := List.isPerm_iff.mp listed
    have halves : ∀ entry ∈ insertKey store.deliveredKeys (idempotencyKey run),
        entry ∈ order.drop 5000 ∨ entry ∈ order.take 5000 := by
      intro entry member
      have whole : entry ∈ order.take 5000 ++ order.drop 5000 := by
        rw [List.take_append_drop]
        exact perm.mem_iff.mpr member
      exact (List.mem_append.mp whole).symm
    refine ⟨rfl, rfl, rfl, ?_, ?_⟩
    · intro entry member
      exact (inserted entry).mp (perm.mem_iff.mp (List.mem_of_mem_drop member))
    · intro entry kept
      have split : entry ∈ insertKey store.deliveredKeys (idempotencyKey run) ∨
          entry ∈ store.evicted := by
        rw [inserted]
        exact or_assoc.mpr kept
      rcases split with member | gone
      · rcases halves entry member with last | first
        · exact .inl last
        · exact .inr (List.mem_append_left _ first)
      · exact .inr (List.mem_append_right _ gone)
  · cases marked

theorem Settles.settle {result : AnnounceStore × AnnounceTask} {order : List String}
    (honest : Honest store) (accounted : Accounted store) (same : key run = key call.run)
    (published : key run ∈ sent store) (settled : Announce.settle store call run now order = some result) :
    Settles store result.1 result.2 := by
  obtain ⟨marked, recorded, ended⟩ := Option.map_eq_some_iff.mp settled
  obtain ⟨kept, reports, written, entries, -⟩ := markDelivered_cases recorded
  subst ended
  have sends : sent (Announce.answer (write marked (run.markDeliveryDelivered now)) call .dispatch
      { success := true, dispatchPath := ["direct-primary"] }).1 = sent store := kept
  constructor
  · constructor
    · intro report member required handed unmirrored success
      rw [sends]
      rcases List.mem_cons.mp member with new | old
      · subst new
        exact same ▸ published
      · rw [show (write marked (run.markDeliveryDelivered now)).reports = store.reports from reports]
          at old
        exact honest.reports report old required handed unmirrored success
    · intro record member required delivered
      rw [sends]
      rcases List.mem_cons.mp member with new | old
      · subst new
        exact published
      · exact honest.written record (written ▸ old) required delivered
  · intro entry member
    rw [sends]
    rcases entries entry member with new | old
    · exact ⟨key run, published, new.symm⟩
    · exact accounted entry old
  · trivial
  · rw [sends]
    exact List.Subset.refl _

theorem Settles.publish (honest : Honest store) (accounted : Accounted store)
    (same : key run = key call.run) (own : key attempted = key call.run) :
    Settles store (Announce.publish store attempted) (.routing call run) := by
  have sends : sent (Announce.publish store attempted) = key attempted :: sent store := rfl
  have grown : sent store ⊆ sent (Announce.publish store attempted) := by
    rw [sends]
    exact List.subset_cons_self _ _
  constructor
  · constructor
    · intro report member required handed unmirrored success
      exact grown (honest.reports report member required handed unmirrored success)
    · intro record member required delivered
      exact grown (honest.written record member required delivered)
  · intro entry member
    obtain ⟨owner, there, names⟩ := accounted entry member
    exact ⟨owner, grown there, names⟩
  · refine ⟨same, ?_⟩
    rw [sends, same, own]
    exact List.mem_cons_self
  · exact grown

/-- A step that reports nothing and marks nothing as delivered. -/
theorem Settles.attemptRaised {attempt : Nat} (honest : Honest store)
    (accounted : Accounted store) (same : key run = key call.run)
    (own : key attempted = key call.run) (pendingCount : Nat) (error : String) :
    Settles store
      (Announce.attemptRaised config store call run attempted attempt pendingCount error now).1
      (Announce.attemptRaised config store call run attempted attempt pendingCount error now).2 := by
  unfold Announce.attemptRaised
  split
  · exact Settles.giveUp honest accounted pendingCount
  · apply Settles.goOn honest accounted
    · exact ⟨rfl, rfl, rfl⟩
    · intro record member
      rcases List.mem_cons.mp member with new | old
      · subst new
        exact .inr (by simp [SubagentRunRecord.markDeliveryFailed])
      · exact .inl old
    · exact ⟨same, own⟩

theorem Settles.resume (honest : Honest store) (accounted : Accounted store)
    (sound : Sound store task) (resumed : Announce.resume config store task input =
      some (store', after)) : Settles store store' after := by
  unfold Announce.resume at resumed
  split at resumed
  · rename_i call pendingCount now
    have settles : Settles store (Announce.deliver config store call pendingCount now).1
        (Announce.deliver config store call pendingCount now).2 :=
      Settles.deliver honest accounted pendingCount
    rwa [Option.some.inj resumed] at settles
  · rename_i call run pendingCount requesterSessionKey
    obtain ⟨same, undelivered⟩ := sound
    cases resumed
    apply Settles.goOn honest accounted
    · exact ⟨rfl, rfl, rfl⟩
    · intro record member
      rcases List.mem_cons.mp member with new | old
      · subst new
        exact .inr undelivered
      · exact .inl old
    · exact same
  · cases resumed
    apply Settles.goOn honest accounted
    · exact ⟨rfl, rfl, rfl⟩
    · intro record member
      exact .inl member
    · exact sound.1
  · cases resumed
    apply Settles.goOn honest accounted
    · exact ⟨rfl, rfl, rfl⟩
    · intro record member
      exact .inl member
    · exact ⟨sound, sound⟩
  · split at resumed
    · cases resumed
      exact Settles.publish honest accounted sound.1 sound.2
    · cases resumed
  · rename_i call run attempted attempt pendingCount error now
    split at resumed
    · have settles : Settles store
          (Announce.attemptRaised config store call run attempted attempt pendingCount error now).1
          (Announce.attemptRaised config store call run attempted attempt pendingCount error
            now).2 :=
        Settles.attemptRaised honest accounted sound.1 sound.2 pendingCount error
      rwa [Option.some.inj resumed] at settles
    · cases resumed
  · rename_i call run attempted attempt pendingCount now
    split at resumed
    · have settles : Settles store (Announce.giveUp config store call run pendingCount now).1
          (Announce.giveUp config store call run pendingCount now).2 :=
        Settles.giveUp honest accounted pendingCount
      rwa [Option.some.inj resumed] at settles
    · cases resumed
  · exact Settles.settle honest accounted sound.1 sound.2 resumed
  · cases resumed

/-! ## Honesty over a run -/

structure HonestWorld (w : World) : Prop where
  honest : Honest w.store
  accounted : Accounted w.store
  sound : ∀ task ∈ w.tasks, Sound w.store task

theorem HonestWorld.step {choice : Choice} (inv : HonestWorld w)
    (stepped : (program config).step w choice = some w') : HonestWorld w' := by
  obtain ⟨task, -, starts, store, tasks⟩ | ⟨index, input, task, after, -, resumes⟩ |
    ⟨-, restarted, -⟩ := Tasks.Program.step_cases _ stepped
  · constructor
    · rw [store]
      exact inv.honest
    · rw [store]
      exact inv.accounted
    · intro other member
      rw [tasks] at member
      rcases List.mem_append.mp member with old | new
      · exact (inv.sound other old).mono (by rw [store]; exact List.Subset.refl _)
      · have fresh := List.mem_singleton.mp new
        subst fresh
        cases other with
        | called call => trivial
        | _ => cases starts
  · have settles := Settles.resume inv.honest inv.accounted (inv.sound task resumes.mem)
      resumes.resumed
    constructor
    · exact settles.honest
    · exact settles.accounted
    · intro other member
      rcases resumes.mem_after member with new | old
      · rw [new]
        exact settles.sound
      · exact (inv.sound other old).mono settles.grown
  · cases restarted

/-! ## Publications over a careful run -/

/-- What one call may do to the publications and their keys. -/
inductive Effect (store store' : AnnounceStore) (task after : AnnounceTask) : Prop where
  | begins (call : DeliveryCall) (asked : task = .called call) (passed : passes store call = true)
      (under : delivering after = some (key call.run)) (idle : routed after = none)
      (published : sent store' = sent store) (keys : store'.deliveredKeys = store.deliveredKeys)
      (evicted : store'.evicted = store.evicted)
  | publishes (run : String × Nat) (before : delivering task = some run)
      (under : routed after = some run) (idle : delivering after = none)
      (published : sent store' = run :: sent store)
      (keys : store'.deliveredKeys = store.deliveredKeys) (evicted : store'.evicted = store.evicted)
  | records (run : String × Nat) (before : routed task = some run) (ended : underWay after = none)
      (published : sent store' = sent store)
      (kept : ∀ entry, entry = buildIdempotencyKey run.1 run.2 ∨ entry ∈ store.deliveredKeys ∨
        entry ∈ store.evicted → entry ∈ store'.deliveredKeys ∨ entry ∈ store'.evicted)
  | other (before : routed task = none) (idle : routed after = none)
      (under : delivering after = delivering task ∨ delivering after = none)
      (published : sent store' = sent store) (keys : store'.deliveredKeys = store.deliveredKeys)
      (evicted : store'.evicted = store.evicted)

theorem Effect.deliver (call : DeliveryCall) (pendingCount : Nat) (now : Time) :
    Effect store (Announce.deliver config store call pendingCount now).1 (.called call)
      (Announce.deliver config store call pendingCount now).2 := by
  unfold Announce.deliver
  dsimp only
  split
  · exact .other rfl rfl (.inr rfl) rfl rfl rfl
  split
  · exact .other rfl rfl (.inr rfl) rfl rfl rfl
  split
  · exact .other rfl rfl (.inr rfl) rfl rfl rfl
  split
  · exact .other rfl rfl (.inr rfl) rfl rfl rfl
  split
  · exact .other rfl rfl (.inr rfl) rfl rfl rfl
  · rename_i handed delivered mirrored _ _
    apply Effect.begins call rfl
    · unfold passes
      simp [handed, delivered, mirrored]
    · rfl
    · rfl
    · rfl
    · rfl
    · rfl

theorem Effect.giveUp (before : routed task = none) (call : DeliveryCall) (pendingCount : Nat) :
    Effect store (Announce.giveUp config store call run pendingCount now).1 task
      (Announce.giveUp config store call run pendingCount now).2 := by
  unfold Announce.giveUp
  dsimp only
  split
  · exact .other before rfl (.inr rfl) rfl rfl rfl
  split
  · exact .other before rfl (.inr rfl) rfl rfl rfl
  · exact .other before rfl (.inr rfl) rfl rfl rfl

theorem Effect.resume (sound : Sound store task)
    (resumed : Announce.resume config store task input = some (store', after)) :
    Effect store store' task after := by
  unfold Announce.resume at resumed
  split at resumed
  · rename_i call pendingCount now
    have effect : Effect store (Announce.deliver config store call pendingCount now).1
        (.called call) (Announce.deliver config store call pendingCount now).2 :=
      Effect.deliver call pendingCount now
    rwa [Option.some.inj resumed] at effect
  · cases resumed
    exact .other rfl rfl (.inl rfl) rfl rfl rfl
  · cases resumed
    exact .other rfl rfl (.inl rfl) rfl rfl rfl
  · cases resumed
    exact .other rfl rfl (.inl rfl) rfl rfl rfl
  · rename_i call run attempted attempt pendingCount
    split at resumed
    · cases resumed
      apply Effect.publishes (key call.run) rfl rfl rfl
      · rw [← sound.2]
        rfl
      · rfl
      · rfl
    · cases resumed
  · rename_i call run attempted attempt pendingCount error now
    split at resumed
    · have ended := Option.some.inj resumed
      unfold attemptRaised at ended
      split at ended
      · have effect : Effect store (Announce.giveUp config store call run pendingCount now).1
            (.attempting call run attempted attempt pendingCount)
            (Announce.giveUp config store call run pendingCount now).2 :=
          Effect.giveUp rfl call pendingCount
        rwa [ended] at effect
      · cases ended
        exact .other rfl rfl (.inl rfl) rfl rfl rfl
    · cases resumed
  · rename_i call run attempted attempt pendingCount now
    split at resumed
    · have effect : Effect store (Announce.giveUp config store call run pendingCount now).1
          (.attempting call run attempted attempt pendingCount)
          (Announce.giveUp config store call run pendingCount now).2 :=
        Effect.giveUp rfl call pendingCount
      rwa [Option.some.inj resumed] at effect
    · cases resumed
  · rename_i call run now order
    obtain ⟨marked, recorded, ended⟩ := Option.map_eq_some_iff.mp resumed
    obtain ⟨kept, -, -, -, entries⟩ := markDelivered_cases recorded
    cases ended
    apply Effect.records (key call.run) rfl rfl
    · exact kept
    · intro entry held
      apply entries
      rw [← sound.1] at held
      exact held
  · cases resumed

structure Once (w : World) : Prop where
  distinct : (w.tasks.filterMap underWay).Nodup
  once : (sent w.store).Nodup
  recorded : ∀ run ∈ sent w.store, buildIdempotencyKey run.1 run.2 ∈ w.store.deliveredKeys ∨
    buildIdempotencyKey run.1 run.2 ∈ w.store.evicted ∨ ∃ task ∈ w.tasks, routed task = some run
  unsent : ∀ task ∈ w.tasks, ∀ run, delivering task = some run → run ∉ sent w.store

theorem underWay_delivering {run : String × Nat} (under : delivering task = some run) :
    underWay task = some run := by
  unfold underWay
  rw [under]
  rfl

theorem underWay_routed {run : String × Nat} (idle : delivering task = none)
    (under : routed task = some run) : underWay task = some run := by
  unfold underWay
  rw [idle, under]
  rfl

section Around

variable {before later : List AnnounceTask} {run : String × Nat}

theorem underWay_around (before later : List AnnounceTask) (task : AnnounceTask) :
    (before ++ task :: later).filterMap underWay =
      before.filterMap underWay ++ ((underWay task).toList ++ later.filterMap underWay) := by
  rw [List.filterMap_append, List.filterMap_cons]
  cases underWay task with
  | none => rfl
  | some run => rfl

/-- The task that moves is the only one under way on its run and generation. -/
theorem alone_of_nodup (nodup : ((before ++ task :: later).filterMap underWay).Nodup)
    (under : underWay task = some run) : ∀ other ∈ before ++ later, underWay other ≠ some run := by
  rw [underWay_around, under] at nodup
  obtain ⟨-, rest, apart⟩ := List.nodup_append.mp nodup
  have fresh := (List.nodup_cons.mp rest).1
  intro other member same
  rcases List.mem_append.mp member with first | last
  · exact apart run (List.mem_filterMap.mpr ⟨other, first, same⟩) run List.mem_cons_self rfl
  · exact fresh (List.mem_filterMap.mpr ⟨other, last, same⟩)

theorem nodup_kept (nodup : ((before ++ task :: later).filterMap underWay).Nodup)
    (moved : underWay after = underWay task ∨ underWay after = none) :
    ((before ++ after :: later).filterMap underWay).Nodup := by
  rw [underWay_around] at nodup ⊢
  rcases moved with same | ended
  · rw [same]
    exact nodup
  · rw [ended]
    apply List.Nodup.sublist _ nodup
    exact List.Sublist.append_left (List.sublist_append_right _ _) _

theorem nodup_begun (nodup : ((before ++ task :: later).filterMap underWay).Nodup)
    (idle : underWay task = none) (under : underWay after = some run)
    (alone : ∀ other ∈ before ++ task :: later, underWay other ≠ some run) :
    ((before ++ after :: later).filterMap underWay).Nodup := by
  have absent : run ∉ before.filterMap underWay ++ later.filterMap underWay := by
    intro member
    rw [← List.filterMap_append] at member
    obtain ⟨other, there, same⟩ := List.mem_filterMap.mp member
    apply alone other _ same
    rcases List.mem_append.mp there with first | last
    · exact List.mem_append_left _ first
    · exact List.mem_append_right _ (List.mem_cons_of_mem _ last)
  rw [underWay_around] at nodup ⊢
  rw [idle] at nodup
  rw [under]
  exact List.nodup_middle.mpr (List.nodup_cons.mpr ⟨absent, nodup⟩)

end Around

/-- What is recorded stays recorded while the task that moves is not on the third path. -/
theorem Once.recorded_kept {before later : List AnnounceTask}
    (inv : Once w) (tasks : w.tasks = before ++ task :: later)
    (tasks' : w'.tasks = before ++ after :: later) (idle : routed task = none)
    (keys : w'.store.deliveredKeys = w.store.deliveredKeys)
    (evicted : w'.store.evicted = w.store.evicted) {run : String × Nat}
    (member : run ∈ sent w.store) :
    buildIdempotencyKey run.1 run.2 ∈ w'.store.deliveredKeys ∨
      buildIdempotencyKey run.1 run.2 ∈ w'.store.evicted ∨
        ∃ task ∈ w'.tasks, routed task = some run := by
  rw [keys, evicted]
  rcases inv.recorded run member with held | gone | ⟨other, there, under⟩
  · exact .inl held
  · exact .inr (.inl gone)
  · right
    right
    refine ⟨other, ?_, under⟩
    rw [tasks] at there
    rw [tasks']
    rcases List.mem_append.mp there with first | last
    · exact List.mem_append_left _ first
    · rcases List.mem_cons.mp last with same | last
      · rw [same, idle] at under
        cases under
      · exact List.mem_append_right _ (List.mem_cons_of_mem _ last)

/-- The other tasks are still about to publish something new. -/
theorem Once.unsent_others {before later : List AnnounceTask} (inv : Once w)
    (tasks : w.tasks = before ++ task :: later) {other : AnnounceTask}
    (member : other ∈ before ++ later) {run : String × Nat}
    (under : delivering other = some run) : run ∉ sent w.store := by
  apply inv.unsent other _ run under
  rw [tasks]
  rcases List.mem_append.mp member with first | last
  · exact List.mem_append_left _ first
  · exact List.mem_append_right _ (List.mem_cons_of_mem _ last)

theorem mem_around {before later : List AnnounceTask} {other : AnnounceTask}
    (member : other ∈ before ++ after :: later) : other = after ∨ other ∈ before ++ later := by
  rcases List.mem_append.mp member with first | last
  · exact .inr (List.mem_append_left _ first)
  · rcases List.mem_cons.mp last with same | last
    · exact .inl same
    · exact .inr (List.mem_append_right _ last)

/-- A call that passes the checks of a careful run is the first one on its run. -/
theorem Once.fresh (inv : Once w) (passed : passes w.store call = true)
    (careful : CarefulTask w (.called call)) : key call.run ∉ sent w.store := by
  obtain ⟨alone, unevicted⟩ := careful passed
  intro member
  rcases inv.recorded _ member with held | gone | ⟨other, there, under⟩
  · have undelivered : isAlreadyDelivered w.store call.run = false := by
      unfold passes at passed
      simp only [Bool.and_eq_true, Bool.not_eq_true'] at passed
      exact passed.1.2
    have absent : idempotencyKey call.run ∉ w.store.deliveredKeys := by
      unfold isAlreadyDelivered at undelivered
      simpa using undelivered
    exact absent held
  · exact unevicted gone
  · have idle : delivering other = none := by
      cases other with
      | routing call run => rfl
      | _ => cases under
    exact alone other there (underWay_routed idle under)

theorem Once.resume {before later : List AnnounceTask} (inv : Once w)
    (tasks : w.tasks = before ++ task :: later) (tasks' : w'.tasks = before ++ after :: later)
    (careful : CarefulTask w task) (effect : Effect w.store w'.store task after) : Once w' := by
  have distinct := inv.distinct
  rw [tasks] at distinct
  cases effect with
  | begins call asked passed under idle published keys evicted =>
    subst asked
    have fresh := inv.fresh passed careful
    have alone := (careful passed).1
    rw [tasks] at alone
    constructor
    · rw [tasks']
      exact nodup_begun distinct rfl (underWay_delivering under) alone
    · rw [published]
      exact inv.once
    · intro run member
      rw [published] at member
      exact inv.recorded_kept tasks tasks' rfl keys evicted member
    · intro other member run same
      rw [published]
      rw [tasks'] at member
      rcases mem_around member with new | old
      · rw [new, under] at same
        rw [← Option.some.inj same]
        exact fresh
      · exact inv.unsent_others tasks old same
  | publishes run running under idle published keys evicted =>
    have unsent : run ∉ sent w.store := by
      apply inv.unsent task _ run running
      rw [tasks]
      simp
    have idled : routed task = none := by
      cases task with
      | routing call run => cases running
      | _ => rfl
    have alone := alone_of_nodup distinct (underWay_delivering running)
    constructor
    · rw [tasks']
      apply nodup_kept distinct
      left
      rw [underWay_delivering running, underWay_routed idle under]
    · rw [published]
      exact List.nodup_cons.mpr ⟨unsent, inv.once⟩
    · intro other member
      rw [published] at member
      rcases List.mem_cons.mp member with same | old
      · right
        right
        refine ⟨after, ?_, by rw [same]; exact under⟩
        rw [tasks']
        simp
      · exact inv.recorded_kept tasks tasks' idled keys evicted old
    · intro other member run' same
      rw [tasks'] at member
      rw [published]
      rcases mem_around member with new | old
      · rw [new, idle] at same
        cases same
      · intro sends
        rcases List.mem_cons.mp sends with equal | earlier
        · rw [equal] at same
          exact alone other old (underWay_delivering same)
        · exact inv.unsent_others tasks old same earlier
  | records run running ended published kept =>
    have nothing : delivering after = none := by
      unfold underWay at ended
      exact (Option.or_eq_none_iff.mp ended).1
    constructor
    · rw [tasks']
      exact nodup_kept distinct (.inr ended)
    · rw [published]
      exact inv.once
    · intro other member
      rw [published] at member
      rcases inv.recorded other member with held | gone | ⟨task', there, under⟩
      · rcases kept _ (.inr (.inl held)) with stays | drops
        · exact .inl stays
        · exact .inr (.inl drops)
      · rcases kept _ (.inr (.inr gone)) with stays | drops
        · exact .inl stays
        · exact .inr (.inl drops)
      · rw [tasks] at there
        rcases mem_around there with same | elsewhere
        · rw [same, running] at under
          have owner := Option.some.inj under
          rcases kept (buildIdempotencyKey other.1 other.2) (.inl (by rw [owner])) with
            stays | drops
          · exact .inl stays
          · exact .inr (.inl drops)
        · right
          right
          refine ⟨task', ?_, under⟩
          rw [tasks']
          rcases List.mem_append.mp elsewhere with first | last
          · exact List.mem_append_left _ first
          · exact List.mem_append_right _ (List.mem_cons_of_mem _ last)
    · intro other member run' same
      rw [tasks'] at member
      rw [published]
      rcases mem_around member with new | old
      · rw [new, nothing] at same
        cases same
      · exact inv.unsent_others tasks old same
  | other idled idle under published keys evicted =>
    constructor
    · rw [tasks']
      apply nodup_kept distinct
      unfold underWay
      rw [idle, idled]
      rcases under with same | ended
      · exact .inl (by rw [same])
      · exact .inr (by rw [ended]; rfl)
    · rw [published]
      exact inv.once
    · intro run member
      rw [published] at member
      exact inv.recorded_kept tasks tasks' idled keys evicted member
    · intro other member run same
      rw [tasks'] at member
      rw [published]
      rcases mem_around member with new | old
      · rw [new] at same
        rcases under with kept | ended
        · rw [kept] at same
          apply inv.unsent task _ run same
          rw [tasks]
          simp
        · rw [ended] at same
          cases same
      · exact inv.unsent_others tasks old same

theorem Once.step {choice : Choice} (inv : Once w) (sound : HonestWorld w)
    (careful : Careful w choice) (stepped : (program config).step w choice = some w') :
    Once w' := by
  obtain ⟨task, -, starts, store, tasks⟩ | ⟨index, input, task, after, moved, resumes⟩ |
    ⟨-, restarted, -⟩ := Tasks.Program.step_cases _ stepped
  · have fresh : delivering task = none ∧ underWay task = none := by
      cases task with
      | called call => exact ⟨rfl, rfl⟩
      | _ => cases starts
    constructor
    · rw [tasks, List.filterMap_append]
      simpa [fresh.2] using inv.distinct
    · rw [store]
      exact inv.once
    · intro run member
      rw [store] at member ⊢
      rcases inv.recorded run member with held | gone | ⟨other, there, under⟩
      · exact .inl held
      · exact .inr (.inl gone)
      · right
        right
        refine ⟨other, ?_, under⟩
        rw [tasks]
        exact List.mem_append_left _ there
    · intro other member run under
      rw [store]
      rw [tasks] at member
      rcases List.mem_append.mp member with old | new
      · exact inv.unsent other old run under
      · rw [List.mem_singleton.mp new, fresh.1] at under
        cases under
  · subst moved
    obtain ⟨before, later, tasks, tasks'⟩ := resumes.split
    apply inv.resume tasks tasks'
    · exact careful task resumes.at_index
    · exact Effect.resume (sound.sound task resumes.mem) resumes.resumed
  · cases restarted

/-! ## The delivery -/

theorem HonestWorld.init : HonestWorld ({ store := {} } : World) := by
  constructor
  · constructor
    · simp
    · simp
  · intro entry member
    cases member
  · simp

theorem Once.init : Once ({ store := {} } : World) := by
  constructor
  · exact List.nodup_nil
  · exact List.nodup_nil
  · intro run member
    cases member
  · simp

theorem HonestWorld.of_runs {cond : World → Choice → Prop}
    (runs : (program config).Runs cond { store := {} } w) : HonestWorld w :=
  runs.invariant HonestWorld .init fun _ _ _ inv _ stepped => inv.step stepped

/-- A call that is neither handed over nor answered by the mirror succeeds, and a record is
marked as delivered, only once the message has been published; while no call passes the
checks beside another on its run and generation, or after their key was evicted, the
message is published at most once. -/
theorem delivery_honest_and_once (config : AnnounceConfig) :
    (∀ w, (program config).Runs (fun _ _ => True) { store := {} } w → Honest w.store) ∧
      ∀ w, (program config).Runs Careful { store := {} } w → (sent w.store).Nodup := by
  constructor
  · intro w run
    exact (HonestWorld.of_runs run).honest
  · intro w run
    have both : HonestWorld w ∧ Once w := by
      apply run.invariant (fun w => HonestWorld w ∧ Once w)
      · exact ⟨.init, .init⟩
      · intro u u' choice inv careful stepped
        exact ⟨inv.1.step stepped, inv.2.step inv.1 careful stepped⟩
    exact both.2.once

def completedRun : SubagentRunRecord :=
  { runId := "r", childSessionKey := "c", requesterSessionKey := "main"
    execution := { status := .terminal } }

/-- A delivery that fails once, publishes on the second attempt and is then redelivered. -/
def redelivery : List Choice :=
  [.spawn (.called { run := completedRun }), .run 0 (.counted 0 1), .run 0 (.redirect none),
    .run 0 (.next 2), .run 0 (.raised "timeout" 3), .run 0 .published, .run 0 (.routed 4 []),
    .spawn (.called { run := completedRun, fromEffects := true, execution := true }),
    .run 1 (.counted 0 5)]

theorem delivery_honest_and_once_redelivered :
    ∃ w, (program {}).Runs Careful { store := {} } w ∧ sent w.store = [("r", 0)] ∧
      w.store.reports.length = 2 ∧ Honest w.store ∧ (sent w.store).Nodup := by
  have played : (Machine.play (program {}).step (fun w choice => decide (Careful w choice))
      { store := {} } redelivery).any (fun w => sent w.store == [("r", 0)] &&
        w.store.reports.length == 2) = true := by
    decide +kernel
  obtain ⟨w, run, test⟩ := Machine.Runs.exists_of_play played
  simp only [Bool.and_eq_true, beq_iff_eq] at test
  have careful : (program {}).Runs Careful { store := {} } w :=
    run.mono fun _ _ allowed => of_decide_eq_true allowed
  have anyRun : (program {}).Runs (fun _ _ => True) { store := {} } w :=
    run.mono fun _ _ _ => trivial
  exact ⟨w, careful, test.1, test.2, (delivery_honest_and_once {}).1 w anyRun,
    (delivery_honest_and_once {}).2 w careful⟩

/-- With execution on, a call of a required completion succeeds and nothing is published. -/
theorem enqueued_call_succeeds :
    ∃ w, (program {}).Runs (fun _ _ => True) { store := {} } w ∧
      (∃ report ∈ w.store.reports, report.call.run.completion.required = true ∧
        report.result.success = true ∧ key report.call.run ∉ sent w.store) := by
  have played : (Machine.play (program {}).step (fun _ _ => true) { store := {} }
      [.spawn (.called { run := completedRun, execution := true }), .run 0 (.counted 0 1)]).any
      (fun w => w.store.reports.any fun report => report.call.run.completion.required &&
        report.result.success && !(sent w.store).contains (key report.call.run)) = true := by
    decide +kernel
  obtain ⟨w, run, test⟩ := Machine.Runs.exists_of_play played
  obtain ⟨report, member, test⟩ := List.any_eq_true.mp test
  simp only [Bool.and_eq_true, Bool.not_eq_true', List.contains_eq_mem, decide_eq_false_iff_not]
    at test
  exact ⟨w, run.mono fun _ _ _ => trivial, report, member, test.1.1, test.1.2, test.2⟩

end SherryAgent.Guarantees.Announcements
