import Mathlib.Algebra.Group.Nat.Defs
import SherryAgent.Contracts.Taskflow.Rows

/-!
# Redelivered results

A child's announcement may be delivered more than once. `taskflow_resume` drops a
delivery whose result hash is in the row it reads first; a replacement child is
spawned after that read and before the write, across the retry delay and the judge.

* `overlapping_deliveries_spawn_twice` — two deliveries that both read before either
  writes start two replacements;
* `redelivered_once` — while no delivery that may call for a replacement reads during
  another one, all deliveries together start at most one and record the result once.
-/

namespace SherryAgent.Guarantees.Redelivery

open SherryAgent.Source SherryAgent.Source.Taskflow SherryAgent.Contracts.Taskflow
  SherryAgent.Library.Resumption

/-- A delivery of the result of a child. -/
def delivers (child result : String) : Call → Bool
  | .resume args => PyText.strip args.childSessionKey == child && args.result == result
  | _ => false

def replacement (request : SpawnRequest) : Bool :=
  request.site == .resumeRetry || request.site == .judgeRetry

/-- The replacements a call has started. -/
def replaced (h : History) : Nat := (spawns h).countP replacement

/-- The replacements all calls have started. -/
def replacements (store : Store) : Nat := store.spawned.countP fun child => replacement child.1

/-- How often the result is recorded. -/
def recorded (hash : String) (results : List ResultRecord) : Nat :=
  results.countP (·.resultHash == hash)

/-- Any interleaving of deliveries of one result. -/
def deliveries (child result : String) (_ : FlowWorld) (choice : Choice Call Input) : Bool :=
  match choice with
  | .start call => delivers child result call
  | .run .. => true

/-- The row passes the duplicate check, and the result may call for a replacement of the step
that waits for it. -/
def calling (env : Env) (args : ResumeArgs) (row : Flow) : Bool :=
  !isTerminal row.status &&
    !hasResult row.state.results (resultHash env (PyText.strip args.childSessionKey) args.result) &&
    (matched args row).any (mayReplace env args)

/-- The first read of the delivery found such a row. -/
def called (env : Env) (t : Thread effects Call Reply) : Bool :=
  match t.request with
  | .resume args => (reads t.history).any fun read =>
      read.1 == .resume (PyText.strip args.childSessionKey) && calling env args read.2
  | _ => false

/-- The condition on a step: a delivery does not find such a row while another one that found one
has not stored its result. -/
def inTurn (env : Env) (child result : String) (w : FlowWorld) (choice : Choice Call Input) :
    Bool :=
  match choice with
  | .start call => delivers child result call
  | .run i _ =>
    match w.pending choice, w.store.row with
    | some (⟨.resume args, _, _⟩, .getFlow (.resume _)), some row =>
      !calling env args row ||
        (w.threads.eraseIdx i).all fun other => !called env other || resumed other.history
    | _, _ => true

variable {env : Env} {child result : String}

/-! ## One delivery -/

theorem resume_of_delivers (env : Env) {call : Call} (delivered : delivers child result call = true) :
    ∃ args, call = .resume args ∧
      resultHash env (PyText.strip args.childSessionKey) args.result =
        resultHash env child result := by
  cases call with
  | resume args =>
    simp only [delivers, Bool.and_eq_true, beq_iff_eq] at delivered
    exact ⟨args, rfl, by rw [delivered.1, delivered.2]⟩
  | _ => cases delivered

theorem replaced_append (h : History) (event : Event effects) :
    replaced (h ++ [event]) =
      replaced h + (starting event.op event.ans).toList.countP replacement := by
  rw [replaced, spawns, seen_append, List.countP_append]
  rfl

/-- A replacement is started before anything else is started. -/
theorem replacement_first {call : Call} {h : History} {request : SpawnRequest}
    (may : MaySpawn env call h request) (replaces : replacement request = true) :
    spawns h = [] := by
  cases may with
  | retry accepted unchanged found calls site first => exact first.2
  | wave read unchanged dispatchable found site => simp [replacement, site] at replaces
  | dispatch dispatches read unchanged live requested found valid site =>
    simp [replacement, site] at replaces
  | runTask read unchanged live satisfied site => simp [replacement, site] at replaces
  | settled read unchanged busy site => simp [replacement, site] at replaces

/-- One operation starts a replacement only as the first child of its call. -/
theorem replaced_extend {call : Call} {h : History} {op : Op} {ans : op.Ans}
    (once : replaced h ≤ 1) (may : MayPerform env call h op) :
    replaced (h ++ [⟨op, ans⟩]) ≤ 1 := by
  rw [replaced_append]
  cases started : starting op ans with
  | none => simpa using once
  | some request =>
    obtain ⟨answer, event⟩ := starting_eq_some started
    cases event
    by_cases replaces : replacement request = true
    · have first := replacement_first may replaces
      simp [replaced, first, replaces]
    · simpa [replaces] using once

/-- A replacement is started by a delivery whose first read called for it. -/
theorem called_of_spawn {t : Thread effects Call Reply} {request : SpawnRequest}
    (may : MaySpawn env t.request t.history request) (replaces : replacement request = true) :
    called env t = true := by
  obtain ⟨call, program, h⟩ := t
  dsimp only at may
  cases may with
  | retry accepted unchanged found calls =>
    rw [called, List.any_eq_true]
    refine ⟨_, accepted.read, ?_⟩
    simp [calling, accepted.live, accepted.fresh, found, calls]
  | wave read unchanged dispatchable found site => simp [replacement, site] at replaces
  | dispatch dispatches read unchanged live requested found valid site =>
    simp [replacement, site] at replaces
  | runTask read unchanged live satisfied site => simp [replacement, site] at replaces
  | settled read unchanged busy site => simp [replacement, site] at replaces

/-- What was read stays read. -/
theorem called_mono {t t' : Thread effects Call Reply} (request : t'.request = t.request)
    (earlier : t.history <+: t'.history) (calls : called env t = true) : called env t' = true := by
  unfold called at calls ⊢
  rw [request]
  split at calls
  · obtain ⟨read, member, holds⟩ := List.any_eq_true.mp calls
    exact List.any_eq_true.mpr ⟨read, seen_mono earlier member, holds⟩
  · cases calls

/-! ## The record -/

theorem recorded_addResult (results : List ResultRecord) (record : ResultRecord) :
    recorded record.resultHash (addResult results record) ≤
        max 1 (recorded record.resultHash results) ∧
      hasResult (addResult results record) record.resultHash = true := by
  unfold addResult
  split
  · rename_i here
    exact ⟨Nat.le_max_right _ _, here⟩
  · rename_i absent
    have none_yet : recorded record.resultHash results = 0 := by
      rw [recorded, List.countP_eq_zero]
      intro other member found
      exact absent (List.any_eq_true.mpr ⟨other, member, found⟩)
    have added : recorded record.resultHash (results ++ [record]) = 1 := by
      rw [recorded] at none_yet ⊢
      simp [List.countP_append, none_yet]
    rw [added]
    exact ⟨Nat.le_max_left _ _, by simp [hasResult]⟩

/-- What a delivery's write makes of the results: its record is added to the results
it was computed from, or a wave leaves those of the row. -/
theorem write_results {call : Call} {h : History} {wr : Write}
    (delivered : delivers child result call = true) (may : MayWrite env call h wr) (row : Flow) :
    (BuildState.resumes wr.build = true ∧ ∃ record : ResultRecord,
      record.resultHash = resultHash env child result ∧
      (wr.update row).state.results = addResult wr.current.state.results record) ∨
    (BuildState.resumes wr.build = false ∧
      wr.expectedRevision ≤ wr.current.expectedRevision ∧
      (wr.update row).state.results = wr.current.state.results) := by
  obtain ⟨args, rfl, key⟩ := resume_of_delivers env delivered
  obtain ⟨plan, planned, attempt, -⟩ := may
  have build : wr.build = plan.build := by cases attempt <;> rfl
  cases planned with
  | unmatched accepted none_matched hash =>
    exact .inl ⟨by rw [build]; rfl, _, hash.trans key, by
      simp [Write.update, build, BuildState.apply, FlowState.resetBudgets]⟩
  | redispatch accepted found decides respawned hash =>
    exact .inl ⟨by rw [build]; rfl, _, hash.trans key, by
      simp [Write.update, build, BuildState.apply, FlowState.resetBudgets]⟩
  | settle accepted found decides settled hash =>
    refine .inl ⟨by rw [build]; rfl, _, hash.trans key, ?_⟩
    simp only [Write.update, build, BuildState.apply, Option.getD_some]
    split <;> rfl
  | wave read distinct batched =>
    refine .inr ⟨by rw [build]; rfl, ?_, by simp [Write.update, build, BuildState.apply]⟩
    cases attempt <;> exact Int.le_refl _
  | dispatch dispatches => cases dispatches
  | single read live writes => cases writes
  | compensate creates read => cases creates

/-! ## All deliveries -/

/-- What every run of deliveries keeps, whatever `initial` copies of the result the row
held at the start. -/
structure Delivering (env : Env) (child result : String) (initial : Nat) (w : FlowWorld) :
    Prop where
  sound : Sound env w
  serves : ∀ t ∈ w.threads, delivers child result t.request = true
  once : ∀ t ∈ w.threads, replaced t.history ≤ 1
  row : ∃ row, w.store.row = some row ∧
    recorded (resultHash env child result) row.state.results ≤ max 1 initial
  reads : ∀ t ∈ w.threads, ∀ read ∈ reads t.history,
    recorded (resultHash env child result) read.2.state.results ≤ max 1 initial
  held : ∀ t ∈ w.threads, resumed t.history = true → ∀ row, w.store.row = some row →
    hasResult row.state.results (resultHash env child result) = true
  counted : replacements w.store = w.total fun t => replaced t.history
  calls : ∀ t ∈ w.threads, 0 < replaced t.history → called env t = true
  single : ∀ (i j : Nat) a b, w.threads[i]? = some a → w.threads[j]? = some b →
    called env a = true → called env b = true → i = j

variable {initial : Nat} {w w' : FlowWorld}

/-- A write of a delivery keeps the result recorded at most once, and a stored resume
leaves it recorded. -/
theorem stored_results {thread : Thread effects Call Reply} {wr : Write} {row : Flow}
    (before : Delivering env child result initial w) (member : thread ∈ w.threads)
    (may : MayWrite env thread.request thread.history wr) (stands : w.store.row = some row)
    (matching : row.expectedRevision = wr.expectedRevision) :
    recorded (resultHash env child result) (wr.update row).state.results ≤ max 1 initial ∧
      (BuildState.resumes wr.build = true ∨
        hasResult row.state.results (resultHash env child result) = true →
        hasResult (wr.update row).state.results (resultHash env child result) = true) := by
  obtain ⟨row', stands', bound⟩ := before.row
  rw [stands, Option.some.injEq] at stands'
  subst stands'
  rcases write_results (before.serves thread member) may row with
    ⟨-, record, hash, results⟩ | ⟨other, revision, results⟩
  · obtain ⟨read, seen_read, same⟩ := MayWrite.current_read may
    have counted := before.reads thread member read seen_read
    have added := recorded_addResult wr.current.state.results record
    rw [hash, same] at added
    rw [results, same]
    exact ⟨by omega, fun _ => added.2⟩
  · obtain ⟨plan, -, based⟩ := before.sound.based member may stands matching revision
    rw [results, based.results]
    exact ⟨bound, fun held => held.resolve_left (by simp [other])⟩

/-- The results after one operation of a delivery. -/
theorem delivered_row {i : Nat} {thread : Thread effects Call Reply} {op : Op} {ans : op.Ans}
    (before : Delivering env child result initial w)
    (fires : (system env).Fires w w' i thread op ans) :
    ∃ row row', w.store.row = some row ∧ w'.store.row = some row' ∧
      recorded (resultHash env child result) row'.state.results ≤ max 1 initial ∧
      ((storing op ans).toList.any (fun wr => BuildState.resumes wr.build) = true ∨
        hasResult row.state.results (resultHash env child result) = true →
        hasResult row'.state.results (resultHash env child result) = true) := by
  obtain ⟨row, stands, bound⟩ := before.row
  have member := System.Fires.mem fires
  have issued := System.Fires.issued fires before.sound.honours
  obtain ⟨args, resumes, -⟩ := resume_of_delivers env (before.serves thread member)
  refine ⟨row, ?_⟩
  cases Fires.rowEffect fires with
  | kept same unstored read =>
    exact ⟨row, stands, same.trans stands, bound, fun held => by simpa [unstored] using held⟩
  | @stored wr row₀ stands₀ matching written =>
    rw [stands, Option.some.injEq] at stands₀
    subst stands₀
    obtain ⟨counted, held⟩ := stored_results before member issued stands matching
    exact ⟨_, stands, written, counted, fun cause => held (by simpa [storing] using cause)⟩
  | created absent written =>
    rw [resumes] at issued
    cases issued
  | superseded stands₀ written =>
    obtain ⟨successor, call⟩ := issued
    rw [resumes] at call
    cases call

theorem replacements_fires {i : Nat} {thread : Thread effects Call Reply} {op : Op} {ans : op.Ans}
    (fires : (system env).Fires w w' i thread op ans)
    (counted : replacements w.store = w.total fun t => replaced t.history) :
    replacements w'.store = w'.total fun t => replaced t.history := by
  obtain ⟨input, executed⟩ := System.Fires.executed fires
  obtain ⟨after, -, history, balance⟩ :=
    System.Fires.total fires fun t => replaced t.history
  have started := congrArg (List.countP replacement) (exec_spawned executed)
  rw [List.countP_append, List.countP_map, List.countP_map] at started
  have added : replacements w'.store =
      replacements w.store + (starting op ans).toList.countP replacement := started
  simp only [history, replaced_append] at balance
  omega

/-- A delivery comes to call by its first read, of the row that stands. -/
theorem called_fires {i : Nat} {thread t : Thread effects Call Reply} {op : Op} {ans : op.Ans}
    {row : Flow} (fires : (system env).Fires w w' i thread op ans)
    (stands : w.store.row = some row) (request : t.request = thread.request)
    (history : t.history = thread.history ++ [⟨op, ans⟩]) (idle : called env thread = false)
    (calls : called env t = true) :
    ∃ args, thread.request = .resume args ∧
      op = .getFlow (.resume (PyText.strip args.childSessionKey)) ∧
      calling env args row = true := by
  unfold called at idle calls
  rw [request] at calls
  cases requested : thread.request with
  | resume args =>
    rw [requested] at idle calls
    dsimp only at idle calls
    rw [history, reads, seen_append, List.any_append, idle, Bool.false_or] at calls
    obtain ⟨read, member, holds⟩ := List.any_eq_true.mp calls
    obtain ⟨site, found⟩ := read
    have seen_read : reading op ans = some (site, found) := by simpa using member
    rw [Bool.and_eq_true, beq_iff_eq] at holds
    obtain ⟨same, holds⟩ := holds
    dsimp only at same holds
    subst same
    have effect := Fires.rowEffect fires
    obtain rfl : row = found := by
      cases effect with
      | kept kept unstored answers =>
        rw [answers _ _ seen_read, Option.some.injEq] at stands
        exact stands.symm
      | _ => cases seen_read
    cases op with
    | getFlow site =>
      cases ans with
      | none => cases seen_read
      | some other =>
        cases seen_read
        exact ⟨args, rfl, rfl, holds⟩
    | _ => cases seen_read
  | _ =>
    rw [requested] at calls
    cases calls

/-- Only one delivery ever calls for a replacement: the row of a later read holds the result. -/
theorem single_fires {i : Nat} {input : Input} {thread : Thread effects Call Reply} {op : Op}
    {ans : op.Ans} (before : Delivering env child result initial w)
    (allowed : inTurn env child result w (.run i input) = true)
    (fires : (system env).Fires w w' i thread op ans) (j k : Nat) (a b : Thread effects Call Reply)
    (at_j : w'.threads[j]? = some a) (at_k : w'.threads[k]? = some b)
    (calls_a : called env a = true) (calls_b : called env b = true) : j = k := by
  obtain ⟨row, stands, -⟩ := before.row
  have alone : ∀ (l : Nat) (t c : Thread effects Call Reply), t.request = thread.request →
      t.history = thread.history ++ [⟨op, ans⟩] → called env t = true →
      l ≠ i → w.threads[l]? = some c → called env c = true → False := by
    intro l t c request history calls_t other at_l calls_c
    by_cases already : called env thread = true
    · exact other (before.single l i c thread at_l fires.at_index calls_c already)
    · obtain ⟨args, requested, reads_row, calls⟩ :=
        called_fires fires stands request history (by simpa using already) calls_t
      obtain ⟨other_call, program, past⟩ := thread
      dsimp only at requested
      subst requested reads_row
      simp only [inTurn, System.Fires.pending fires input, stands, calls, Bool.not_true,
        Bool.false_or, List.all_eq_true] at allowed
      have inside : c ∈ w.threads.eraseIdx i :=
        List.mem_eraseIdx_iff_getElem?.mpr ⟨l, other, at_l⟩
      have stored : resumed c.history = true := by simpa [calls_c] using allowed c inside
      have held := before.held c (List.mem_of_getElem? at_l) stored row stands
      obtain ⟨same_args, same, key⟩ :=
        resume_of_delivers env (before.serves _ (System.Fires.mem fires))
      cases same
      simp [calling, key, held] at calls
  rcases System.Fires.index_cases fires at_j with ⟨other_j, old_j⟩ | ⟨rfl, request_j, history_j⟩
  · rcases System.Fires.index_cases fires at_k with ⟨other_k, old_k⟩ | ⟨rfl, request_k, history_k⟩
    · exact before.single j k a b old_j old_k calls_a calls_b
    · exact (alone j b a request_k history_k calls_b other_j old_j calls_a).elim
  · rcases System.Fires.index_cases fires at_k with ⟨other_k, old_k⟩ | ⟨rfl, -, -⟩
    · exact (alone k a b request_j history_j calls_a other_k old_k calls_b).elim
    · rfl

/-- A replacement keeps to the deliveries that called for it. -/
theorem calls_fires {i : Nat} {thread : Thread effects Call Reply} {op : Op} {ans : op.Ans}
    (before : Delivering env child result initial w)
    (fires : (system env).Fires w w' i thread op ans) (t : Thread effects Call Reply)
    (inside : t ∈ w'.threads) (starts : 0 < replaced t.history) : called env t = true := by
  rcases System.Fires.thread_cases fires inside with old | ⟨request, history⟩
  · exact before.calls t old starts
  · have member := System.Fires.mem fires
    have earlier : thread.history <+: t.history := by
      rw [history]
      exact List.prefix_append _ _
    apply called_mono request earlier
    by_cases started : 0 < replaced thread.history
    · exact before.calls thread member started
    · rw [history, replaced_append, Nat.eq_zero_of_not_pos started, Nat.zero_add] at starts
      obtain ⟨asked, spawned, replaces⟩ := List.countP_pos_iff.mp starts
      obtain ⟨answer, event⟩ := starting_eq_some (Option.mem_toList.mp spawned)
      cases event
      exact called_of_spawn (System.Fires.issued fires before.sound.honours) replaces

theorem delivering_initial (row : Flow) : Delivering env child result
    (recorded (resultHash env child result) row.state.results) (initialWorld (some row)) where
  sound := sound_initial _
  serves _ member := absurd member List.not_mem_nil
  once _ member := absurd member List.not_mem_nil
  row := ⟨row, rfl, Nat.le_max_right _ _⟩
  reads _ member := absurd member List.not_mem_nil
  held _ member := absurd member List.not_mem_nil
  counted := rfl
  calls _ member := absurd member List.not_mem_nil
  single _ _ _ _ at_i := absurd (List.mem_of_getElem? at_i) List.not_mem_nil

theorem delivering_start {call : Call} (before : Delivering env child result initial w)
    (delivered : delivers child result call = true) (store : w'.store = w.store)
    (threads : w'.threads = w.threads ++ [⟨call, code env call, []⟩])
    (stepped : (system env).step w (.start call) = some w') :
    Delivering env child result initial w' := by
  have cases_of : ∀ t ∈ w'.threads, t ∈ w.threads ∨ (t.request = call ∧ t.history = []) := by
    intro t member
    rw [threads] at member
    rcases List.mem_append.mp member with old | new
    · exact .inl old
    · rw [List.mem_singleton.mp new]
      exact .inr ⟨rfl, rfl⟩
  have uncalled : ∀ t : Thread effects Call Reply, t.history = [] → called env t = false := by
    intro t history
    unfold called
    rw [history]
    split <;> rfl
  have old_of_called : ∀ (j : Nat) (t : Thread effects Call Reply), w'.threads[j]? = some t →
      called env t = true → w.threads[j]? = some t := by
    intro j t at_j calls
    rw [threads, List.getElem?_append] at at_j
    split at at_j
    · exact at_j
    · obtain rfl := List.mem_singleton.mp (List.mem_of_getElem? at_j)
      rw [uncalled _ rfl] at calls
      cases calls
  refine ⟨sound_step before.sound stepped, ?_, ?_, by rw [store]; exact before.row, ?_, ?_, ?_, ?_,
    ?_⟩
  · intro t member
    rcases cases_of t member with old | ⟨request, -⟩
    · exact before.serves t old
    · rw [request]
      exact delivered
  · intro t member
    rcases cases_of t member with old | ⟨-, history⟩
    · exact before.once t old
    · rw [history]
      exact Nat.zero_le 1
  · intro t member read seen_read
    rcases cases_of t member with old | ⟨-, history⟩
    · exact before.reads t old read seen_read
    · rw [history] at seen_read
      cases seen_read
  · intro t member stored row stands
    rcases cases_of t member with old | ⟨-, history⟩
    · exact before.held t old stored row (store ▸ stands)
    · rw [history] at stored
      cases stored
  · have same := before.counted
    rw [store, same]
    simp [World.total, threads, replaced]
  · intro t member starts
    rcases cases_of t member with old | ⟨-, history⟩
    · exact before.calls t old starts
    · rw [history] at starts
      cases starts
  · intro i j a b at_i at_j calls_a calls_b
    exact before.single i j a b (old_of_called i a at_i calls_a) (old_of_called j b at_j calls_b)
      calls_a calls_b

theorem delivering_fires {i : Nat} {input : Input} {thread : Thread effects Call Reply} {op : Op}
    {ans : op.Ans} (before : Delivering env child result initial w)
    (allowed : inTurn env child result w (.run i input) = true)
    (stepped : (system env).step w (.run i input) = some w')
    (fires : (system env).Fires w w' i thread op ans) :
    Delivering env child result initial w' := by
  have member := System.Fires.mem fires
  have issued := System.Fires.issued fires before.sound.honours
  obtain ⟨row, row', stands, stands', bound, held⟩ := delivered_row before fires
  refine ⟨sound_step before.sound stepped, ?_, ?_, ⟨row', stands', bound⟩, ?_, ?_,
    replacements_fires fires before.counted, calls_fires before fires,
    single_fires before allowed fires⟩
  · exact System.serves_step (P := fun call => delivers child result call = true) before.serves
      (fun _ started => by cases started) stepped
  · intro t inside
    rcases System.Fires.thread_cases fires inside with old | ⟨-, history⟩
    · exact before.once t old
    · rw [history]
      exact replaced_extend (before.once thread member) issued
  · intro t inside read seen_read
    rcases System.Fires.thread_cases fires inside with old | ⟨-, history⟩
    · exact before.reads t old read seen_read
    · rw [history, reads, seen_append] at seen_read
      rcases List.mem_append.mp seen_read with earlier | now
      · exact before.reads thread member read earlier
      · have now : reading op ans = some read := by simpa using now
        obtain ⟨old, stands₀, counted⟩ := before.row
        cases Fires.rowEffect fires with
        | kept same _ answers =>
          rw [answers read.1 read.2 now, Option.some.injEq] at stands₀
          rw [stands₀]
          exact counted
        | _ => cases now
  · intro t inside stored stood same
    rw [stands', Option.some.injEq] at same
    subst same
    refine held ?_
    rcases System.Fires.thread_cases fires inside with old | ⟨-, history⟩
    · exact .inr (before.held t old stored row stands)
    · rw [history, resumed_append, Bool.or_eq_true] at stored
      rcases stored with earlier | now
      · exact .inr (before.held thread member earlier row stands)
      · exact .inl now

theorem delivering_step {choice : Choice Call Input}
    (before : Delivering env child result initial w)
    (allowed : inTurn env child result w choice = true)
    (stepped : (system env).step w choice = some w') : Delivering env child result initial w' := by
  rcases System.step_cases _ stepped with
    ⟨call, rfl, store, threads⟩ | ⟨i, input, thread, op, ans, rfl, fires⟩
  · exact delivering_start before allowed store threads stepped
  · exact delivering_fires before allowed stepped fires

/-- While deliveries that may call for a replacement take turns, at most one replacement child is
started, and the result is recorded at most once. -/
theorem redelivered_once {row : Flow}
    (run : (system env).Runs (fun v choice => inTurn env child result v choice = true)
      (initialWorld (some row)) w) :
    replacements w.store ≤ 1 ∧
      ∃ final, w.store.row = some final ∧
        recorded (resultHash env child result) final.state.results ≤
          max 1 (recorded (resultHash env child result) row.state.results) := by
  have delivering : Delivering env child result
      (recorded (resultHash env child result) row.state.results) w := by
    exact System.Runs.invariant _ run (delivering_initial row)
      fun _ _ _ before allowed stepped => delivering_step before allowed stepped
  refine ⟨?_, delivering.row⟩
  rw [delivering.counted]
  refine sum_le_one _ delivering.once fun i j a b at_i at_j starts_a starts_b => ?_
  exact delivering.single i j a b at_i at_j
    (delivering.calls a (List.mem_of_getElem? at_i) starts_a)
    (delivering.calls b (List.mem_of_getElem? at_j) starts_b)

/-! ## Two deliveries -/

/-- A flow that waits for one child, whose step may be retried once. -/
def retriedFlow : Flow :=
  { flowId := "flow"
    state := { steps := [
      { stepId := "a", task := "collect", status := some .dispatched, childSessionKey := some "k"
        retryPolicy := some { maxRetries := 1, retryDelaySeconds := some 0 } }] } }

def retriedEnv : Env := scenarioEnv [("k\x1ferror", "cb8d9eb885a60c2d")] []

def failedDelivery : Call := .resume { childSessionKey := "k", result := "error" }

/-- Both deliveries read before either writes: each one starts a replacement. -/
theorem overlapping_deliveries_spawn_twice : ∃ w : FlowWorld,
    (system retriedEnv).Runs (fun v choice => deliveries "k" "error" v choice = true)
      (initialWorld (some retriedFlow)) w ∧
    w.threads.length = 2 ∧ replacements w.store = 2 := by
  have played : ((system retriedEnv).play (deliveries "k" "error")
      (initialWorld (some retriedFlow))
      [.start failedDelivery, .start failedDelivery, .run 0 .tick, .run 1 .tick,
        .run 0 (.spawned { accepted := true, childSessionKey := "k1" }),
        .run 1 (.spawned { accepted := true, childSessionKey := "k2" })]).any (fun w =>
        w.threads.length == 2 && replacements w.store == 2) = true := by
    decide +kernel
  obtain ⟨w, run, holds⟩ := System.Runs.exists_of_play played
  simp only [Bool.and_eq_true, beq_iff_eq] at holds
  exact ⟨w, run, holds.1, holds.2⟩

/-- A redelivery that reads after the first delivery has stored its result starts nothing
of its own. -/
theorem redelivered_once_in_turn : ∃ w : FlowWorld, w.threads.length = 2 ∧
    replacements w.store = 1 ∧ replacements w.store ≤ 1 := by
  have played : ((system retriedEnv).play (inTurn retriedEnv "k" "error")
      (initialWorld (some retriedFlow))
      [.start failedDelivery, .start failedDelivery, .run 0 .tick,
        .run 0 (.spawned { accepted := true, childSessionKey := "k1" }), .run 0 .tick,
        .run 1 .tick]).any (fun w =>
        w.threads.length == 2 && replacements w.store == 1) = true := by
    decide +kernel
  obtain ⟨w, run, holds⟩ := System.Runs.exists_of_play played
  simp only [Bool.and_eq_true, beq_iff_eq] at holds
  exact ⟨w, holds.1, holds.2, (redelivered_once run).1⟩

/-- Deliveries of a result that calls for no replacement may overlap. -/
example : ((system retriedEnv).play (inTurn retriedEnv "k" "fine")
    (initialWorld (some retriedFlow))
    [.start (.resume { childSessionKey := "k", result := "fine" }),
      .start (.resume { childSessionKey := "k", result := "fine" }),
      .run 0 .tick, .run 1 .tick, .run 0 .tick, .run 1 .tick]).any (fun w =>
        w.threads.length == 2 && replacements w.store == 0) = true := by
  decide +kernel

end SherryAgent.Guarantees.Redelivery
