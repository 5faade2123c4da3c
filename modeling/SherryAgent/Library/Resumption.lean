import Mathlib.Algebra.Group.Basic
import Mathlib.Algebra.GroupWithZero.Nat
import Mathlib.Logic.Relation

/-!
# Resumable programs over one shared store

A program is a tree of atomic operations: it performs one operation, receives
its answer and continues. Several programs run over one store, and a scheduler
decides whose next operation runs, so every interleaving at the operations is a
run. Each running program keeps the history of its own operations and answers;
what a program guarantees at an operation is stated about that history alone
(`Prog.Issues`), for every answer the store or the environment may give. The
interference of the other programs then enters only through what the store
satisfies between two steps (`Runs.invariant`).

Nothing here names the agent; the taskflow modules instantiate it.
-/

namespace SherryAgent.Library.Resumption

/-- Atomic operations and the answer type of each. -/
structure Effects where
  Op : Type
  Ans : Op → Type

/-- An operation a program has performed, with the answer it received. -/
structure Event (E : Effects) where
  op : E.Op
  ans : E.Ans op

/-- What a view extracts from a history, in order. -/
def seen {E : Effects} {β : Type} (view : (op : E.Op) → E.Ans op → Option β)
    (h : List (Event E)) : List β :=
  h.filterMap fun event => view event.op event.ans

@[simp] theorem seen_nil {E : Effects} {β : Type} (view : (op : E.Op) → E.Ans op → Option β) :
    seen view [] = [] := rfl

@[simp] theorem seen_append {E : Effects} {β : Type} (view : (op : E.Op) → E.Ans op → Option β)
    (h : List (Event E)) (event : Event E) :
    seen view (h ++ [event]) = seen view h ++ (view event.op event.ans).toList := by
  cases viewed : view event.op event.ans <;> simp [seen, viewed]

inductive Prog (E : Effects) (α : Type) where
  | done (value : α)
  | call (op : E.Op) (next : E.Ans op → Prog E α)

variable {E : Effects} {α β : Type}

namespace Prog

def bind : Prog E α → (α → Prog E β) → Prog E β
  | .done value, f => f value
  | .call op next, f => .call op fun ans => (next ans).bind f

instance : Monad (Prog E) where
  pure := .done
  bind := bind

instance : LawfulMonad (Prog E) := .mk' (Prog E)
  (fun p => by
    induction p with
    | done value => rfl
    | call op next ih => exact congrArg (Prog.call op) (funext ih))
  (fun _ _ => rfl)
  (fun p f g => by
    induction p with
    | done value => rfl
    | call op next ih => exact congrArg (Prog.call op) (funext ih))

/-- The program that performs one operation and returns its answer. -/
def perform (op : E.Op) : Prog E (E.Ans op) := .call op .done

/-- Whatever answers it receives, the program performs an operation only when
`Req` holds of its history, and returns only values `Post` allows. -/
def Issues (Req : List (Event E) → E.Op → Prop) (Post : List (Event E) → α → Prop) :
    Prog E α → List (Event E) → Prop
  | .done value, h => Post h value
  | .call op next, h => Req h op ∧ ∀ ans, (next ans).Issues Req Post (h ++ [⟨op, ans⟩])

variable {Req Req' : List (Event E) → E.Op → Prop} {Post : List (Event E) → α → Prop}

@[simp] theorem issues_pure (value : α) (h : List (Event E)) :
    (pure value : Prog E α).Issues Req Post h ↔ Post h value := Iff.rfl

@[simp] theorem issues_perform (op : E.Op) (h : List (Event E))
    {Post : List (Event E) → E.Ans op → Prop} :
    (perform op).Issues Req Post h ↔ Req h op ∧ ∀ ans, Post (h ++ [⟨op, ans⟩]) ans := Iff.rfl

/-- Sequencing: the continuation is checked from the history the first part leaves. -/
@[simp] theorem issues_bind (p : Prog E α) (f : α → Prog E β) (h : List (Event E))
    {Post : List (Event E) → β → Prop} :
    (p >>= f).Issues Req Post h ↔
      p.Issues Req (fun h' value => (f value).Issues Req Post h') h := by
  induction p generalizing h with
  | done value => exact Iff.rfl
  | call op next ih =>
    change (Req h op ∧ ∀ ans, (next ans >>= f).Issues Req Post _) ↔
      (Req h op ∧ ∀ ans, (next ans).Issues Req _ _)
    simp only [ih]

theorem issues_perform_bind (op : E.Op) (f : E.Ans op → Prog E β) (h : List (Event E))
    {Post : List (Event E) → β → Prop} :
    (perform op >>= f).Issues Req Post h ↔
      Req h op ∧ ∀ ans, (f ans).Issues Req Post (h ++ [⟨op, ans⟩]) := Iff.rfl

/-- Consequence: weaker requirements and a weaker postcondition, both only for
histories that extend the one the program starts from. -/
theorem Issues.mono {p : Prog E α} {h : List (Event E)}
    {Post' : List (Event E) → α → Prop} (issues : p.Issues Req Post h)
    (req : ∀ h' op, h <+: h' → Req h' op → Req' h' op)
    (post : ∀ h' value, h <+: h' → Post h' value → Post' h' value) :
    p.Issues Req' Post' h := by
  induction p generalizing h with
  | done value => exact post h value (List.prefix_refl h) issues
  | call op next ih =>
    refine ⟨req h op (List.prefix_refl h) issues.1, fun ans => ?_⟩
    have extended : h <+: h ++ [⟨op, ans⟩] := List.prefix_append _ _
    exact ih ans (issues.2 ans)
      (fun h' op' later => req h' op' (extended.trans later))
      (fun h' value later => post h' value (extended.trans later))

/-- Sequencing through an intermediate assertion. -/
theorem Issues.bind {p : Prog E α} {f : α → Prog E β} {h : List (Event E)}
    {Post : List (Event E) → β → Prop} (Mid : List (Event E) → α → Prop)
    (first : p.Issues Req Mid h)
    (rest : ∀ h' value, h <+: h' → Mid h' value → (f value).Issues Req Post h') :
    (p >>= f).Issues Req Post h :=
  (issues_bind p f h).mpr (first.mono (fun _ _ _ => id) rest)

/-- A loop over a list; the invariant sees the items done and their results. -/
theorem issues_mapM {γ : Type} (f : γ → Prog E α)
    (inv : List (Event E) → List γ → List α → Prop) (items : List γ) (h : List (Event E))
    (start : inv h [] [])
    (body : ∀ finished item rest, items = finished ++ item :: rest →
      ∀ h' results, inv h' finished results →
        (f item).Issues Req (fun h'' value => inv h'' (finished ++ [item]) (results ++ [value])) h') :
    (items.mapM f).Issues Req (fun h' results => inv h' items results) h := by
  suffices general : ∀ (rest finished : List γ) (results : List α) (h' : List (Event E)),
      items = finished ++ rest → inv h' finished results →
      (rest.mapM f).Issues Req (fun h'' values => inv h'' items (results ++ values)) h' by
    simpa using general items [] [] h rfl start
  intro rest
  induction rest with
  | nil =>
    intro finished results h' split holds
    rw [List.append_nil] at split
    subst split
    simpa using holds
  | cons item rest ih =>
    intro finished results h' split holds
    rw [List.mapM_cons, issues_bind]
    refine (body finished item rest split h' results holds).mono (fun _ _ _ => id) ?_
    intro h'' value _ holds'
    rw [issues_bind]
    have advanced : items = (finished ++ [item]) ++ rest := by simp [split]
    refine (ih (finished ++ [item]) (results ++ [value]) h'' advanced holds').mono
      (fun _ _ _ => id) ?_
    intro h₃ values _ holds₃
    simpa using holds₃

end Prog

/-- A running program: the request it serves, what is left of it, its own history. -/
structure Thread (E : Effects) (κ ρ : Type) where
  request : κ
  prog : Prog E ρ
  history : List (Event E)

structure World (E : Effects) (σ κ ρ : Type) where
  store : σ
  threads : List (Thread E κ ρ)

/-- The next operation of a running program. -/
def Thread.next {E : Effects} {κ ρ : Type} (thread : Thread E κ ρ) : Option E.Op :=
  match thread.prog with
  | .done _ => none
  | .call op _ => some op

/-- The scheduler's choice: a new request arrives, or a program takes its next
operation, with the environment's contribution to the answer. -/
inductive Choice (κ ι : Type) where
  | start (request : κ)
  | run (thread : Nat) (input : ι)

/-- A quantity summed over the running programs. -/
def World.total {E : Effects} {σ κ ρ M : Type} [AddCommMonoid M] (f : Thread E κ ρ → M)
    (w : World E σ κ ρ) : M :=
  (w.threads.map f).sum

theorem sum_map_set {α M : Type} [AddCommMonoid M] (f : α → M) {items : List α} {i : Nat}
    {old : α} (new : α) (at_index : items[i]? = some old) :
    ((items.set i new).map f).sum + f old = (items.map f).sum + f new := by
  induction items generalizing i with
  | nil => cases at_index
  | cons item rest ih =>
    cases i with
    | zero =>
      obtain rfl : item = old := by simpa using at_index
      simp only [List.set_cons_zero, List.map_cons, List.sum_cons]
      rw [add_comm, add_right_comm (f item), add_assoc]
    | succ i =>
      have later := ih (i := i) (by simpa using at_index)
      simp only [List.set_cons_succ, List.map_cons, List.sum_cons]
      rw [add_assoc, later, add_assoc]

/-- A quantity of which at most one program has any, and none more than one. -/
theorem sum_le_one {α : Type} (f : α → Nat) {items : List α} (each : ∀ item ∈ items, f item ≤ 1)
    (single : ∀ (i j : Nat) (a b : α), items[i]? = some a → items[j]? = some b →
      0 < f a → 0 < f b → i = j) :
    (items.map f).sum ≤ 1 := by
  induction items with
  | nil => exact Nat.zero_le 1
  | cons item rest ih =>
    rw [List.map_cons, List.sum_cons]
    by_cases acts : 0 < f item
    · have others : (rest.map f).sum = 0 := by
        refine List.sum_eq_zero_iff_forall_eq_nat.mpr ?_
        intro value member
        obtain ⟨other, inside, rfl⟩ := List.mem_map.mp member
        obtain ⟨j, at_j⟩ := List.mem_iff_getElem?.mp inside
        by_contra nonzero
        have same := single 0 (j + 1) item other rfl at_j acts (Nat.pos_of_ne_zero nonzero)
        cases same
      have bound := each item (by simp)
      omega
    · have later := ih (fun other member => each other (by simp [member]))
        fun i j a b at_i at_j hi hj => Nat.succ.inj (single (i + 1) (j + 1) a b at_i at_j hi hj)
      omega

/-- The program a choice lets run, with the operation it performs. -/
def World.pending {E : Effects} {σ κ ι ρ : Type} (w : World E σ κ ρ) :
    Choice κ ι → Option (Thread E κ ρ × E.Op)
  | .start _ => none
  | .run i _ => w.threads[i]?.bind fun thread => thread.next.map fun op => (thread, op)

/-- The meaning of the operations and the program of each request. An operation
that is not enabled (a lock that is held) has no result. -/
structure System (E : Effects) (σ ι κ ρ : Type) where
  exec : (op : E.Op) → σ → ι → Option (E.Ans op × σ)
  code : κ → Prog E ρ

variable {σ ι κ ρ : Type}

namespace System

variable (S : System E σ ι κ ρ)

def step (w : World E σ κ ρ) : Choice κ ι → Option (World E σ κ ρ)
  | .start request =>
    some { w with threads := w.threads ++ [⟨request, S.code request, []⟩] }
  | .run i input =>
    match w.threads[i]? with
    | none => none
    | some thread =>
      match thread.prog with
      | .done _ => none
      | .call op next =>
        (S.exec op w.store input).map fun (ans, store) =>
          { store, threads := w.threads.set i
              ⟨thread.request, next ans, thread.history ++ [⟨op, ans⟩]⟩ }

/-- A scheduled list of choices, each allowed by `check`; executable. -/
def play (check : World E σ κ ρ → Choice κ ι → Bool) (w : World E σ κ ρ) :
    List (Choice κ ι) → Option (World E σ κ ρ)
  | [] => some w
  | choice :: rest =>
    if check w choice then (S.step w choice).bind fun w' => play check w' rest else none

/-- One operation of thread `i`: what it was, its answer, and the store after it. -/
structure Fires (w w' : World E σ κ ρ) (i : Nat) (thread : Thread E κ ρ) (op : E.Op)
    (ans : E.Ans op) : Prop where
  at_index : w.threads[i]? = some thread
  runs : ∃ next input, thread.prog = .call op next ∧
    S.exec op w.store input = some (ans, w'.store) ∧
    w'.threads = w.threads.set i ⟨thread.request, next ans, thread.history ++ [⟨op, ans⟩]⟩

/-- All a step can do. -/
theorem step_cases {w w' : World E σ κ ρ} {choice : Choice κ ι}
    (stepped : S.step w choice = some w') :
    (∃ request, choice = .start request ∧ w'.store = w.store ∧
      w'.threads = w.threads ++ [⟨request, S.code request, []⟩]) ∨
    (∃ i input thread op ans, choice = .run i input ∧ S.Fires w w' i thread op ans) := by
  cases choice with
  | start request =>
    simp only [step, Option.some.injEq] at stepped
    subst stepped
    exact .inl ⟨request, rfl, rfl, rfl⟩
  | run i input =>
    simp only [step] at stepped
    split at stepped
    · cases stepped
    · rename_i thread found
      split at stepped
      · cases stepped
      · rename_i op next running
        obtain ⟨⟨ans, store⟩, executed, rfl⟩ := Option.map_eq_some_iff.mp stepped
        exact .inr ⟨i, input, thread, op, ans, rfl, found, next, input, running, executed, rfl⟩

/-- Runs whose every step meets `cond` in the state before it. -/
def Runs (cond : World E σ κ ρ → Choice κ ι → Prop) : World E σ κ ρ → World E σ κ ρ → Prop :=
  Relation.ReflTransGen fun w w' => ∃ choice, cond w choice ∧ S.step w choice = some w'

variable {S} {cond : World E σ κ ρ → Choice κ ι → Prop}

/-- What holds at the start and is kept by every allowed step holds throughout. -/
theorem Runs.invariant (Inv : World E σ κ ρ → Prop) {w w' : World E σ κ ρ}
    (run : S.Runs cond w w') (start : Inv w)
    (keep : ∀ v v' choice, Inv v → cond v choice → S.step v choice = some v' → Inv v') :
    Inv w' := by
  induction run with
  | refl => exact start
  | tail _ last ih =>
    obtain ⟨choice, allowed, stepped⟩ := last
    exact keep _ _ choice ih allowed stepped

theorem Runs.of_play {check : World E σ κ ρ → Choice κ ι → Bool} {w w' : World E σ κ ρ}
    {choices : List (Choice κ ι)} (played : S.play check w choices = some w') :
    S.Runs (fun w choice => check w choice = true) w w' := by
  induction choices generalizing w with
  | nil =>
    simp only [play, Option.some.injEq] at played
    subst played
    exact .refl
  | cons choice rest ih =>
    rw [play] at played
    split at played
    · rename_i allowed
      obtain ⟨next, stepped, played⟩ := Option.bind_eq_some_iff.mp played
      exact .head ⟨choice, allowed, stepped⟩ (ih played)
    · cases played

/-- A played schedule whose last state passes a test, as a run to such a state. -/
theorem Runs.exists_of_play {check : World E σ κ ρ → Choice κ ι → Bool}
    {test : World E σ κ ρ → Bool} {w : World E σ κ ρ} {choices : List (Choice κ ι)}
    (played : (S.play check w choices).any test = true) :
    ∃ w', S.Runs (fun v choice => check v choice = true) w w' ∧ test w' = true := by
  obtain ⟨w', ended, passes⟩ := (Option.any_eq_true _ _).mp played
  exact ⟨w', .of_play ended, passes⟩

/-- Two schedules one after the other, with a test on the states they end in. -/
theorem Runs.exists_of_play₂ {first second : World E σ κ ρ → Choice κ ι → Bool}
    {test : World E σ κ ρ → World E σ κ ρ → Bool} {w : World E σ κ ρ}
    {choices more : List (Choice κ ι)}
    (played : ((S.play first w choices).any fun v => (S.play second v more).any (test v)) = true) :
    ∃ v v', S.Runs (fun u choice => first u choice = true) w v ∧
      S.Runs (fun u choice => second u choice = true) v v' ∧ test v v' = true := by
  obtain ⟨v, ended, continued⟩ := (Option.any_eq_true _ _).mp played
  obtain ⟨v', run, passes⟩ := Runs.exists_of_play continued
  exact ⟨v, v', .of_play ended, run, passes⟩

/-- A run under a stronger condition is one under a weaker one. -/
theorem Runs.mono {cond' : World E σ κ ρ → Choice κ ι → Prop} {w w' : World E σ κ ρ}
    (run : S.Runs cond w w') (weaker : ∀ v choice, cond v choice → cond' v choice) :
    S.Runs cond' w w' := by
  induction run with
  | refl => exact .refl
  | tail _ last ih =>
    obtain ⟨choice, allowed, stepped⟩ := last
    exact .tail ih ⟨choice, weaker _ choice allowed, stepped⟩

end System

/-- Every thread keeps issuing only what its request's specification allows. -/
def World.Honours (Req : κ → List (Event E) → E.Op → Prop)
    (Post : κ → List (Event E) → ρ → Prop) (w : World E σ κ ρ) : Prop :=
  ∀ thread ∈ w.threads,
    thread.prog.Issues (Req thread.request) (Post thread.request) thread.history

namespace System

variable {S : System E σ ι κ ρ} {Req : κ → List (Event E) → E.Op → Prop}
  {Post : κ → List (Event E) → ρ → Prop}

theorem Fires.mem {w w' : World E σ κ ρ} {i : Nat} {thread : Thread E κ ρ} {op : E.Op}
    {ans : E.Ans op} (fires : S.Fires w w' i thread op ans) : thread ∈ w.threads :=
  List.mem_of_getElem? fires.at_index

/-- The operation a thread performs meets its specification. -/
theorem Fires.issued {w w' : World E σ κ ρ} {i : Nat} {thread : Thread E κ ρ} {op : E.Op}
    {ans : E.Ans op} (fires : S.Fires w w' i thread op ans) (honours : w.Honours Req Post) :
    Req thread.request thread.history op := by
  obtain ⟨next, input, running, -, -⟩ := fires.runs
  have issues := honours thread fires.mem
  rw [running] at issues
  exact issues.1

/-- The firing thread is the one the choice lets run. -/
theorem Fires.pending {w w' : World E σ κ ρ} {i : Nat} {thread : Thread E κ ρ} {op : E.Op}
    {ans : E.Ans op} (fires : S.Fires w w' i thread op ans) (input : ι) :
    w.pending (Choice.run i input : Choice κ ι) = some (thread, op) := by
  obtain ⟨next, -, running, -⟩ := fires.runs
  simp [World.pending, fires.at_index, Thread.next, running]

theorem Fires.executed {w w' : World E σ κ ρ} {i : Nat} {thread : Thread E κ ρ} {op : E.Op}
    {ans : E.Ans op} (fires : S.Fires w w' i thread op ans) :
    ∃ input, S.exec op w.store input = some (ans, w'.store) := by
  obtain ⟨next, input, -, executed, -⟩ := fires.runs
  exact ⟨input, executed⟩

/-- A thread after the step is an old one, or the firing one with one more event. -/
theorem Fires.thread_cases {w w' : World E σ κ ρ} {i : Nat} {thread : Thread E κ ρ} {op : E.Op}
    {ans : E.Ans op} (fires : S.Fires w w' i thread op ans) {t : Thread E κ ρ}
    (member : t ∈ w'.threads) :
    t ∈ w.threads ∨
      (t.request = thread.request ∧ t.history = thread.history ++ [⟨op, ans⟩]) := by
  obtain ⟨next, input, -, -, threads⟩ := fires.runs
  rw [threads] at member
  rcases List.mem_or_eq_of_mem_set member with old | new
  · exact .inl old
  · subst new
    exact .inr ⟨rfl, rfl⟩

/-- The threads after the step, by their index: the firing one has one more event,
every other one is as it was. -/
theorem Fires.index_cases {w w' : World E σ κ ρ} {i : Nat} {thread : Thread E κ ρ} {op : E.Op}
    {ans : E.Ans op} (fires : S.Fires w w' i thread op ans) {j : Nat} {t : Thread E κ ρ}
    (at_index : w'.threads[j]? = some t) :
    (j ≠ i ∧ w.threads[j]? = some t) ∨
      (j = i ∧ t.request = thread.request ∧ t.history = thread.history ++ [⟨op, ans⟩]) := by
  obtain ⟨next, input, -, -, threads⟩ := fires.runs
  rw [threads, List.getElem?_set] at at_index
  split at at_index
  · rename_i same
    split at at_index
    · cases at_index
      exact .inr ⟨same.symm, rfl, rfl⟩
    · cases at_index
  · rename_i other
    exact .inl ⟨Ne.symm other, at_index⟩

/-- A step changes the total of a quantity by what it changes for the firing program. -/
theorem Fires.total {M : Type} [AddCommMonoid M] {w w' : World E σ κ ρ} {i : Nat}
    {thread : Thread E κ ρ} {op : E.Op} {ans : E.Ans op} (fires : S.Fires w w' i thread op ans)
    (f : Thread E κ ρ → M) :
    ∃ after : Thread E κ ρ, after.request = thread.request ∧
      after.history = thread.history ++ [⟨op, ans⟩] ∧
      w'.total f + f thread = w.total f + f after := by
  obtain ⟨next, input, -, -, threads⟩ := fires.runs
  refine ⟨⟨thread.request, next ans, thread.history ++ [⟨op, ans⟩]⟩, rfl, rfl, ?_⟩
  rw [World.total, threads]
  exact sum_map_set f _ fires.at_index

/-- Specifications of the requests' programs carry over to every run. -/
theorem honours_step (spec : ∀ request, (S.code request).Issues (Req request) (Post request) [])
    {w w' : World E σ κ ρ} {choice : Choice κ ι} (honours : w.Honours Req Post)
    (stepped : S.step w choice = some w') : w'.Honours Req Post := by
  rcases S.step_cases stepped with ⟨request, -, -, threads⟩ | ⟨i, input, thread, op, ans, -, fires⟩
  · intro t member
    rw [threads] at member
    rcases List.mem_append.mp member with old | new
    · exact honours t old
    · rw [List.mem_singleton.mp new]
      exact spec request
  · intro t member
    have before := honours thread fires.mem
    obtain ⟨next, input, running, -, threads⟩ := fires.runs
    rw [threads] at member
    rcases List.mem_or_eq_of_mem_set member with old | new
    · exact honours t old
    · subst new
      rw [running] at before
      exact before.2 ans

/-- What every program keeps true of its own history, whatever it is answered. -/
theorem histories_step {P : κ → List (Event E) → Prop} (start : ∀ request, P request [])
    (extend : ∀ request h op ans, P request h → Req request h op → P request (h ++ [⟨op, ans⟩]))
    {w w' : World E σ κ ρ} {choice : Choice κ ι} (honours : w.Honours Req Post)
    (holds : ∀ t ∈ w.threads, P t.request t.history) (stepped : S.step w choice = some w') :
    ∀ t ∈ w'.threads, P t.request t.history := by
  intro t member
  rcases S.step_cases stepped with ⟨request, -, -, threads⟩ | ⟨i, input, thread, op, ans, -, fires⟩
  · rw [threads] at member
    rcases List.mem_append.mp member with old | new
    · exact holds t old
    · rw [List.mem_singleton.mp new]
      exact start request
  · rcases fires.thread_cases member with old | ⟨same, history⟩
    · exact holds t old
    · rw [same, history]
      exact extend _ _ op ans (holds thread fires.mem) (fires.issued honours)

theorem Runs.honours (spec : ∀ request, (S.code request).Issues (Req request) (Post request) [])
    {cond : World E σ κ ρ → Choice κ ι → Prop} {w w' : World E σ κ ρ}
    (run : S.Runs cond w w') (start : w.Honours Req Post) : w'.Honours Req Post :=
  run.invariant (World.Honours Req Post) start
    fun _ _ _ honours _ stepped => honours_step spec honours stepped

/-- Only requests the scheduler was allowed to start are served. -/
theorem serves_step {P : κ → Prop} {w w' : World E σ κ ρ} {choice : Choice κ ι}
    (serves : ∀ t ∈ w.threads, P t.request) (admits : ∀ request, choice = .start request → P request)
    (stepped : S.step w choice = some w') : ∀ t ∈ w'.threads, P t.request := by
  intro t member
  rcases S.step_cases stepped with ⟨request, started, -, threads⟩ | ⟨i, input, thread, op, ans, -, fires⟩
  · rw [threads] at member
    rcases List.mem_append.mp member with old | new
    · exact serves t old
    · rw [List.mem_singleton.mp new]
      exact admits request started
  · rcases fires.thread_cases member with old | ⟨same, -⟩
    · exact serves t old
    · rw [same]
      exact serves thread fires.mem

/-! ## The order of all operations -/

variable (S) in
/-- The system that also records, in order, every operation performed with its answer. -/
def recorded : System E (σ × List (Event E)) ι κ ρ where
  exec op store input := (S.exec op store.1 input).map fun (ans, after) =>
    (ans, after, store.2 ++ [⟨op, ans⟩])
  code := S.code

/-- The record of a step: the store is the recorded system's, the record one event longer. -/
theorem Fires.recorded {w w' : World E (σ × List (Event E)) κ ρ} {i : Nat} {thread : Thread E κ ρ}
    {op : E.Op} {ans : E.Ans op} (fires : S.recorded.Fires w w' i thread op ans) :
    (∃ input, S.exec op w.store.1 input = some (ans, w'.store.1)) ∧
      w'.store.2 = w.store.2 ++ [⟨op, ans⟩] := by
  obtain ⟨input, executed⟩ := fires.executed
  obtain ⟨⟨ans', after⟩, done, stored⟩ := Option.map_eq_some_iff.mp executed
  simp only [Prod.mk.injEq] at stored
  obtain ⟨rfl, stored⟩ := stored
  rw [← stored]
  exact ⟨⟨input, done⟩, rfl⟩

/-- Every program's own history is part of the record. -/
theorem recorded_step {w w' : World E (σ × List (Event E)) κ ρ} {choice : Choice κ ι}
    (traced : ∀ t ∈ w.threads, ∀ event ∈ t.history, event ∈ w.store.2)
    (stepped : S.recorded.step w choice = some w') :
    ∀ t ∈ w'.threads, ∀ event ∈ t.history, event ∈ w'.store.2 := by
  intro t member event performed
  rcases S.recorded.step_cases stepped with
    ⟨request, -, same, threads⟩ | ⟨i, input, thread, op, ans, -, fires⟩
  · rw [same]
    rw [threads] at member
    rcases List.mem_append.mp member with old | new
    · exact traced t old event performed
    · rw [List.mem_singleton.mp new] at performed
      exact absurd performed List.not_mem_nil
  · rw [fires.recorded.2]
    rcases fires.thread_cases member with old | ⟨-, history⟩
    · exact List.mem_append_left _ (traced t old event performed)
    · rw [history] at performed
      rcases List.mem_append.mp performed with old | new
      · exact List.mem_append_left _ (traced thread fires.mem event old)
      · exact List.mem_append_right _ new

end System

end SherryAgent.Library.Resumption
