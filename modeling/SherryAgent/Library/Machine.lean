import Mathlib.Data.List.Basic
import Mathlib.Logic.Relation

/-!
# Runs of a machine, and tasks that switch at their suspension points

A machine takes one operation at a time and may refuse it. A run is a sequence of
operations it takes; `cond` restricts the runs to the steps it holds of, in the
state before them.

A task is where it stands: a suspension point with the locals that are live there.
Resuming one runs it alone, on the shared store, up to its next suspension point. The
scheduler resumes the tasks in any order, starts new ones and may restart the process,
which keeps part of the store and no task. Nothing here names the agent.
-/

namespace SherryAgent.Library.Machine

variable {σ ω : Type} {step : σ → ω → Option σ} {cond : σ → ω → Prop}

/-- Runs whose every step meets `cond` in the state before it. -/
def Runs (step : σ → ω → Option σ) (cond : σ → ω → Prop) : σ → σ → Prop :=
  Relation.ReflTransGen fun s s' => ∃ op, cond s op ∧ step s op = some s'

/-- What holds at the start and is kept by every allowed step holds throughout. -/
theorem Runs.invariant (Inv : σ → Prop) {s s' : σ} (run : Runs step cond s s') (start : Inv s)
    (keep : ∀ u u' op, Inv u → cond u op → step u op = some u' → Inv u') : Inv s' := by
  induction run with
  | refl => exact start
  | tail _ last ih =>
    obtain ⟨op, allowed, stepped⟩ := last
    exact keep _ _ op ih allowed stepped

/-- A run under a stronger condition is one under a weaker one. -/
theorem Runs.mono {cond' : σ → ω → Prop} {s s' : σ} (run : Runs step cond s s')
    (weaker : ∀ u op, cond u op → cond' u op) : Runs step cond' s s' := by
  induction run with
  | refl => exact .refl
  | tail _ last ih =>
    obtain ⟨op, allowed, stepped⟩ := last
    exact .tail ih ⟨op, weaker _ op allowed, stepped⟩

/-- The state after the operations, if each passes the check and is taken. -/
def play (step : σ → ω → Option σ) (check : σ → ω → Bool) : σ → List ω → Option σ
  | s, [] => some s
  | s, op :: rest => if check s op then (step s op).bind (play step check · rest) else none

theorem Runs.of_play {check : σ → ω → Bool} {s s' : σ} {ops : List ω}
    (played : play step check s ops = some s') :
    Runs step (fun u op => check u op = true) s s' := by
  induction ops generalizing s with
  | nil =>
    simp only [play, Option.some.injEq] at played
    subst played
    exact .refl
  | cons op rest ih =>
    rw [play] at played
    split at played
    · rename_i allowed
      obtain ⟨next, stepped, played⟩ := Option.bind_eq_some_iff.mp played
      exact .head ⟨op, allowed, stepped⟩ (ih played)
    · cases played

/-- A played sequence whose last state passes a test, as a run to such a state. -/
theorem Runs.exists_of_play {check : σ → ω → Bool} {test : σ → Bool} {s : σ} {ops : List ω}
    (played : (play step check s ops).any test = true) :
    ∃ s', Runs step (fun u op => check u op = true) s s' ∧ test s' = true := by
  obtain ⟨s', ended, passes⟩ := (Option.any_eq_true _ _).mp played
  exact ⟨s', .of_play ended, passes⟩

end SherryAgent.Library.Machine

namespace SherryAgent.Library.Tasks

structure World (σ τ : Type) where
  store : σ
  tasks : List τ := []

/-- The scheduler's choice; the input is what the environment answers the resumed task. -/
inductive Choice (τ ι : Type) where
  | spawn (task : τ)
  | run (index : Nat) (input : ι)
  | restart

/-- The tasks that may be started, what a resumed task does, and what a restart keeps. -/
structure Program (σ τ ι : Type) where
  starts : τ → Bool
  resume : σ → τ → ι → Option (σ × τ)
  restart : σ → Option σ

variable {σ τ ι : Type}

namespace Program

variable (P : Program σ τ ι)

def step (w : World σ τ) : Choice τ ι → Option (World σ τ)
  | .spawn task => if P.starts task then some { w with tasks := w.tasks ++ [task] } else none
  | .run index input =>
    w.tasks[index]?.bind fun task =>
      (P.resume w.store task input).map fun resumed =>
        { store := resumed.1, tasks := w.tasks.set index resumed.2 }
  | .restart => (P.restart w.store).map fun store => { store }

/-- One task moves on; the others stay where they are. -/
structure Resumes (w w' : World σ τ) (index : Nat) (task after : τ) (input : ι) : Prop where
  at_index : w.tasks[index]? = some task
  resumed : P.resume w.store task input = some (w'.store, after)
  tasks : w'.tasks = w.tasks.set index after

/-- All a step can do. -/
theorem step_cases {w w' : World σ τ} {choice : Choice τ ι} (stepped : P.step w choice = some w') :
    (∃ task, choice = .spawn task ∧ P.starts task = true ∧ w'.store = w.store ∧
      w'.tasks = w.tasks ++ [task]) ∨
    (∃ index input task after, choice = .run index input ∧ P.Resumes w w' index task after input) ∨
    (choice = .restart ∧ P.restart w.store = some w'.store ∧ w'.tasks = []) := by
  cases choice with
  | spawn task =>
    simp only [step] at stepped
    split at stepped
    · rename_i starts
      have result := Option.some.inj stepped
      exact .inl ⟨task, rfl, starts, by rw [← result], by rw [← result]⟩
    · cases stepped
  | run index input =>
    obtain ⟨task, found, moved⟩ := Option.bind_eq_some_iff.mp stepped
    obtain ⟨resumed, resumes, result⟩ := Option.map_eq_some_iff.mp moved
    subst result
    exact .inr (.inl ⟨index, input, task, resumed.2, rfl, found, resumes, rfl⟩)
  | restart =>
    obtain ⟨store, restarted, result⟩ := Option.map_eq_some_iff.mp stepped
    subst result
    exact .inr (.inr ⟨rfl, restarted, rfl⟩)

/-- Runs whose every step meets `cond` in the state before it. -/
abbrev Runs (cond : World σ τ → Choice τ ι → Prop) : World σ τ → World σ τ → Prop :=
  Machine.Runs P.step cond

variable {P} {w w' : World σ τ} {index : Nat} {task after : τ} {input : ι}

/-- The tasks that stay where they are. -/
theorem Resumes.split_others (resumes : P.Resumes w w' index task after input) :
    ∃ before later, w.tasks = before ++ task :: later ∧ w'.tasks = before ++ after :: later ∧
      w.tasks.eraseIdx index = before ++ later := by
  obtain ⟨bound, here⟩ := List.getElem?_eq_some_iff.mp resumes.at_index
  refine ⟨w.tasks.take index, w.tasks.drop (index + 1), ?_, ?_, ?_⟩
  · rw [← here]
    simp
  · rw [resumes.tasks, List.set_eq_take_append_cons_drop, if_pos bound]
  · exact List.eraseIdx_eq_take_drop_succ _ _

/-- The list of tasks around the one that moves. -/
theorem Resumes.split (resumes : P.Resumes w w' index task after input) :
    ∃ before later, w.tasks = before ++ task :: later ∧ w'.tasks = before ++ after :: later := by
  obtain ⟨before, later, tasks, tasks', -⟩ := resumes.split_others
  exact ⟨before, later, tasks, tasks'⟩

theorem Resumes.mem (resumes : P.Resumes w w' index task after input) : task ∈ w.tasks :=
  List.mem_of_getElem? resumes.at_index

/-- A task after the step is the one that moved, or was there. -/
theorem Resumes.mem_after {other : τ} (resumes : P.Resumes w w' index task after input)
    (member : other ∈ w'.tasks) : other = after ∨ other ∈ w.tasks := by
  rw [resumes.tasks] at member
  rcases List.mem_or_eq_of_mem_set member with old | new
  · exact .inr old
  · exact .inl new

/-- A count over the tasks changes by the task that moves. -/
theorem Resumes.countP (resumes : P.Resumes w w' index task after input) (p : τ → Bool) :
    w'.tasks.countP p + (if p task then 1 else 0) =
      w.tasks.countP p + (if p after then 1 else 0) := by
  obtain ⟨before, later, tasks, tasks'⟩ := resumes.split
  rw [tasks, tasks']
  simp only [List.countP_append, List.countP_cons]
  omega

end Program

end SherryAgent.Library.Tasks
