import Mathlib.Data.List.Basic

/-!
# Programs that are run again from their start

A program may stop at a question. Its driver then runs it again from the start, from the
state the stopped run left, and hands out the answers given so far in order (`serve`).

* `Run.ends_bind` — the questions of a sequence are those of its parts.
* `serve_of_steady` — if no answer but the last has changed the state, the reruns ask what
  one run that waits at every question asks.
-/

namespace SherryAgent.Library.Reruns

/-- A run returns, raises, or stops at a question. -/
inductive Run (S Q A α : Type) where
  | done (state : S) (value : α)
  | raised (state : S)
  | asks (state : S) (question : Q) (next : A → Run S Q A α)

variable {S Q A α β : Type}

namespace Run

def andThen : Run S Q A α → (α → S → Run S Q A β) → Run S Q A β
  | .done state value, f => f value state
  | .raised state, _ => .raised state
  | .asks state question next, f => .asks state question fun answer => (next answer).andThen f

/-- With these answers to its questions the run returns. -/
def Ends : Run S Q A α → List (Q × A) → S → α → Prop
  | .done state value, log, after, result => log = [] ∧ after = state ∧ result = value
  | .raised _, _, _, _ => False
  | .asks _ question next, log, after, result =>
    ∃ answer rest, log = (question, answer) :: rest ∧ (next answer).Ends rest after result

/-- The questions answered from the list, and where the run is then. -/
def follow : Run S Q A α → List A → List (Q × A) × Run S Q A α
  | .asks _ question next, answer :: later =>
    let (log, last) := (next answer).follow later
    ((question, answer) :: log, last)
  | run, _ => ([], run)

/-- As long as the answers are quiet, the run leaves the state alone. -/
def Steady (quiet : Q → A → Prop) (state : S) : Run S Q A α → Prop
  | .done after _ => after = state
  | .raised _ => True
  | .asks now question next =>
    now = state ∧ ∀ answer, quiet question answer → (next answer).Steady quiet state

theorem ends_andThen {run : Run S Q A α} {f : α → S → Run S Q A β} {log : List (Q × A)}
    {after : S} {result : β} :
    (run.andThen f).Ends log after result ↔ ∃ first rest between value,
      log = first ++ rest ∧ run.Ends first between value ∧
        (f value between).Ends rest after result := by
  induction run generalizing log with
  | done state value =>
    constructor
    · intro ends
      exact ⟨[], log, state, value, rfl, ⟨rfl, rfl, rfl⟩, ends⟩
    · rintro ⟨first, rest, between, value, rfl, ⟨rfl, rfl, rfl⟩, ends⟩
      exact ends
  | raised state =>
    constructor
    · exact False.elim
    · rintro ⟨_, _, _, _, _, never, _⟩
      exact never
  | asks state question next ih =>
    constructor
    · rintro ⟨answer, later, rfl, ends⟩
      obtain ⟨first, rest, between, value, rfl, start, finish⟩ := (ih answer).mp ends
      exact ⟨_, rest, between, value, rfl, ⟨answer, first, rfl, start⟩, finish⟩
    · rintro ⟨_, rest, between, value, rfl, ⟨answer, first, rfl, start⟩, finish⟩
      exact ⟨answer, _, rfl, (ih answer).mpr ⟨first, rest, between, value, rfl, start, finish⟩⟩

theorem Steady.andThen {quiet : Q → A → Prop} {state : S} {run : Run S Q A α}
    {f : α → S → Run S Q A β} (steady : run.Steady quiet state)
    (rest : ∀ value, (f value state).Steady quiet state) :
    (run.andThen f).Steady quiet state := by
  induction run with
  | done after value =>
    cases steady
    exact rest value
  | raised state => trivial
  | asks now question next ih =>
    exact ⟨steady.1, fun answer calm => ih answer (steady.2 answer calm)⟩

theorem follow_nil (run : Run S Q A α) : run.follow [] = ([], run) := by
  cases run <;> rfl

/-- One more answer after those that led here. -/
theorem follow_append {run mid : Run S Q A α} {given : List A} (more : List A)
    (reached : (run.follow given).2 = mid) :
    ∃ log, run.follow (given ++ more) = (log ++ (mid.follow more).1, (mid.follow more).2) := by
  induction run generalizing given with
  | done state value =>
    cases given <;> cases reached <;> exact ⟨[], by cases more <;> rfl⟩
  | raised state =>
    cases given <;> cases reached <;> exact ⟨[], by cases more <;> rfl⟩
  | asks state question next ih =>
    cases given with
    | nil =>
      cases reached
      exact ⟨[], rfl⟩
    | cons answer given =>
      obtain ⟨log, later⟩ := ih answer reached
      refine ⟨(question, answer) :: log, ?_⟩
      rw [List.cons_append, follow, later]
      rfl

theorem ends_of_follow {run : Run S Q A α} {answers : List A} {log : List (Q × A)} {after : S}
    {result : α} (followed : run.follow answers = (log, .done after result)) :
    run.Ends log after result := by
  induction run generalizing answers log with
  | done state value =>
    cases answers <;> cases followed <;> exact ⟨rfl, rfl, rfl⟩
  | raised state => cases answers <;> cases followed
  | asks state question next ih =>
    cases answers with
    | nil => cases followed
    | cons answer later =>
      cases here : (next answer).follow later with
      | mk shown last =>
        rw [follow, here] at followed
        cases followed
        exact ⟨answer, shown, rfl, ih answer here⟩

/-- With these answers the run returns a value that passes the test. -/
def returns (run : Run S Q A α) (answers : List A) (test : List (Q × A) → α → Bool) : Bool :=
  match run.follow answers with
  | (log, .done _ value) => test log value
  | _ => false

theorem exists_of_returns (run : Run S Q A α) (answers : List A) (test : List (Q × A) → α → Bool)
    (passed : run.returns answers test = true) :
    ∃ log after value, run.Ends log after value ∧ test log value = true := by
  unfold returns at passed
  cases followed : run.follow answers with
  | mk log last =>
    rw [followed] at passed
    cases last with
    | done after value => exact ⟨log, after, value, ends_of_follow followed, passed⟩
    | raised after => cases passed
    | asks after question next => cases passed

end Run

/-- A program: its run from each state. -/
def Program (S Q A α : Type) : Type := S → Run S Q A α

namespace Program

instance : Monad (Program S Q A) where
  pure value := fun state => .done state value
  bind program f := fun state => (program state).andThen f

def ask (question : Q) : Program S Q A A := fun state =>
  .asks state question fun answer => .done state answer

def raise : Program S Q A α := fun state => .raised state

def getState : Program S Q A S := fun state => .done state state

def modifyState (change : S → S) : Program S Q A Unit := fun state => .done (change state) ()

section Ends

variable {state after : S} {log : List (Q × A)} {result : α}

@[simp] theorem ends_pure {value : α} :
    ((pure value : Program S Q A α) state).Ends log after result ↔
      log = [] ∧ after = state ∧ result = value := Iff.rfl

@[simp] theorem ends_raise :
    ((raise : Program S Q A α) state).Ends log after result ↔ False := Iff.rfl

@[simp] theorem ends_getState {result : S} :
    ((getState : Program S Q A S) state).Ends log after result ↔
      log = [] ∧ after = state ∧ result = state := Iff.rfl

@[simp] theorem ends_modifyState {change : S → S} {result : Unit} :
    ((modifyState change : Program S Q A Unit) state).Ends log after result ↔
      log = [] ∧ after = change state := by
  simp [modifyState, Run.Ends]

@[simp] theorem ends_ask {question : Q} {result : A} :
    ((ask question : Program S Q A A) state).Ends log after result ↔
      log = [(question, result)] ∧ after = state := by
  constructor
  · rintro ⟨answer, rest, rfl, rfl, rfl, rfl⟩
    exact ⟨rfl, rfl⟩
  · rintro ⟨rfl, rfl⟩
    exact ⟨_, [], rfl, rfl, rfl, rfl⟩

theorem ends_bind {program : Program S Q A β} {f : β → Program S Q A α} :
    ((program >>= f) state).Ends log after result ↔ ∃ first rest between value,
      log = first ++ rest ∧ (program state).Ends first between value ∧
        (f value between).Ends rest after result :=
  Run.ends_andThen

/-- Reading the state first. -/
@[simp] theorem ends_getState_bind {f : S → Program S Q A α} :
    ((getState >>= f) state).Ends log after result ↔ (f state state).Ends log after result :=
  Iff.rfl

@[simp] theorem ends_modifyState_bind {change : S → S} {f : Unit → Program S Q A α} :
    ((modifyState change >>= f) state).Ends log after result ↔
      (f () (change state)).Ends log after result := Iff.rfl

@[simp] theorem ends_pure_bind {value : β} {f : β → Program S Q A α} :
    ((pure value >>= f) state).Ends log after result ↔ (f value state).Ends log after result :=
  Iff.rfl

@[simp] theorem ends_ask_bind {question : Q} {f : A → Program S Q A α} :
    ((ask question >>= f) state).Ends log after result ↔
      ∃ answer rest, log = (question, answer) :: rest ∧ (f answer state).Ends rest after result :=
  Iff.rfl

end Ends

/-! ## Steady programs -/

section Steady

variable (quiet : Q → A → Prop)

/-- Quiet answers leave every state alone. -/
def Steady (program : Program S Q A α) : Prop := ∀ state, (program state).Steady quiet state

variable {quiet}

theorem steady_pure (value : α) : Steady quiet (pure value : Program S Q A α) := fun _ => rfl

theorem steady_raise : Steady quiet (raise : Program S Q A α) := fun _ => trivial

theorem steady_getState : Steady quiet (getState : Program S Q A S) := fun _ => rfl

theorem Steady.bind {program : Program S Q A α} {f : α → Program S Q A β}
    (first : Steady quiet program) (rest : ∀ value, Steady quiet (f value)) :
    Steady quiet (program >>= f) :=
  fun state => (first state).andThen fun value => rest value state

/-- A question, when what follows its quiet answers is steady. -/
theorem steady_ask_bind {question : Q} {f : A → Program S Q A α}
    (rest : ∀ answer, quiet question answer → Steady quiet (f answer)) :
    Steady quiet (ask question >>= f) :=
  fun state => ⟨rfl, fun answer calm => rest answer calm state⟩

end Steady

end Program

/-! ## The driver -/

/-- The questions a driver shows with the answers they get, and the last run. -/
def serve (program : Program S Q A α) (given : List A) (state : S) :
    List A → List (Q × A) × Run S Q A α
  | [] => ([], ((program state).follow given).2)
  | answer :: later =>
    match ((program state).follow given).2 with
    | .asks left question _ =>
      let (shown, last) := serve program (given ++ [answer]) left later
      ((question, answer) :: shown, last)
    | run => ([], run)

/-- Driven with these answers the program returns a value that passes the test. -/
def serves (program : Program S Q A α) (state : S) (answers : List A)
    (test : List (Q × A) → α → Bool) : Bool :=
  match serve program [] state answers with
  | (shown, .done _ value) => test shown value
  | _ => false

theorem exists_of_serves (program : Program S Q A α) (state : S) (answers : List A)
    (test : List (Q × A) → α → Bool) (passed : serves program state answers test = true) :
    ∃ shown after value, serve program [] state answers = (shown, .done after value) ∧
      test shown value = true := by
  unfold serves at passed
  cases served : serve program [] state answers with
  | mk shown last =>
    rw [served] at passed
    cases last with
    | done after value => exact ⟨shown, after, value, rfl, passed⟩
    | raised after => cases passed
    | asks after question next => cases passed

theorem serve_ended {program : Program S Q A α} {given : List A} {state : S} {run : Run S Q A α}
    (reached : ((program state).follow given).2 = run)
    (ended : ∀ left question next, run ≠ .asks left question next) (answers : List A) :
    serve program given state answers = ([], run) := by
  cases answers with
  | nil => rw [serve, reached]
  | cons answer later =>
    rw [serve, reached]
    cases run with
    | asks left question next => exact absurd rfl (ended left question next)
    | done left value => rfl
    | raised left => rfl

theorem serve_asks {program : Program S Q A α} {given : List A} {state left : S} {question : Q}
    {next : A → Run S Q A α} (reached : ((program state).follow given).2 = .asks left question next)
    (answer : A) (later : List A) :
    serve program given state (answer :: later) =
      ((question, answer) :: (serve program (given ++ [answer]) left later).1,
        (serve program (given ++ [answer]) left later).2) := by
  rw [serve, reached]

/-- Reruns of a steady program are one run that waits, as long as no answer but the last
changed the state. -/
theorem serve_of_steady {quiet : Q → A → Prop} {program : Program S Q A α} {state : S}
    {mid : Run S Q A α} {given : List A} (answers : List A)
    (reached : ((program state).follow given).2 = mid) (steady : mid.Steady quiet state)
    (calm : ∀ pair ∈ (serve program given state answers).1.dropLast, quiet pair.1 pair.2) :
    serve program given state answers = mid.follow answers := by
  induction answers generalizing given mid with
  | nil => rw [serve, reached, Run.follow_nil]
  | cons answer later ih =>
    cases mid with
    | done left value => exact serve_ended reached (fun _ _ _ same => by cases same) _
    | raised left => exact serve_ended reached (fun _ _ _ same => by cases same) _
    | asks left question next =>
      obtain rfl : left = state := steady.1
      obtain ⟨log, onward⟩ := Run.follow_append [answer] reached
      have reached' : ((program left).follow (given ++ [answer])).2 = next answer := by
        rw [onward]
        exact congrArg Prod.snd (Run.follow_nil (next answer))
      rw [serve_asks reached] at calm ⊢
      have same : serve program (given ++ [answer]) left later = (next answer).follow later := by
        cases later with
        | nil => rw [serve, reached', Run.follow_nil]
        | cons second later =>
          cases case : next answer with
          | done ended value => exact serve_ended (case ▸ reached') (fun _ _ _ same => by cases same) _
          | raised ended => exact serve_ended (case ▸ reached') (fun _ _ _ same => by cases same) _
          | asks waiting other rest =>
            -- another question is shown, so this answer is not the last one
            rw [← case]
            rw [case] at reached'
            rw [serve_asks reached'] at calm
            have quietly := calm (question, answer) List.mem_cons_self
            rw [← case] at reached'
            apply ih reached' (steady.2 answer quietly)
            intro pair member
            rw [serve_asks (reached'.trans case)] at member
            exact calm pair (List.mem_cons_of_mem _ member)
      rw [same]
      rfl

/-- A driven program that returns has returned from one run with the answers shown. -/
theorem ends_of_serve {quiet : Q → A → Prop} {program : Program S Q A α} {state after : S}
    {answers : List A} {shown : List (Q × A)} {value : α} (steady : Program.Steady quiet program)
    (served : serve program [] state answers = (shown, .done after value))
    (calm : ∀ pair ∈ shown.dropLast, quiet pair.1 pair.2) :
    (program state).Ends shown after value := by
  have reached : ((program state).follow []).2 = program state :=
    congrArg Prod.snd (Run.follow_nil (program state))
  have same := serve_of_steady answers reached (steady state) (by rw [served]; exact calm)
  rw [served] at same
  exact Run.ends_of_follow same.symm

end SherryAgent.Library.Reruns
