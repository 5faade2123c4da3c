import SherryAgent.Library.Resumption

/-!
# A program that has the store to itself

`Prog.solo` runs a program from its first operation to its last with no other
program in between. What the environment contributes to each answer may depend
on everything the program has done so far.

* `Prog.solo_bind` — sequencing;
* `Prog.solo_isSome` — a program whose operations are always enabled returns;
* `Prog.Issues.solo` — what a program issues under every answer, it issues alone;
* `System.solo_runs` — such a run is a run of the system in which only that
  program takes steps.
-/

namespace SherryAgent.Library.Resumption

variable {E : Effects} {σ ι κ ρ α β γ : Type}

namespace Prog

/-- The value, the history and the store the program ends with. -/
def solo (exec : (op : E.Op) → σ → ι → Option (E.Ans op × σ))
    (input : List (Event E) → E.Op → ι) :
    Prog E α → List (Event E) → σ → Option (α × List (Event E) × σ)
  | .done value, h, store => some (value, h, store)
  | .call op next, h, store =>
    (exec op store (input h op)).bind fun answered =>
      (next answered.1).solo exec input (h ++ [⟨op, answered.1⟩]) answered.2

variable {exec : (op : E.Op) → σ → ι → Option (E.Ans op × σ)}
  {input : List (Event E) → E.Op → ι} {h h' : List (Event E)} {store store' : σ}

@[simp] theorem solo_pure (value : α) :
    (pure value : Prog E α).solo exec input h store = some (value, h, store) := rfl

theorem solo_perform {op : E.Op} {ans : E.Ans op}
    (executed : exec op store (input h op) = some (ans, store')) :
    (perform op).solo exec input h store = some (ans, h ++ [⟨op, ans⟩], store') := by
  simp [perform, solo, executed]

/-- Sequencing: the second part runs in the store the first one leaves. -/
theorem solo_bind (p : Prog E α) (f : α → Prog E β) :
    (p >>= f).solo exec input h store =
      (p.solo exec input h store).bind fun left =>
        (f left.1).solo exec input left.2.1 left.2.2 := by
  induction p generalizing h store with
  | done value => rfl
  | call op next ih =>
    change ((exec op store (input h op)).bind fun answered =>
      (next answered.1 >>= f).solo exec input _ _) = _
    cases executed : exec op store (input h op) with
    | none => simp [solo, executed]
    | some answered => simp [solo, executed, ih]

theorem solo_perform_bind {op : E.Op} {ans : E.Ans op} {f : E.Ans op → Prog E β}
    (executed : exec op store (input h op) = some (ans, store')) :
    (perform op >>= f).solo exec input h store =
      (f ans).solo exec input (h ++ [⟨op, ans⟩]) store' := by
  rw [solo_bind, solo_perform executed]
  rfl

/-- A program whose operations are always enabled returns. -/
theorem solo_isSome (enabled : ∀ op h store, (exec op store (input h op)).isSome = true)
    (p : Prog E α) : ∀ h store, (p.solo exec input h store).isSome = true := by
  induction p with
  | done value => intro h store; rfl
  | call op next ih =>
    intro h store
    have runs := enabled op h store
    cases executed : exec op store (input h op) with
    | none => simp [executed] at runs
    | some answered => simpa [solo, executed] using ih answered.1 _ _

/-- What a program issues under every answer, it issues alone. -/
theorem Issues.solo {Req : List (Event E) → E.Op → Prop} {Post : List (Event E) → α → Prop}
    {p : Prog E α} {value : α} (issues : p.Issues Req Post h)
    (ran : p.solo exec input h store = some (value, h', store')) :
    Post h' value ∧ ∃ later, h' = h ++ later ∧ ∀ event ∈ later, ∃ past, Req past event.op := by
  induction p generalizing h store with
  | done value =>
    obtain ⟨rfl, rfl, rfl⟩ : value = _ ∧ h = h' ∧ store = store' := by simpa [Prog.solo] using ran
    exact ⟨issues, [], by simp⟩
  | call op next ih =>
    obtain ⟨answered, executed, ran⟩ := Option.bind_eq_some_iff.mp ran
    obtain ⟨post, later, rfl, required⟩ := ih answered.1 (issues.2 answered.1) ran
    refine ⟨post, ⟨op, answered.1⟩ :: later, by simp, ?_⟩
    intro event member
    rcases List.mem_cons.mp member with rfl | member
    · exact ⟨h, issues.1⟩
    · exact required event member

/-- A loop over a list, run alone: an invariant of the items done, the history
and the store carries it through. -/
theorem solo_mapM {f : γ → Prog E α} (inv : List γ → List (Event E) → σ → Prop)
    (items : List γ)
    (body : ∀ finished item rest, items = finished ++ item :: rest → ∀ h store,
      inv finished h store → ∃ value h' store',
        (f item).solo exec input h store = some (value, h', store') ∧
          inv (finished ++ [item]) h' store') (start : inv [] h store) :
    ∃ values h' store', (items.mapM f).solo exec input h store = some (values, h', store') ∧
      inv items h' store' := by
  suffices general : ∀ (rest finished : List γ) (h : List (Event E)) (store : σ),
      items = finished ++ rest → inv finished h store →
        ∃ values h' store', (rest.mapM f).solo exec input h store = some (values, h', store') ∧
          inv items h' store' from general items [] h store rfl start
  intro rest
  induction rest with
  | nil =>
    intro finished h store split holds
    refine ⟨[], h, store, rfl, ?_⟩
    simpa [split] using holds
  | cons item rest ih =>
    intro finished h store split holds
    obtain ⟨value, h₁, store₁, ran, holds₁⟩ := body finished item rest split h store holds
    obtain ⟨values, h₂, store₂, ran', holds₂⟩ :=
      ih (finished ++ [item]) h₁ store₁ (by simp [split]) holds₁
    refine ⟨value :: values, h₂, store₂, ?_, holds₂⟩
    simp only [List.mapM_cons, solo_bind, ran, ran', Option.bind_some, solo_pure]

end Prog

namespace System

variable (S : System E σ ι κ ρ) {cond : World E σ κ ρ → Choice κ ι → Prop}

/-- A program that runs alone is a run of the system in which only it takes steps. -/
theorem solo_runs {input : List (Event E) → E.Op → ι} {p : Prog E ρ} {request : κ} {value : ρ}
    {h h' : List (Event E)} {w : World E σ κ ρ} {i : Nat} {store' : σ}
    (at_index : w.threads[i]? = some ⟨request, p, h⟩)
    (ran : p.solo S.exec input h w.store = some (value, h', store')) :
    S.Runs (fun _ choice => ∃ answer, choice = .run i answer) w
      ⟨store', w.threads.set i ⟨request, .done value, h'⟩⟩ := by
  induction p generalizing h w with
  | done value' =>
    obtain ⟨rfl, rfl, rfl⟩ : value' = value ∧ h = h' ∧ w.store = store' := by
      simpa [Prog.solo] using ran
    have same : w.threads.set i ⟨request, .done value', h⟩ = w.threads := by
      apply List.ext_getElem?
      intro j
      by_cases here : i = j
      · subst here
        obtain ⟨bound, _⟩ := List.getElem?_eq_some_iff.mp at_index
        rw [List.getElem?_set_self bound, at_index]
      · rw [List.getElem?_set_ne here]
    rw [same]
    exact .refl
  | call op next ih =>
    obtain ⟨answered, executed, ran⟩ := Option.bind_eq_some_iff.mp ran
    obtain ⟨bound, _⟩ := List.getElem?_eq_some_iff.mp at_index
    let w' : World E σ κ ρ := ⟨answered.2, w.threads.set i
      ⟨request, next answered.1, h ++ [⟨op, answered.1⟩]⟩⟩
    have stepped : S.step w (.run i (input h op)) = some w' := by
      simp [step, at_index, executed, w']
    have rest := ih answered.1 (w := w') (h := h ++ [⟨op, answered.1⟩])
      (List.getElem?_set_self bound) ran
    rw [List.set_set] at rest
    exact .head ⟨_, ⟨_, rfl⟩, stepped⟩ rest

end System

end SherryAgent.Library.Resumption
