import Mathlib.Data.List.Basic
import Mathlib.Data.List.Nodup

/-!
# Descendants by breadth-first search

Entries lead from one key to another. `collect` gathers what can be reached from a
queue of keys, expanding each key once; `Below` is reachability itself. Nothing here
names the agent.
-/

namespace SherryAgent.Library.Descent

variable {α κ : Type} (source target : α → κ)

/-- The entries reachable from the keys, a first step included. -/
inductive ReachIn (entries : List α) (keys : List κ) : α → Prop where
  | root {entry : α} : entry ∈ entries → source entry ∈ keys → ReachIn entries keys entry
  | edge {parent entry : α} : ReachIn entries keys parent → entry ∈ entries →
      source entry = target parent → ReachIn entries keys entry

/-- The entries reachable from one key. -/
def Below (entries : List α) (key : κ) : α → Prop := ReachIn source target entries [key]

variable {source target} {entries : List α} {visited keys queue : List κ} {key : κ} {entry : α}

theorem ReachIn.inside (reached : ReachIn source target entries keys entry) : entry ∈ entries := by
  cases reached with
  | root member _ => exact member
  | edge _ member _ => exact member

/-- What is reached stays reached with more entries and more keys. -/
theorem ReachIn.mono {more : List α} {keys' : List κ}
    (reached : ReachIn source target entries keys entry) (sub : ∀ e ∈ entries, e ∈ more)
    (wider : ∀ k ∈ keys, k ∈ keys') : ReachIn source target more keys' entry := by
  induction reached with
  | root member start => exact .root (sub _ member) (wider _ start)
  | edge _ member step ih => exact .edge ih (sub _ member) step

/-- A first step, and what is below its target. -/
theorem Below.head {parent : α} (member : parent ∈ entries)
    (below : Below source target entries (target parent) entry) :
    Below source target entries (source parent) entry := by
  have first : Below source target entries (source parent) parent :=
    .root member (List.mem_singleton.mpr rfl)
  induction below with
  | root inside start => exact .edge first inside (List.mem_singleton.mp start)
  | edge _ inside step ih => exact .edge ih inside step

variable [DecidableEq κ]

variable (source) in
/-- The entries whose key is still to be expanded. -/
def unvisited (entries : List α) (visited : List κ) : List α :=
  entries.filter fun entry => source entry ∉ visited

variable (source) in
/-- The entries out of one key. -/
def children (entries : List α) (key : κ) : List α :=
  entries.filter fun entry => source entry = key

theorem mem_unvisited :
    entry ∈ unvisited source entries visited ↔ entry ∈ entries ∧ source entry ∉ visited := by
  simp [unvisited]

theorem mem_children : entry ∈ children source entries key ↔ entry ∈ entries ∧ source entry = key := by
  simp [children]

variable (source entries) in
/-- Expanding a key takes exactly its entries away. -/
theorem length_unvisited (fresh : key ∉ visited) :
    (unvisited source entries (key :: visited)).length + (children source entries key).length =
      (unvisited source entries visited).length := by
  unfold unvisited children
  induction entries with
  | nil => rfl
  | cons first rest ih =>
    by_cases here : source first = key
    · have new : source first ∉ visited := here ▸ fresh
      simp [here, fresh] at ih ⊢
      omega
    · by_cases seen : source first ∈ visited
      · simpa [List.filter_cons, here, seen] using ih
      · simp [here, seen] at ih ⊢
        omega

variable (source target) in
/-- The search: the queue's keys in order, those already visited skipped. -/
def collect (entries : List α) (visited : List κ) : (queue : List κ) → List α
  | [] => []
  | key :: rest =>
    if key ∈ visited then collect entries visited rest
    else
      children source entries key ++
        collect entries (key :: visited) (rest ++ (children source entries key).map target)
  termination_by queue => (unvisited source entries visited).length + queue.length
  decreasing_by
    · simp
    · rename_i fresh
      have counted := length_unvisited source entries fresh
      simp only [List.length_append, List.length_map, List.length_cons]
      omega

/-- A key without entries left adds nothing. -/
theorem reachIn_skip (seen : key ∈ visited) :
    ReachIn source target (unvisited source entries visited) (key :: keys) entry ↔
      ReachIn source target (unvisited source entries visited) keys entry := by
  constructor
  · intro reached
    induction reached with
    | root member start =>
      rcases List.mem_cons.mp start with here | later
      · exact absurd (here ▸ seen) (mem_unvisited.mp member).2
      · exact .root member later
    | edge _ member step ih => exact .edge ih member step
  · intro reached
    exact reached.mono (fun _ member => member) fun _ start => List.mem_cons_of_mem _ start

/-- Expanding a key: its entries, and what their targets lead to. -/
theorem reachIn_expand (fresh : key ∉ visited) :
    ReachIn source target (unvisited source entries visited) (key :: keys) entry ↔
      entry ∈ children source entries key ∨
        ReachIn source target (unvisited source entries (key :: visited))
          (keys ++ (children source entries key).map target) entry := by
  constructor
  · intro reached
    have later : ∀ e, e ∈ unvisited source entries visited → source e ≠ key →
        e ∈ unvisited source entries (key :: visited) := by
      intro e member away
      have inside := mem_unvisited.mp member
      apply mem_unvisited.mpr
      simp [inside, away]
    induction reached with
    | root member start =>
      rename_i e
      by_cases here : source e = key
      · exact .inl (mem_children.mpr ⟨(mem_unvisited.mp member).1, here⟩)
      · have rest : source e ∈ keys := by simpa [here] using start
        exact .inr (.root (later e member here) (List.mem_append_left _ rest))
    | edge reached member step ih =>
      rename_i parent e
      by_cases here : source e = key
      · exact .inl (mem_children.mpr ⟨(mem_unvisited.mp member).1, here⟩)
      · have inside := later e member here
        rcases ih with child | deeper
        · have started : source e ∈ (children source entries key).map target := by
            rw [step]
            exact List.mem_map_of_mem child
          exact .inr (.root inside (List.mem_append_right _ started))
        · exact .inr (.edge deeper inside step)
  · have first : ∀ e, e ∈ children source entries key →
        ReachIn source target (unvisited source entries visited) (key :: keys) e := by
      intro e child
      have inside := mem_children.mp child
      apply ReachIn.root
      · apply mem_unvisited.mpr
        simp [inside, fresh]
      · simp [inside]
    have wider : ∀ e, e ∈ unvisited source entries (key :: visited) →
        e ∈ unvisited source entries visited := by
      intro e member
      have inside := mem_unvisited.mp member
      apply mem_unvisited.mpr
      simp at inside
      simp [inside]
    intro reached
    rcases reached with child | deeper
    · exact first entry child
    · induction deeper with
      | root member start =>
        rcases List.mem_append.mp start with rest | started
        · exact .root (wider _ member) (List.mem_cons_of_mem _ rest)
        · obtain ⟨parent, child, step⟩ := List.mem_map.mp started
          exact .edge (first parent child) (wider _ member) step.symm
      | edge _ member step ih => exact .edge ih (wider _ member) step

/-- The search finds exactly what is reachable. -/
theorem mem_collect : entry ∈ collect source target entries visited queue ↔
    ReachIn source target (unvisited source entries visited) queue entry := by
  fun_induction collect source target entries visited queue with
  | case1 visited =>
    constructor
    · intro member
      cases member
    · intro reached
      induction reached with
      | root _ start => cases start
      | edge _ _ _ ih => cases ih
  | case2 visited key rest seen ih => rw [ih, reachIn_skip seen]
  | case3 visited key rest fresh ih => rw [List.mem_append, ih, reachIn_expand fresh]

theorem mem_collect_key : entry ∈ collect source target entries [] [key] ↔
    Below source target entries key entry := by
  rw [mem_collect]
  have all : unvisited source entries [] = entries := by simp [unvisited]
  rw [all]
  rfl

/-- The search finds each entry once. -/
theorem nodup_collect (distinct : entries.Nodup) :
    (collect source target entries visited queue).Nodup := by
  fun_induction collect source target entries visited queue with
  | case1 visited => exact List.nodup_nil
  | case2 visited key rest seen ih => exact ih
  | case3 visited key rest fresh ih =>
    apply List.Nodup.append
    · exact distinct.filter _
    · exact ih
    · intro e child deeper
      have here := (mem_children.mp child).2
      have away := (mem_unvisited.mp (mem_collect.mp deeper).inside).2
      simp [here] at away

end SherryAgent.Library.Descent
