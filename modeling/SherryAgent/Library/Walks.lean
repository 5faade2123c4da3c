import Mathlib.Data.List.Chain
import Mathlib.Data.Set.Basic
import Mathlib.Logic.Relation

/-!
# Closed walks

A node is settled when every walk from it ends. A search that settles a node only after all
its targets proves acyclicity; a path whose last node leads back into it is a closed walk.
A search against the edges, level by level from a set of roots, finds the nodes that enter the
roots from outside. Nothing here names the agent.
-/

namespace SherryAgent.Library.Walks

variable {ν : Type} {edge : ν → ν → Prop} {node : ν}

/-- A walk of at least one step that ends where it starts. -/
structure ClosedWalk (edge : ν → ν → Prop) (walk : List ν) : Prop where
  chain : walk.IsChain edge
  closed : ∃ node rest, walk = node :: (rest ++ [node])

/-- No node leads back to itself. -/
def Acyclic (edge : ν → ν → Prop) : Prop := ∀ node, ¬Relation.TransGen edge node node

/-- Every walk from the node ends. -/
def Settled (edge : ν → ν → Prop) (node : ν) : Prop :=
  Acc (fun later earlier => edge earlier later) node

theorem Settled.of_targets (targets : ∀ target, edge node target → Settled edge target) :
    Settled edge node := Acc.intro node targets

theorem Settled.not_cyclic (settled : Settled edge node) :
    ¬Relation.TransGen edge node node := by
  induction settled with
  | intro node _ ih =>
    intro cycle
    obtain ⟨target, step, back⟩ := Relation.TransGen.head'_iff.mp cycle
    exact ih target step (Relation.TransGen.tail' back step)

/-- Only nodes with a target can lie on a cycle. -/
theorem acyclic_of_settled
    (settled : ∀ node target, edge node target → Settled edge node) : Acyclic edge := by
  intro node cycle
  obtain ⟨target, step, -⟩ := Relation.TransGen.head'_iff.mp cycle
  exact (settled node target step).not_cyclic cycle

theorem ClosedWalk.not_acyclic {walk : List ν} (walked : ClosedWalk edge walk) :
    ¬Acyclic edge := by
  intro acyclic
  obtain ⟨node, rest, shape⟩ := walked.closed
  have chain := walked.chain
  rw [shape] at chain
  apply acyclic node
  cases rest with
  | nil => exact .single (List.isChain_pair.mp chain)
  | cons next rest =>
    obtain ⟨step, tail⟩ := List.isChain_cons_cons.mp chain
    apply Relation.TransGen.head' step
    apply List.relationReflTransGen_of_exists_isChain_cons _ tail
    simp

/-! ## Searching against the edges -/

variable {roots found frontier : Set ν} {target : ν}

/-- Some walk from the node enters the roots from outside. -/
def Enters (edge : ν → ν → Prop) (roots : Set ν) (node : ν) : Prop :=
  ∃ last, last ∉ roots ∧ Relation.ReflTransGen edge node last ∧ ∃ root ∈ roots, edge last root

theorem Enters.transGen (enters : Enters edge roots node) :
    ∃ root ∈ roots, Relation.TransGen edge node root := by
  obtain ⟨last, -, walk, root, member, step⟩ := enters
  exact ⟨root, member, Relation.TransGen.tail' walk step⟩

theorem Enters.head (step : edge node target) (enters : Enters edge roots target) :
    Enters edge roots node := by
  obtain ⟨last, outside, walk, enter⟩ := enters
  exact ⟨last, outside, Relation.ReflTransGen.head step walk, enter⟩

/-- A walk to a root that starts outside the roots enters them somewhere. -/
theorem enters_of_transGen {root : ν} (walk : Relation.TransGen edge node root)
    (member : root ∈ roots) (outside : node ∉ roots) : Enters edge roots node := by
  induction walk using Relation.TransGen.head_induction_on with
  | single step => exact ⟨_, outside, .refl, root, member, step⟩
  | head step _ ih =>
    rename_i first next _
    by_cases inside : next ∈ roots
    · exact ⟨first, outside, .refl, next, inside, step⟩
    · exact (ih inside).head step

/-- What the search has found while `frontier` is the level to look at next. -/
structure Levels (edge : ν → ν → Prop) (roots found frontier : Set ν) : Prop where
  latest : frontier ⊆ found
  entering : ∀ node ∈ found, Enters edge roots node
  direct : ∀ node, node ∉ roots → (∃ root ∈ roots, edge node root) → node ∈ found
  expanded : ∀ node target, edge node target → target ∈ found → target ∉ frontier → node ∈ found

theorem Levels.first :
    Levels edge roots {node | node ∉ roots ∧ ∃ root ∈ roots, edge node root}
      {node | node ∉ roots ∧ ∃ root ∈ roots, edge node root} := by
  constructor
  · exact subset_rfl
  · intro node level
    exact ⟨node, level.1, .refl, level.2⟩
  · intro node outside enter
    exact ⟨outside, enter⟩
  · intro node target _ member fresh
    exact absurd member fresh

theorem Levels.next (levels : Levels edge roots found frontier) :
    Levels edge roots (found ∪ {node | node ∉ found ∧ ∃ target ∈ frontier, edge node target})
      {node | node ∉ found ∧ ∃ target ∈ frontier, edge node target} := by
  constructor
  · exact Set.subset_union_right
  · intro node member
    cases member with
    | inl earlier => exact levels.entering node earlier
    | inr level =>
      obtain ⟨-, target, inside, step⟩ := level
      exact (levels.entering target (levels.latest inside)).head step
  · intro node outside enter
    exact .inl (levels.direct node outside enter)
  · intro node target step member settled
    have earlier : target ∈ found := member.resolve_right settled
    by_cases known : node ∈ found
    · exact .inl known
    · right
      refine ⟨known, target, ?_, step⟩
      by_contra looked
      exact known (levels.expanded node target step earlier looked)

/-- When a level is empty the search has found every node that enters the roots. -/
theorem Levels.complete (levels : Levels edge roots found ∅) :
    node ∈ found ↔ Enters edge roots node := by
  constructor
  · exact levels.entering node
  · intro enters
    obtain ⟨last, outside, walk, enter⟩ := enters
    induction walk using Relation.ReflTransGen.head_induction_on with
    | refl => exact levels.direct last outside enter
    | head step _ ih => exact levels.expanded _ _ step ih (Set.notMem_empty _)

variable [BEq ν] [LawfulBEq ν]

/-- The part of a path from a node on, closed by the step back to it. -/
theorem ClosedWalk.of_path {path : List ν} {last : ν} (chain : path.IsChain edge)
    (ends : path.getLast? = some last) (back : edge last node) (member : node ∈ path) :
    ClosedWalk edge (path.drop (path.idxOf node) ++ [node]) := by
  have bound : path.idxOf node < path.length := List.idxOf_lt_length_iff.mpr member
  constructor
  · apply List.IsChain.append (chain.drop _) (List.isChain_singleton _)
    intro final here target there
    rw [List.getLast?_drop, if_neg (by omega), ends] at here
    rw [← Option.some.inj here, ← Option.some.inj there]
    exact back
  · refine ⟨node, path.drop (path.idxOf node + 1), ?_⟩
    rw [List.drop_eq_getElem_cons bound, List.getElem_idxOf bound]
    rfl

end SherryAgent.Library.Walks
