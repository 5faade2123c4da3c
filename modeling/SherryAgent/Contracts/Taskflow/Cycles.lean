import Mathlib.Data.List.Perm.Subperm
import SherryAgent.Library.Walks
import SherryAgent.Source.Taskflow.StepsList

/-!
# The three-colour search for a dependency cycle

`_find_dependency_cycle` keeps the path of grey nodes; a node turns black when all its
prerequisites are. A black node is settled, so a search that blackens every node has seen no
cycle, and a step to a grey node closes the path.
-/

namespace SherryAgent.Contracts.Taskflow

open SherryAgent.Source.Taskflow SherryAgent.Library.Walks

abbrev DependencyGraph := List (String × List String)

/-- A node and one of its prerequisites. -/
def Needs (graph : DependencyGraph) (node dep : String) : Prop := dep ∈ prerequisites graph node

/-- Every prerequisite is a node. -/
def Closed (graph : DependencyGraph) : Prop :=
  ∀ node dep, Needs graph node dep → dep ∈ graph.map (·.1)

variable {graph : DependencyGraph} {search : CycleSearch} {node dep : String} {colour : Colour}
  {fuel : Nat}

/-- One prerequisite in the loop of `_visit`. -/
def visitDep (graph : DependencyGraph) (fuel : Nat) :
    CycleSearch × Option (List String) → String → CycleSearch × Option (List String) :=
  fun (search, found) dep =>
    match found with
    | some cycle => (search, some cycle)
    | none =>
      match search.colourOf dep with
      | .grey => (search, some (search.path.drop (search.path.idxOf dep) ++ [dep]))
      | .white => visit graph fuel dep search
      | .black => (search, none)

/-- The node is coloured grey and put on the path. -/
def enter (search : CycleSearch) (node : String) : CycleSearch :=
  { search.paint node .grey with path := search.path ++ [node] }

/-- The node is taken from the path and coloured black. -/
def leave (search : CycleSearch) (node : String) : CycleSearch :=
  { search with path := search.path.dropLast }.paint node .black

theorem visit_succ : visit graph (fuel + 1) node search =
    match (prerequisites graph node).foldl (visitDep graph fuel) (enter search node, none) with
    | (search, some cycle) => (search, some cycle)
    | (search, none) => (leave search node, none) := by
  rw [visit]
  change (match (prerequisites graph node).foldl (visitDep graph fuel) (enter search node, none) with
    | (search, found) =>
      match found with
      | some cycle => (search, some cycle)
      | none => (leave search node, none)) = _
  generalize (prerequisites graph node).foldl (visitDep graph fuel) _ = result
  obtain ⟨after, found⟩ := result
  cases found <;> rfl

theorem colourOf_paint_self : (search.paint node colour).colourOf node = colour := by
  simp [CycleSearch.paint, CycleSearch.colourOf]

theorem colourOf_paint_of_ne (different : dep ≠ node) :
    (search.paint node colour).colourOf dep = search.colourOf dep := by
  have miss : (node == dep) = false := beq_false_of_ne different.symm
  simp [CycleSearch.paint, CycleSearch.colourOf, miss]

theorem visitDep_found (deps : List String) (cycle : List String) :
    deps.foldl (visitDep graph fuel) (search, some cycle) = (search, some cycle) := by
  induction deps with
  | nil => rfl
  | cons dep rest ih => exact ih

/-- The grey nodes are the path, a walk without repetition; black nodes are settled. -/
structure Searching (graph : DependencyGraph) (search : CycleSearch) : Prop where
  chain : search.path.IsChain (Needs graph)
  nodup : search.path.Nodup
  listed : ∀ node ∈ search.path, node ∈ graph.map (·.1)
  grey : ∀ node, search.colourOf node = .grey ↔ node ∈ search.path
  black : ∀ node, search.colourOf node = .black → Settled (Needs graph) node

/-- What a call leaves: a closed walk, or the same path with some nodes blackened. -/
structure Explores (graph : DependencyGraph) (search : CycleSearch) (nodes : List String)
    (result : CycleSearch × Option (List String)) : Prop where
  found : ∀ cycle, result.2 = some cycle → ClosedWalk (Needs graph) cycle
  searching : result.2 = none → Searching graph result.1
  path : result.2 = none → result.1.path = search.path
  kept : result.2 = none →
    ∀ node, search.colourOf node = .black → result.1.colourOf node = .black
  blackened : result.2 = none → ∀ node ∈ nodes, result.1.colourOf node = .black

theorem Searching.enter (searching : Searching graph search) (white : search.colourOf node = .white)
    (listed : node ∈ graph.map (·.1)) (step : ∀ last ∈ search.path.getLast?, Needs graph last node) :
    Searching graph (enter search node) := by
  have outside : node ∉ search.path := by
    intro member
    rw [(searching.grey node).mpr member] at white
    cases white
  constructor
  · apply List.IsChain.append searching.chain (List.isChain_singleton _)
    intro last here first there
    rw [← Option.some.inj there]
    exact step last here
  · apply List.nodup_append.mpr
    refine ⟨searching.nodup, List.pairwise_singleton _ _, ?_⟩
    intro other member target there same
    rw [same, List.mem_singleton.mp there] at member
    exact outside member
  · intro other member
    rcases List.mem_append.mp member with old | new
    · exact searching.listed other old
    · rw [List.mem_singleton.mp new]
      exact listed
  · intro other
    by_cases here : other = node
    · subst here
      simp [Taskflow.enter, CycleSearch.paint, CycleSearch.colourOf]
    · have kept : (Taskflow.enter search node).colourOf other = search.colourOf other :=
        colourOf_paint_of_ne here
      rw [kept, searching.grey other]
      simp [Taskflow.enter, here]
  · intro other painted
    by_cases here : other = node
    · subst here
      have grey : (Taskflow.enter search other).colourOf other = .grey := colourOf_paint_self
      rw [grey] at painted
      cases painted
    · have kept : (Taskflow.enter search node).colourOf other = search.colourOf other :=
        colourOf_paint_of_ne here
      exact searching.black other (kept ▸ painted)

/-- The node leaves the path once its prerequisites are black. -/
theorem Searching.leave {front : List String} (searching : Searching graph search)
    (path : search.path = front ++ [node])
    (done : ∀ dep, Needs graph node dep → search.colourOf dep = .black) :
    Searching graph (leave search node) ∧ (leave search node).path = front := by
  have shorter : (Taskflow.leave search node).path = front := by
    simp [Taskflow.leave, CycleSearch.paint, path]
  have self : (Taskflow.leave search node).colourOf node = .black := colourOf_paint_self
  have others : ∀ other, other ≠ node →
      (Taskflow.leave search node).colourOf other = search.colourOf other :=
    fun other different => colourOf_paint_of_ne different
  have chain := searching.chain
  have nodup := searching.nodup
  have listed := searching.listed
  rw [path] at chain nodup listed
  have outside : node ∉ front := by
    intro member
    exact (List.nodup_append.mp nodup).2.2 node member node List.mem_cons_self rfl
  refine ⟨⟨?_, ?_, ?_, ?_, ?_⟩, shorter⟩
  · rw [shorter]
    exact chain.left_of_append
  · rw [shorter]
    exact (List.nodup_append.mp nodup).1
  · rw [shorter]
    exact fun other member => listed other (List.mem_append_left _ member)
  · intro other
    rw [shorter]
    by_cases here : other = node
    · subst here
      simp [self, outside]
    · rw [others other here, searching.grey other, path]
      simp [here]
  · intro other painted
    by_cases here : other = node
    · subst here
      exact .of_targets fun dep needs => searching.black dep (done dep needs)
    · exact searching.black other (others other here ▸ painted)

/-- What one call of `_visit` may assume: the path leads to a white node, and the fuel
outlasts the path. -/
structure Entering (graph : DependencyGraph) (fuel : Nat) (node : String) (search : CycleSearch) :
    Prop where
  searching : Searching graph search
  white : search.colourOf node = .white
  listed : node ∈ graph.map (·.1)
  step : ∀ last ∈ search.path.getLast?, Needs graph last node
  fuel : graph.length < fuel + search.path.length

/-- A path without repetition is no longer than the graph. -/
theorem Searching.path_le (searching : Searching graph search) :
    search.path.length ≤ graph.length := by
  have bound := (List.Nodup.subperm searching.nodup searching.listed).length_le
  simpa using bound

/-- The loop over the prerequisites of the node last put on the path. -/
theorem visitDeps_explores {front : List String} (closed : Closed graph)
    (visits : ∀ dep search, Entering graph fuel dep search →
      Explores graph search [dep] (visit graph fuel dep search))
    (deps : List String) (needs : ∀ dep ∈ deps, Needs graph node dep)
    (searching : Searching graph search) (path : search.path = front ++ [node])
    (enough : graph.length < fuel + search.path.length) :
    Explores graph search deps (deps.foldl (visitDep graph fuel) (search, none)) := by
  induction deps generalizing search with
  | nil =>
    exact ⟨nofun, fun _ => searching, fun _ => rfl, fun _ _ black => black, fun _ _ member =>
      absurd member List.not_mem_nil⟩
  | cons dep rest ih =>
    have last : search.path.getLast? = some node := by rw [path, List.getLast?_concat]
    have here := needs dep List.mem_cons_self
    have later := fun other member => needs other (List.mem_cons_of_mem dep member)
    rw [List.foldl_cons]
    cases colour : search.colourOf dep with
    | grey =>
      have stops : visitDep graph fuel (search, none) dep =
          (search, some (search.path.drop (search.path.idxOf dep) ++ [dep])) := by
        simp [visitDep, colour]
      rw [stops, visitDep_found]
      have member := (searching.grey dep).mp colour
      refine ⟨?_, nofun, nofun, nofun, nofun⟩
      intro cycle found
      rw [← Option.some.inj found]
      exact .of_path searching.chain last here member
    | black =>
      have skips : visitDep graph fuel (search, none) dep = (search, none) := by
        simp [visitDep, colour]
      rw [skips]
      have explored := ih later searching path enough
      refine ⟨explored.found, explored.searching, explored.path, explored.kept, ?_⟩
      intro finished other member
      rcases List.mem_cons.mp member with same | tail
      · rw [same]
        exact explored.kept finished dep colour
      · exact explored.blackened finished other tail
    | white =>
      have calls : visitDep graph fuel (search, none) dep = visit graph fuel dep search := by
        simp [visitDep, colour]
      have entering : Entering graph fuel dep search := by
        refine ⟨searching, colour, closed node dep here, ?_, enough⟩
        intro final ends
        rw [last] at ends
        rw [← Option.some.inj ends]
        exact here
      rw [calls]
      have visited := visits dep search entering
      revert visited
      generalize visit graph fuel dep search = result
      intro visited
      obtain ⟨after, found⟩ := result
      cases found with
      | some cycle =>
        rw [visitDep_found]
        exact ⟨visited.found, nofun, nofun, nofun, nofun⟩
      | none =>
        have samePath : after.path = search.path := visited.path rfl
        have explored := ih later (visited.searching rfl) (samePath.trans path)
          (by rw [samePath]; exact enough)
        refine ⟨explored.found, explored.searching, ?_, ?_, ?_⟩
        · exact fun finished => (explored.path finished).trans samePath
        · exact fun finished other black =>
            explored.kept finished other (visited.kept rfl other black)
        · intro finished other member
          rcases List.mem_cons.mp member with same | tail
          · rw [same]
            exact explored.kept finished dep (visited.blackened rfl dep List.mem_cons_self)
          · exact explored.blackened finished other tail

/-- `_visit` finds a closed walk, or blackens the node and leaves the path as it was. -/
theorem visit_explores (closed : Closed graph) (fuel : Nat) (node : String) (search : CycleSearch)
    (entering : Entering graph fuel node search) :
    Explores graph search [node] (visit graph fuel node search) := by
  induction fuel generalizing node search with
  | zero =>
    have enough := entering.fuel
    have bound := entering.searching.path_le
    omega
  | succ fuel ih =>
    have entered := entering.searching.enter entering.white entering.listed entering.step
    have enough : graph.length < fuel + (enter search node).path.length := by
      have enough := entering.fuel
      simp only [enter, List.length_append, List.length_singleton]
      omega
    have loop := visitDeps_explores closed ih (prerequisites graph node) (fun dep member => member)
      entered rfl enough
    rw [visit_succ]
    revert loop
    generalize (prerequisites graph node).foldl (visitDep graph fuel) (enter search node, none) =
      result
    intro loop
    obtain ⟨after, found⟩ := result
    cases found with
    | some cycle => exact ⟨loop.found, nofun, nofun, nofun, nofun⟩
    | none =>
      obtain ⟨left, path⟩ := (loop.searching rfl).leave (loop.path rfl) (loop.blackened rfl)
      have others : ∀ other, other ≠ node →
          (leave after node).colourOf other = after.colourOf other :=
        fun other different => colourOf_paint_of_ne different
      refine ⟨nofun, fun _ => left, fun _ => path, ?_, ?_⟩
      · intro _ other black
        by_cases here : other = node
        · rw [here]
          exact colourOf_paint_self
        · have untouched : (enter search node).colourOf other = search.colourOf other :=
            colourOf_paint_of_ne here
          dsimp only
          rw [others other here]
          exact loop.kept rfl other (untouched.trans black)
      · intro _ other member
        rw [List.mem_singleton.mp member]
        exact colourOf_paint_self

/-- One node in the loop of `_find_dependency_cycle`. -/
def visitRoot (graph : DependencyGraph) :
    CycleSearch × Option (List String) → String × List String →
      CycleSearch × Option (List String) :=
  fun (search, found) (node, _) =>
    match found with
    | some cycle => (search, some cycle)
    | none =>
      match search.colourOf node with
      | .white => visit graph (graph.length + 1) node search
      | _ => (search, none)

theorem visitRoots_found (entries : DependencyGraph) (cycle : List String) :
    entries.foldl (visitRoot graph) (search, some cycle) = (search, some cycle) := by
  induction entries with
  | nil => rfl
  | cons entry rest ih => exact ih

theorem visitRoots_explores (closed : Closed graph) (entries : DependencyGraph)
    (within : ∀ entry ∈ entries, entry ∈ graph) (searching : Searching graph search)
    (path : search.path = []) :
    Explores graph search (entries.map (·.1)) (entries.foldl (visitRoot graph) (search, none)) := by
  induction entries generalizing search with
  | nil =>
    exact ⟨nofun, fun _ => searching, fun _ => rfl, fun _ _ black => black, fun _ _ member =>
      absurd member List.not_mem_nil⟩
  | cons entry rest ih =>
    have later := fun other member => within other (List.mem_cons_of_mem entry member)
    have listed : entry.1 ∈ graph.map (·.1) :=
      List.mem_map_of_mem (within entry List.mem_cons_self)
    rw [List.foldl_cons, List.map_cons]
    cases colour : search.colourOf entry.1 with
    | grey =>
      have member := (searching.grey entry.1).mp colour
      rw [path] at member
      exact absurd member List.not_mem_nil
    | black =>
      have skips : visitRoot graph (search, none) entry = (search, none) := by
        simp [visitRoot, colour]
      rw [skips]
      have explored := ih later searching path
      refine ⟨explored.found, explored.searching, explored.path, explored.kept, ?_⟩
      intro finished other member
      rcases List.mem_cons.mp member with same | tail
      · rw [same]
        exact explored.kept finished _ colour
      · exact explored.blackened finished other tail
    | white =>
      have calls : visitRoot graph (search, none) entry =
          visit graph (graph.length + 1) entry.1 search := by
        simp [visitRoot, colour]
      have visited : Explores graph search [entry.1]
          (visit graph (graph.length + 1) entry.1 search) := by
        apply visit_explores closed
        refine ⟨searching, colour, listed, ?_, by omega⟩
        rw [path]
        exact nofun
      rw [calls]
      revert visited
      generalize visit graph (graph.length + 1) entry.1 search = result
      intro visited
      obtain ⟨after, found⟩ := result
      cases found with
      | some cycle =>
        rw [visitRoots_found]
        exact ⟨visited.found, nofun, nofun, nofun, nofun⟩
      | none =>
        have samePath : after.path = search.path := visited.path rfl
        have explored := ih later (visited.searching rfl) (samePath.trans path)
        refine ⟨explored.found, explored.searching, ?_, ?_, ?_⟩
        · exact fun finished => (explored.path finished).trans samePath
        · exact fun finished other black =>
            explored.kept finished other (visited.kept rfl other black)
        · intro finished other member
          rcases List.mem_cons.mp member with same | tail
          · rw [same]
            exact explored.kept finished _ (visited.blackened rfl _ List.mem_cons_self)
          · exact explored.blackened finished other tail

theorem findDependencyCycle_explores (closed : Closed graph) :
    Explores graph {} (graph.map (·.1)) (graph.foldl (visitRoot graph) ({}, none)) := by
  apply visitRoots_explores closed graph (fun _ member => member)
  · exact ⟨List.isChain_nil, List.nodup_nil, nofun, fun node => ⟨nofun, nofun⟩, nofun⟩
  · rfl

theorem findDependencyCycle_eq :
    findDependencyCycle graph = (graph.foldl (visitRoot graph) ({}, none)).2 := by
  rfl

/-- A reported cycle is a closed walk of the graph. -/
theorem closedWalk_of_cycle (closed : Closed graph) {cycle : List String}
    (found : findDependencyCycle graph = some cycle) : ClosedWalk (Needs graph) cycle :=
  (findDependencyCycle_explores closed).found cycle found

/-- No cycle is reported exactly when there is none. -/
theorem findDependencyCycle_none_iff (closed : Closed graph) :
    findDependencyCycle graph = none ↔ Acyclic (Needs graph) := by
  constructor
  · intro finished
    have explored := findDependencyCycle_explores closed
    rw [findDependencyCycle_eq] at finished
    apply acyclic_of_settled
    intro node dep needs
    have listed : node ∈ graph.map (·.1) := by
      unfold Needs prerequisites at needs
      cases entry : graph.find? (·.1 == node) with
      | none => simp [entry] at needs
      | some pair =>
        have named := List.find?_some entry
        rw [← beq_iff_eq.mp named]
        exact List.mem_map_of_mem (List.mem_of_find?_eq_some entry)
    exact (explored.searching finished).black node (explored.blackened finished node listed)
  · intro acyclic
    cases found : findDependencyCycle graph with
    | none => rfl
    | some cycle => exact absurd acyclic (closedWalk_of_cycle closed found).not_acyclic

end SherryAgent.Contracts.Taskflow
