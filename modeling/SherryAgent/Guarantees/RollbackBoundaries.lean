import Mathlib.Data.List.MinMax
import SherryAgent.Contracts.ShadowGit
import SherryAgent.Source.PubBase.ShadowGit

/-!
# The rollback boundaries

- `boundaries_kept`: after every snapshot of a run the floors of the current turns are in the retained
  chain, and the chain is no longer than the cap or the oldest of these floors demands
- `restoreToTurn_git`: pruning changes nothing of what a restore does
-/

namespace SherryAgent.Guarantees.RollbackBoundaries

open SherryAgent.Library SherryAgent.Source.PubBase SherryAgent.Contracts.ShadowGit

/-! ## The runs -/

/-- What sessions do on one root: the files change, a turn begins, a snapshot is taken, or files are
restored. -/
inductive SnapshotOp where
  | edit (worktree index : Tree)
  | newTurn (sessionId : String)
  | takeSnapshot (sessionId : String)
  | ensureCheckpoint (sessionId : String)
  | restoreCheckpoint (sessionId : String) (worktree index : Tree)
  | restoreToTurn (sessionId : String)
  | freeze (frozen : Bool)

def step (env : PruneEnv) (st : PrunedGit) : SnapshotOp → PrunedGit
  | .edit worktree index => { st with git := { st.git with worktree, index } }
  | .newTurn sessionId => st.newTurn sessionId
  | .takeSnapshot sessionId => st.takeSnapshot env sessionId
  | .ensureCheckpoint sessionId => st.ensureCheckpoint env sessionId
  | .restoreCheckpoint sessionId worktree index => st.restoreCheckpoint env sessionId worktree index
  | .restoreToTurn sessionId => st.restoreToTurn env sessionId
  | .freeze frozen => { st with git := { st.git with frozen } }

/-- The floor belongs to the current turn of its session. -/
def ActiveFloor (git : ShadowGit) (tip : Nat) : Prop :=
  ∃ sessionId floor, git.floors.lookup sessionId = some floor ∧
    floor.turn = git.currentTurn sessionId ∧ floor.tip = tip

/-- No floor is lost, and nothing is kept without a reason: past the cap the chain is no longer
than what there is from some floor to the tip, both included. -/
structure BoundaryKept (env : PruneEnv) (view : ChainView) : Prop where
  floors : ∀ floor, ActiveFloor view.git floor → floor ∈ view.chain
  length : view.chain.length ≤ env.maxSnapshots ∨
    ∃ floor, ActiveFloor view.git floor ∧ view.chain.length ≤ view.chain.idxOf floor + 1

variable {env : PruneEnv} {st : PrunedGit} {sessionId : String} {tip floor : Nat}

/-! ## The older of the candidates -/

theorem behind_add (ref : st.git.ref = some tip) (mem : floor ∈ st.history) :
    st.behind floor + floor = tip := by
  unfold PrunedGit.behind
  unfold PrunedGit.history at mem ⊢
  rw [ref] at mem ⊢
  exact length_behind mem

/-- The fold ends at a candidate that no other one is behind. -/
theorem foldl_olderStep {candidates : List Nat} (inside : ∀ c ∈ candidates, c ∈ st.history)
    (best : Option Nat × Nat) :
    best.2 ≤ (candidates.foldl st.olderStep best).2 ∧
      (∀ c ∈ candidates, st.behind c ≤ (candidates.foldl st.olderStep best).2) ∧
      (candidates.foldl st.olderStep best = best ∨
        ∃ c ∈ candidates, candidates.foldl st.olderStep best = (some c, st.behind c)) := by
  induction candidates generalizing best with
  | nil => simp
  | cons first rest ih =>
    obtain ⟨above, all, found⟩ :=
      ih (fun c mem => inside c (List.mem_cons_of_mem _ mem)) (st.olderStep best first)
    have stepped : best.2 ≤ (st.olderStep best first).2 ∧
        st.behind first ≤ (st.olderStep best first).2 ∧
        (st.olderStep best first = best ∨
          st.olderStep best first = (some first, st.behind first)) := by
      unfold PrunedGit.olderStep
      rw [if_neg (not_not.mpr (inside first List.mem_cons_self))]
      split
      · exact ⟨by omega, Nat.le_refl _, .inr rfl⟩
      · exact ⟨Nat.le_refl _, by omega, .inl rfl⟩
    rw [List.foldl_cons]
    refine ⟨by omega, ?_, ?_⟩
    · intro c mem
      cases mem with
      | head => omega
      | tail _ mem => exact all c mem
    · cases found with
      | inl same =>
        rw [same]
        cases stepped.2.2 with
        | inl kept => exact .inl kept
        | inr taken => exact .inr ⟨first, List.mem_cons_self, taken⟩
      | inr later =>
        obtain ⟨c, mem, last⟩ := later
        exact .inr ⟨c, List.mem_cons_of_mem _ mem, last⟩

/-- The default boundary or a floor behind it: nothing is older. -/
theorem olderOf_spec {boundary : Nat} {floors : List Nat} (ref : st.git.ref = some tip)
    (inside : ∀ c ∈ boundary :: floors, c ∈ st.history) (behind : ∀ c ∈ floors, c < tip) :
    ∃ oldest ∈ boundary :: floors, st.olderOf (boundary :: floors) = some oldest ∧
      ∀ c ∈ boundary :: floors, oldest ≤ c := by
  cases floors with
  | nil =>
    refine ⟨boundary, List.mem_cons_self, rfl, ?_⟩
    intro c mem
    exact Nat.le_of_eq (List.mem_singleton.mp mem).symm
  | cons second rest =>
    unfold PrunedGit.olderOf
    obtain ⟨_, all, found⟩ := foldl_olderStep inside (none, 0)
    have second_mem : second ∈ boundary :: second :: rest := by simp
    have apart := behind_add ref (inside second second_mem)
    have := behind second List.mem_cons_self
    have far := all second second_mem
    cases found with
    | inl nothing =>
      rw [nothing] at far
      dsimp only at far
      omega
    | inr some_found =>
      obtain ⟨oldest, mem, found⟩ := some_found
      dsimp only
      refine ⟨oldest, mem, by rw [found], ?_⟩
      intro c other
      have nearer := all c other
      rw [found] at nearer
      dsimp only at nearer
      have := behind_add ref (inside c other)
      have := behind_add ref (inside oldest mem)
      omega

/-! ## One prune -/

theorem mem_activeFloorTips : tip ∈ st.activeFloorTips ↔ ActiveFloor st.git tip := by
  unfold PrunedGit.activeFloorTips ActiveFloor
  rw [List.mem_map]
  constructor
  · rintro ⟨⟨holder, floor⟩, mem, same⟩
    obtain ⟨entry, current⟩ := List.mem_filter.mp mem
    exact ⟨holder, floor, AList.mem_lookup_iff.mpr entry, by simpa using current, same⟩
  · rintro ⟨holder, floor, held, current, same⟩
    refine ⟨⟨holder, floor⟩, List.mem_filter.mpr ⟨AList.mem_lookup_iff.mp held, ?_⟩, same⟩
    simpa using current

/-- A chain that ends at the default boundary or at a floor is no longer than it may be. -/
theorem boundaryKept_of_last {cuts : List Nat} {oldest : Nat}
    (shape : st.history = chainFrom cuts tip) (inside : ∀ c ∈ st.activeFloorTips, c ∈ st.history)
    (count : st.history.length + oldest = tip + 1)
    (reason : oldest + env.maxSnapshots = tip + 1 ∨ oldest ∈ st.activeFloorTips) :
    BoundaryKept env st.view := by
  refine ⟨fun c active => inside c (mem_activeFloorTips.mpr active), ?_⟩
  unfold PrunedGit.view
  dsimp only
  cases reason with
  | inl cap => exact .inl (by omega)
  | inr mem =>
    refine .inr ⟨oldest, mem_activeFloorTips.mp mem, ?_⟩
    have placed := inside oldest mem
    rw [shape] at placed count ⊢
    have := idxOf_chainFrom placed
    omega

/-- The state between the update of the ref and the prune. -/
structure Updated (st : PrunedGit) (tip : Nat) : Prop where
  ref : st.git.ref = some tip
  inside : ∀ c ∈ st.activeFloorTips, c ∈ st.history
  behind : ∀ c ∈ st.activeFloorTips, c < tip

/-- What a prune leaves. -/
structure Pruned (env : PruneEnv) (st after : PrunedGit) (tip : Nat) : Prop where
  git : after.git = st.git
  views : after.views = st.views
  grafts : ∀ c ∈ after.grafts, c ∈ st.grafts ∨ c ≤ tip
  kept : BoundaryKept env after.view

theorem Updated.pruned (updated : Updated st tip) :
    Pruned env st (st.pruneSnapshots env) tip := by
  have shape : st.history = chainFrom st.grafts tip := by
    unfold PrunedGit.history
    rw [updated.ref]
  have positive := env.positive
  unfold PrunedGit.pruneSnapshots
  split
  · rename_i few
    exact ⟨rfl, rfl, fun c mem => .inl mem,
      fun c active => updated.inside c (mem_activeFloorTips.mpr active), .inl few⟩
  · rename_i many
    have within : env.maxSnapshots - 1 < st.history.length := by omega
    rw [List.getElem?_eq_getElem within]
    dsimp only
    have found : st.history[env.maxSnapshots - 1]? = some st.history[env.maxSnapshots - 1] :=
      List.getElem?_eq_getElem within
    have placed : st.history[env.maxSnapshots - 1] ∈ st.history := List.getElem_mem within
    generalize st.history[env.maxSnapshots - 1] = boundary at found placed ⊢
    rw [shape] at found
    have cap := getElem?_chainFrom found
    have inside : ∀ c ∈ boundary :: st.activeFloorTips, c ∈ st.history := by
      intro c mem
      cases mem with
      | head => exact placed
      | tail _ mem => exact updated.inside c mem
    obtain ⟨oldest, mem, older, least⟩ := olderOf_spec updated.ref inside updated.behind
    rw [older]
    dsimp only
    have oldest_placed := inside oldest mem
    rw [shape] at oldest_placed
    have reason : oldest + env.maxSnapshots = tip + 1 ∨ oldest ∈ st.activeFloorTips := by
      cases mem with
      | head => exact .inl (by omega)
      | tail _ mem => exact .inr mem
    split
    · refine ⟨rfl, rfl, ?_, ?_⟩
      · intro c mem
        cases mem with
        | head => exact .inr (le_of_mem_chainFrom oldest_placed)
        | tail _ mem => exact .inl mem
      · have cut : ({ st with grafts := oldest :: st.grafts } : PrunedGit).history =
            chainFrom (oldest :: st.grafts) tip := by
          unfold PrunedGit.history
          rw [updated.ref]
        apply boundaryKept_of_last cut _ _ reason
        · intro c active
          rw [cut]
          have held := updated.inside c active
          rw [shape] at held
          exact mem_chainFrom_cut oldest_placed held (least c (List.mem_cons_of_mem _ active))
        · rw [cut]
          exact length_chainFrom_cut oldest_placed
    · rename_i root
      have last : oldest = 0 ∨ oldest ∈ st.grafts := by
        unfold PrunedGit.hasParent at root
        simp only [Bool.and_eq_true, bne_iff_ne, ne_eq, Bool.not_eq_true', List.contains_eq_mem,
          decide_eq_false_iff_not] at root
        by_cases first : oldest = 0
        · exact .inl first
        · exact .inr (by_contra fun fresh => root ⟨first, fresh⟩)
      refine ⟨rfl, rfl, fun c mem => .inl mem, ?_⟩
      apply boundaryKept_of_last shape updated.inside _ reason
      rw [shape]
      exact length_chainFrom_of_last oldest_placed last

/-! ## One snapshot -/

structure Inv (env : PruneEnv) (st : PrunedGit) : Prop where
  length : ∀ tip, st.git.ref = some tip → st.git.commits.length = tip + 1
  grafts : ∀ c ∈ st.grafts, c < st.git.commits.length
  turns : ∀ sessionId floor, st.git.floors.lookup sessionId = some floor →
    floor.turn ≤ st.git.currentTurn sessionId
  inside : ∀ c ∈ st.activeFloorTips, c ∈ st.history
  views : ∀ view ∈ st.views, BoundaryKept env view

/-- A floor that is recorded is of the current turn, with the tip before the snapshot. -/
theorem recordFloor_cases {st : ShadowGit} {turn : Nat} {holder : String} {found : Floor}
    (held : (st.recordFloor sessionId turn tip).floors.lookup holder = some found) :
    st.floors.lookup holder = some found ∨ holder = sessionId ∧ found = { turn, tip } := by
  unfold ShadowGit.recordFloor at held
  split at held
  · exact .inl held
  · by_cases same : holder = sessionId
    · rw [same, AList.lookup_insert] at held
      exact .inr ⟨same, (Option.some.inj held).symm⟩
    · rw [AList.lookup_insert_ne same] at held
      exact .inl held

/-- The floors behind a snapshot: those of before, and the tip before it. -/
theorem snapshot_floor {after : ShadowGit} (snapshot : Snapshot st.git after sessionId)
    {holder : String} {found : Floor} (held : after.floors.lookup holder = some found) :
    st.git.floors.lookup holder = some found ∨
      holder = sessionId ∧ ∃ parent, st.git.ref = some parent ∧
        found = { turn := st.git.currentTurn sessionId, tip := parent } := by
  rw [snapshot.floors] at held
  cases ref : st.git.ref with
  | none =>
    rw [ref] at held
    exact .inl held
  | some parent =>
    rw [ref] at held
    cases recordFloor_cases held with
    | inl before => exact .inl before
    | inr fresh => exact .inr ⟨fresh.1, parent, rfl, fresh.2⟩

theorem currentTurn_congr {before after : ShadowGit} (same : after.turnCounts = before.turnCounts)
    (sessionId : String) : after.currentTurn sessionId = before.currentTurn sessionId := by
  unfold ShadowGit.currentTurn
  rw [same]

/-- The history grows by the new tip. -/
theorem history_snapshot (inv : Inv env st) {after : ShadowGit}
    (snapshot : Snapshot st.git after sessionId) {c : Nat} (mem : c ∈ st.history) :
    c ∈ ({ st with git := after } : PrunedGit).history ∧ c < st.git.commits.length := by
  unfold PrunedGit.history at mem ⊢
  rw [snapshot.ref]
  cases ref : st.git.ref with
  | none =>
    rw [ref] at mem
    cases mem
  | some parent =>
    rw [ref] at mem
    have placed := inv.length parent ref
    have uncut : parent + 1 ∉ st.grafts := by
      intro cut
      have := inv.grafts _ cut
      omega
    have older := le_of_mem_chainFrom mem
    dsimp only
    rw [placed, chainFrom_succ uncut]
    exact ⟨List.mem_cons_of_mem _ mem, by omega⟩

theorem Inv.updated (inv : Inv env st) {after : ShadowGit}
    (snapshot : Snapshot st.git after sessionId) :
    Updated { st with git := after } st.git.commits.length := by
  have active : ∀ c ∈ ({ st with git := after } : PrunedGit).activeFloorTips, c ∈ st.history := by
    intro c mem
    obtain ⟨holder, found, held, current, same⟩ := mem_activeFloorTips.mp mem
    dsimp only at held current
    rw [currentTurn_congr snapshot.turnCounts] at current
    cases snapshot_floor snapshot held with
    | inl before =>
      exact inv.inside c (mem_activeFloorTips.mpr ⟨holder, found, before, current, same⟩)
    | inr fresh =>
      obtain ⟨_, parent, ref, shape⟩ := fresh
      rw [← same, shape]
      unfold PrunedGit.history
      rw [ref]
      exact tip_mem_chainFrom
  exact ⟨snapshot.ref, fun c mem => (history_snapshot inv snapshot (active c mem)).1,
    fun c mem => (history_snapshot inv snapshot (active c mem)).2⟩

theorem git_takeSnapshotLocked (inv : Inv env st) (sessionId : String) :
    (st.takeSnapshotLocked env sessionId).git = st.git.takeSnapshotLocked sessionId :=
  (inv.updated takeSnapshotLocked_spec).pruned.git

theorem Inv.takeSnapshotLocked (inv : Inv env st) (sessionId : String) :
    Inv env (st.takeSnapshotLocked env sessionId) := by
  have snapshot := @takeSnapshotLocked_spec st.git sessionId
  have updated := inv.updated snapshot
  have pruned := @Updated.pruned env _ _ updated
  unfold PrunedGit.takeSnapshotLocked
  dsimp only
  generalize { st with git := st.git.takeSnapshotLocked sessionId }.pruneSnapshots env = after
    at pruned ⊢
  have git : after.git = st.git.takeSnapshotLocked sessionId := pruned.git
  have count : (st.git.takeSnapshotLocked sessionId).commits.length = st.git.commits.length + 1 := by
    rw [snapshot.commits, List.length_append, List.length_singleton]
  constructor
  · dsimp only
    intro tip ref
    rw [git] at ref ⊢
    rw [snapshot.ref] at ref
    rw [count, Option.some.inj ref]
  · dsimp only
    intro c mem
    rw [git, count]
    cases pruned.grafts c mem with
    | inl before =>
      have := inv.grafts c before
      omega
    | inr recent => omega
  · dsimp only
    intro holder floor held
    rw [git] at held ⊢
    rw [currentTurn_congr snapshot.turnCounts]
    cases snapshot_floor snapshot held with
    | inl before => exact inv.turns holder floor before
    | inr fresh =>
      obtain ⟨same, parent, _, shape⟩ := fresh
      rw [same, shape]
  · exact fun c mem => pruned.kept.floors c (mem_activeFloorTips.mp mem)
  · dsimp only
    intro view mem
    rw [pruned.views] at mem
    cases List.mem_append.mp mem with
    | inl before => exact inv.views view before
    | inr fresh =>
      rw [List.mem_singleton.mp fresh]
      exact pruned.kept

/-! ## The steps -/

/-- Files, index, dedup and freezing have no part in the invariant. -/
theorem Inv.congr {git : ShadowGit} (inv : Inv env st) (commits : git.commits = st.git.commits)
    (ref : git.ref = st.git.ref) (turns : git.turnCounts = st.git.turnCounts)
    (floors : git.floors = st.git.floors) : Inv env { st with git := git } := by
  have current := currentTurn_congr turns
  have active : ({ st with git := git } : PrunedGit).activeFloorTips = st.activeFloorTips := by
    unfold PrunedGit.activeFloorTips
    dsimp only
    simp only [floors, current]
  have history : ({ st with git := git } : PrunedGit).history = st.history := by
    unfold PrunedGit.history
    dsimp only
    rw [ref]
  constructor
  · dsimp only
    rw [ref, commits]
    exact inv.length
  · dsimp only
    rw [commits]
    exact inv.grafts
  · dsimp only
    intro holder floor held
    rw [floors] at held
    rw [current]
    exact inv.turns holder floor held
  · rw [active, history]
    exact inv.inside
  · exact inv.views

/-- A new turn only makes floors stop to protect. -/
theorem Inv.newTurn (inv : Inv env st) (sessionId : String) : Inv env (st.newTurn sessionId) := by
  have floors : (st.git.newTurn sessionId).floors = st.git.floors := by
    unfold ShadowGit.newTurn
    split <;> rfl
  have later (holder : String) :
      st.git.currentTurn holder ≤ (st.git.newTurn sessionId).currentTurn holder := by
    unfold ShadowGit.newTurn
    split
    · exact Nat.le_refl _
    · unfold ShadowGit.currentTurn
      dsimp only
      by_cases same : holder = sessionId
      · rw [same, AList.lookup_insert]
        simp
      · rw [AList.lookup_insert_ne same]
  have commits : (st.git.newTurn sessionId).commits = st.git.commits := by
    unfold ShadowGit.newTurn
    split <;> rfl
  have ref : (st.git.newTurn sessionId).ref = st.git.ref := by
    unfold ShadowGit.newTurn
    split <;> rfl
  unfold PrunedGit.newTurn
  constructor
  · dsimp only
    rw [ref, commits]
    exact inv.length
  · dsimp only
    rw [commits]
    exact inv.grafts
  · dsimp only
    intro holder floor held
    rw [floors] at held
    exact Nat.le_trans (inv.turns holder floor held) (later holder)
  · intro c mem
    obtain ⟨holder, floor, held, current, same⟩ := mem_activeFloorTips.mp mem
    dsimp only at held current
    rw [floors] at held
    have recent := inv.turns holder floor held
    have stayed := later holder
    have before := inv.inside c
      (mem_activeFloorTips.mpr ⟨holder, floor, held, by omega, same⟩)
    unfold PrunedGit.history at before ⊢
    dsimp only
    rwa [ref]
  · exact inv.views

theorem Inv.takeSnapshot (inv : Inv env st) (sessionId : String) :
    Inv env (st.takeSnapshot env sessionId) := by
  unfold PrunedGit.takeSnapshot
  split
  · exact inv
  · exact inv.takeSnapshotLocked sessionId

/-- The files of a restore. -/
theorem Inv.checkout (inv : Inv env st) {git : ShadowGit} {tree : Tree}
    (checked : st.git.checkout tree = some git) :
    Inv env { st with git := (git.deleteNewFilesSince env.toShadowEnv tree).1 } := by
  unfold ShadowGit.checkout at checked
  split at checked
  · cases checked
  · rw [← Option.some.inj checked]
    exact inv.congr rfl rfl rfl rfl

theorem Inv.restoreToTurn (inv : Inv env st) (sessionId : String) :
    Inv env (st.restoreToTurn env sessionId) := by
  unfold PrunedGit.restoreToTurn
  split
  · exact inv
  · split
    · exact inv
    · unfold PrunedGit.restoreToCommitLocked
      split
      · exact inv
      · dsimp only
        have undo := inv.takeSnapshotLocked sessionId
        split
        · exact undo
        · rename_i checked
          exact (undo.checkout checked).takeSnapshotLocked sessionId

theorem Inv.step (inv : Inv env st) (op : SnapshotOp) : Inv env (step env st op) := by
  cases op with
  | edit worktree index => exact inv.congr rfl rfl rfl rfl
  | newTurn sessionId => exact inv.newTurn sessionId
  | takeSnapshot sessionId => exact inv.takeSnapshot sessionId
  | ensureCheckpoint sessionId =>
    unfold RollbackBoundaries.step PrunedGit.ensureCheckpoint
    dsimp only
    split
    · exact inv
    · split
      · exact inv
      · split
        · exact inv
        · exact (inv.takeSnapshot sessionId).congr rfl rfl rfl rfl
  | restoreCheckpoint sessionId worktree index =>
    exact (inv.takeSnapshot sessionId).congr rfl rfl rfl rfl
  | restoreToTurn sessionId => exact inv.restoreToTurn sessionId
  | freeze frozen => exact inv.congr rfl rfl rfl rfl

theorem Inv.run (inv : Inv env st) (ops : List SnapshotOp) :
    Inv env (ops.foldl (RollbackBoundaries.step env) st) := by
  induction ops generalizing st with
  | nil => exact inv
  | cons op ops ih => exact ih (inv.step op)

theorem Inv.start (worktree : Tree) : Inv env { git := { worktree } } := by
  constructor
  · intro tip ref
    cases ref
  · intro c mem
    cases mem
  · intro holder floor held
    cases held
  · intro c mem
    cases mem
  · intro view mem
    cases mem

/-- Every snapshot of every run keeps the boundaries. -/
theorem boundaries_kept (env : PruneEnv) (worktree : Tree) (ops : List SnapshotOp) :
    ∀ view ∈ (ops.foldl (step env) { git := { worktree } }).views, BoundaryKept env view :=
  ((Inv.start worktree).run ops).views

/-- Six snapshots of a turn. -/
def turnOps : List SnapshotOp :=
  List.replicate 2 (.takeSnapshot "") ++ [.newTurn "s"] ++ List.replicate 6 (.takeSnapshot "s")

def capOfThree : PruneEnv := { printed := id, maxSnapshots := 3, positive := by decide }

/-- The turn keeps its six commits and the one before them. -/
theorem boundaries_kept_turn : ∃ view ∈ (turnOps.foldl (step capOfThree) {}).views,
    view.chain = [7, 6, 5, 4, 3, 2, 1] ∧ ActiveFloor view.git 1 ∧ BoundaryKept capOfThree view :=
  have last : _ ∈ (turnOps.foldl (step capOfThree) {}).views := @List.mem_of_getElem? _ _ 7 _ rfl
  ⟨_, last, rfl, ⟨"s", { turn := 1, tip := 1 }, rfl, rfl, rfl⟩,
    boundaries_kept capOfThree ∅ turnOps _ last⟩

/-- The first snapshot of the next turn cuts the chain to the cap. -/
example : ((turnOps ++ [SnapshotOp.newTurn "s", SnapshotOp.takeSnapshot "s"]).foldl
      (step capOfThree) {}).views.map
        (fun (view : ChainView) => (view.chain.length, view.git.floorFor "s")) =
    [(1, none), (2, none), (3, some 1), (3, some 1), (4, some 1), (5, some 1), (6, some 1),
      (7, some 1), (3, some 7)] := by
  decide

/-! ## The snapshots without pruning -/

theorem restoreToCommitLocked_git (inv : Inv env st) (sessionId : String) (target : Nat) :
    (st.restoreToCommitLocked env sessionId target).git =
      (st.git.restoreToCommitLocked env.toShadowEnv sessionId target).1 := by
  have undo := inv.takeSnapshotLocked sessionId
  have same := git_takeSnapshotLocked inv sessionId
  unfold PrunedGit.restoreToCommitLocked ShadowGit.restoreToCommitLocked
  cases st.git.commits[target]? with
  | none => rfl
  | some tree =>
    dsimp only
    rw [← same]
    cases checked : (st.takeSnapshotLocked env sessionId).git.checkout tree with
    | none => rfl
    | some git => exact git_takeSnapshotLocked (undo.checkout checked) sessionId

/-- A restore does what it does without pruning. -/
theorem restoreToTurn_git (env : PruneEnv) (worktree : Tree) (ops : List SnapshotOp)
    (sessionId : String) :
    ((ops.foldl (step env) { git := { worktree } }).restoreToTurn env sessionId).git =
      ((ops.foldl (step env) { git := { worktree } }).git.restoreToTurn env.toShadowEnv
        sessionId).1 := by
  have inv := (@Inv.start env worktree).run ops
  generalize ops.foldl (step env) { git := { worktree } } = st at inv ⊢
  unfold PrunedGit.restoreToTurn ShadowGit.restoreToTurn
  cases st.git.floorFor sessionId with
  | none => rfl
  | some target =>
    dsimp only
    by_cases frozen : st.git.frozen = true
    · rw [if_pos frozen, if_pos frozen]
    · rw [if_neg frozen, if_neg frozen]
      exact restoreToCommitLocked_git inv sessionId target

end SherryAgent.Guarantees.RollbackBoundaries
