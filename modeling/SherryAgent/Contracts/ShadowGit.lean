import Mathlib.Data.List.Dedup
import SherryAgent.Source.PubBase.ShadowGit

/-!
# Rewinds of a project

* `restoreToTurn_lookup` — a restore leaves the files of the floor's tree, if that tree has any,
  git prints the new files as they are and they are not too many.
-/

namespace SherryAgent.Contracts.ShadowGit

open SherryAgent.Source SherryAgent.Source.PubBase

variable {env : ShadowEnv} {st : ShadowGit} {sessionId : String}

/-! ## Turns and snapshots -/

/-- A floor changes nothing but the floors. -/
theorem recordFloor_eq {turn tip : Nat} : st.recordFloor sessionId turn tip =
    { st with floors := (st.recordFloor sessionId turn tip).floors } := by
  unfold ShadowGit.recordFloor
  split <;> rfl

/-- A snapshot stores the files and points the ref at them; the rest is the floor. -/
structure Snapshot (st after : ShadowGit) (sessionId : String) : Prop where
  worktree : after.worktree = st.worktree
  index : after.index = st.worktree
  commits : after.commits = st.commits ++ [st.worktree]
  ref : after.ref = some st.commits.length
  frozen : after.frozen = st.frozen
  turnCounts : after.turnCounts = st.turnCounts
  floors : after.floors = match st.ref with
    | some parent => (st.recordFloor sessionId (st.currentTurn sessionId) parent).floors
    | none => st.floors

theorem takeSnapshotLocked_spec : Snapshot st (st.takeSnapshotLocked sessionId) sessionId := by
  unfold ShadowGit.takeSnapshotLocked
  cases ref : st.ref with
  | none =>
    dsimp only
    constructor <;> simp [ref]
  | some parent =>
    dsimp only
    rw [recordFloor_eq]
    constructor <;> simp only [ref]
    unfold ShadowGit.recordFloor ShadowGit.currentTurn
    dsimp only
    split <;> rfl

theorem recordFloor_lookup {turn tip : Nat} (named : sessionId ≠ "") :
    (st.recordFloor sessionId turn tip).floors.lookup sessionId =
      match st.floors.lookup sessionId with
      | some floor => if floor.turn = turn then some floor else some { turn, tip }
      | none => some { turn, tip } := by
  unfold ShadowGit.recordFloor
  cases held : st.floors.lookup sessionId with
  | none => simp [named]
  | some floor =>
    by_cases same : floor.turn = turn
    · simp [same, held]
    · simp [same, named]

/-! ## Restores -/

/-- What a restore to this tree can undo: the tree has a file unless there is nothing to undo, the
new files are few and listed under their own names, none of which is that of a file to keep. -/
structure Undoable (env : ShadowEnv) (tree worktree : Tree) : Prop where
  filled : tree.keys ≠ [] ∨ worktree.keys = []
  plain : ∀ path ∈ worktree, path ∉ tree →
    ShadowGit.listedNames env [path] = [path] ∧ path ∉ ShadowGit.listedNames env tree.keys
  few : (worktree.keys.filter (· ∉ tree)).length ≤ maxRestoreDeletions

theorem lookup_removePaths {tree : Tree} {paths : List String} {path : String} :
    (ShadowGit.removePaths tree paths).lookup path =
      if path ∈ paths then none else tree.lookup path := by
  unfold ShadowGit.removePaths
  induction paths generalizing tree with
  | nil => rfl
  | cons first rest ih =>
    rw [List.foldl_cons, ih]
    by_cases member : path ∈ rest
    · simp [member]
    · by_cases same : path = first
      · subst same
        simp
      · simp [member, same, AList.lookup_erase_ne]

theorem mem_listedNames {paths : List String} {name : String} :
    name ∈ ShadowGit.listedNames env paths ↔ ∃ path ∈ paths, name ∈ ShadowGit.listedNames env [path] := by
  unfold ShadowGit.listedNames
  simp only [List.mem_filter, List.mem_map, List.map_singleton, List.mem_singleton]
  constructor
  · rintro ⟨⟨path, member, rfl⟩, named⟩
    exact ⟨path, member, rfl, named⟩
  · rintro ⟨path, member, rfl, named⟩
    exact ⟨⟨path, member, rfl⟩, named⟩

/-- After a checkout whose index holds the files, the doomed paths are the new files. -/
theorem mem_doomedPaths {tree worktree : Tree} (undoable : Undoable env tree worktree)
    (files : st.worktree = tree ∪ worktree) (index : st.index = tree ∪ worktree) {path : String} :
    path ∈ st.doomedPaths env tree ↔ path ∈ worktree ∧ path ∉ tree := by
  have named : ∀ name, name ∈ ShadowGit.listedNames env (tree ∪ worktree).keys ∧
      name ∉ ShadowGit.listedNames env tree.keys ↔ name ∈ worktree ∧ name ∉ tree := by
    intro name
    constructor
    · rintro ⟨listed, not_kept⟩
      obtain ⟨path, member, under⟩ := mem_listedNames.mp listed
      by_cases kept : path ∈ tree
      · exact absurd (mem_listedNames.mpr ⟨path, kept, under⟩) not_kept
      · have new : path ∈ worktree := (AList.mem_union.mp member).resolve_left kept
        rw [(undoable.plain path new kept).1, List.mem_singleton] at under
        exact under ▸ ⟨new, kept⟩
    · rintro ⟨new, not_kept⟩
      obtain ⟨own, differs⟩ := undoable.plain name new not_kept
      refine ⟨mem_listedNames.mpr ⟨name, ?_, ?_⟩, differs⟩
      · exact AList.mem_union.mpr (.inr new)
      · rw [own]
        exact List.mem_singleton_self _
  have untracked : st.worktree.keys.filter (· ∉ st.index) = [] := by
    rw [files, index, List.filter_eq_nil_iff]
    intro name member
    simp [AList.mem_keys.mpr member]
  unfold ShadowGit.doomedPaths
  dsimp only
  rw [untracked, index]
  generalize found : ((ShadowGit.listedNames env (tree ∪ worktree).keys).filter
    (· ∉ ShadowGit.listedNames env tree.keys) ++ ShadowGit.listedNames env []).dedup = doomed
  have members : ∀ name, name ∈ doomed ↔ name ∈ worktree ∧ name ∉ tree := by
    intro name
    have no_names : ShadowGit.listedNames env [] = [] := rfl
    rw [← named, ← found, no_names, List.append_nil, List.mem_dedup, List.mem_filter, decide_eq_true_eq]
  have short : doomed.length ≤ maxRestoreDeletions := by
    have nodup : doomed.Nodup := found ▸ List.nodup_dedup _
    have within : doomed ⊆ worktree.keys.filter (· ∉ tree) := by
      intro name member
      simpa [← AList.mem_keys] using (members name).mp member
    exact (List.subperm_of_subset nodup within).length_le.trans undoable.few
  rw [List.take_of_length_le (by rwa [List.length_insertionSort]), List.mem_insertionSort]
  exact members path

/-- A deletion pass after the checkout leaves the tree. -/
theorem deleteNewFilesSince_lookup {tree worktree : Tree} (undoable : Undoable env tree worktree)
    (files : st.worktree = tree ∪ worktree) (index : st.index = tree ∪ worktree) {path : String} :
    (st.deleteNewFilesSince env tree).1.worktree.lookup path = tree.lookup path := by
  unfold ShadowGit.deleteNewFilesSince
  dsimp only
  rw [lookup_removePaths, files]
  simp only [List.mem_filter, mem_doomedPaths undoable files index, decide_eq_true_eq, AList.mem_union]
  by_cases kept : path ∈ tree
  · rw [if_neg (by simp [kept]), AList.lookup_union_left kept]
  · rw [AList.lookup_eq_none.mpr kept]
    by_cases new : path ∈ worktree
    · rw [if_pos (by simp [kept, new])]
    · rw [if_neg (by simp [new]), AList.lookup_union_right kept, AList.lookup_eq_none.mpr new]

/-- The tree at the tip of the chain. -/
def tip (st : ShadowGit) : Option Tree := st.ref.bind (st.commits[·]?)

theorem Snapshot.tip {after : ShadowGit} (snapshot : Snapshot st after sessionId) :
    tip after = some st.worktree := by
  rw [ShadowGit.tip, snapshot.ref, snapshot.commits]
  simp

/-- A snapshot within a turn that has a floor leaves the floors. -/
theorem Snapshot.floors_of_floor {after : ShadowGit} (snapshot : Snapshot st after sessionId)
    {target : Nat} (floor : st.floorFor sessionId = some target) : after.floors = st.floors := by
  rw [snapshot.floors]
  cases st.ref with
  | none => rfl
  | some parent =>
    dsimp only
    unfold ShadowGit.floorFor at floor
    unfold ShadowGit.recordFloor
    cases held : st.floors.lookup sessionId with
    | none =>
      rw [held] at floor
      cases floor
    | some entry =>
      rw [held] at floor
      dsimp only at floor
      split at floor
      · rename_i current
        rw [if_pos (by simp [beq_iff_eq.mp current])]
      · cases floor

/-- What a restore does to the chain and the records: it adds snapshots, the last at the tip, and
leaves turns and floors. -/
structure Restore (st after : ShadowGit) : Prop where
  commits : ∃ trees, after.commits = st.commits ++ trees ∧
    tip after = (trees.getLast?).or (tip st)
  frozen : after.frozen = st.frozen
  turnCounts : after.turnCounts = st.turnCounts
  floors : after.floors = st.floors

theorem Restore.refl : Restore st st := ⟨⟨[], by simp, rfl⟩, rfl, rfl, rfl⟩

theorem restoreToCommitLocked_spec {target : Nat} (floor : st.floorFor sessionId = some target) :
    Restore st (st.restoreToCommitLocked env sessionId target).1 := by
  unfold ShadowGit.restoreToCommitLocked
  cases st.commits[target]? with
  | none => exact .refl
  | some tree =>
    dsimp only
    have before := @takeSnapshotLocked_spec st sessionId
    generalize st.takeSnapshotLocked sessionId = saved at before
    have floors := before.floors_of_floor floor
    unfold ShadowGit.checkout
    split
    · rename_i refused
      exact ⟨⟨[st.worktree], before.commits, before.tip⟩, before.frozen, before.turnCounts, floors⟩
    · rename_i restored checked_out
      split at checked_out
      · cases checked_out
      · obtain rfl := Option.some.inj checked_out
        dsimp only [ShadowGit.deleteNewFilesSince]
        generalize cleaned : ShadowGit.mk _ _ saved.commits saved.ref saved.frozen saved.dedup
          saved.turnCounts saved.floors = files
        have later := @takeSnapshotLocked_spec files sessionId
        have same_floor : files.floorFor sessionId = some target := by
          rw [← cleaned, ← floor]
          unfold ShadowGit.floorFor ShadowGit.currentTurn
          rw [floors, before.turnCounts]
        refine ⟨⟨[st.worktree, files.worktree], ?_, ?_⟩, ?_, ?_, ?_⟩
        · rw [later.commits, ← cleaned]
          dsimp only
          rw [before.commits, List.append_assoc]
          rfl
        · exact later.tip
        · rw [later.frozen, ← cleaned]
          exact before.frozen
        · rw [later.turnCounts, ← cleaned]
          exact before.turnCounts
        · rw [later.floors_of_floor same_floor, ← cleaned]
          exact floors

theorem restoreToTurn_spec : Restore st (st.restoreToTurn env sessionId).1 := by
  unfold ShadowGit.restoreToTurn
  cases floor : st.floorFor sessionId with
  | none => exact .refl
  | some target =>
    dsimp only
    split
    · exact .refl
    · exact restoreToCommitLocked_spec floor

/-- A restore that can undo what is new leaves the files of the floor's tree. -/
theorem restoreToTurn_lookup {target : Nat} {tree : Tree} (thawed : st.frozen = false)
    (floor : st.floorFor sessionId = some target) (stored : st.commits[target]? = some tree)
    (undoable : Undoable env tree st.worktree) (path : String) :
    (st.restoreToTurn env sessionId).1.worktree.lookup path = tree.lookup path := by
  unfold ShadowGit.restoreToTurn
  rw [floor]
  dsimp only
  rw [thawed, if_neg Bool.false_ne_true, ShadowGit.restoreToCommitLocked, stored]
  dsimp only
  have before := @takeSnapshotLocked_spec st sessionId
  generalize st.takeSnapshotLocked sessionId = saved at before
  by_cases empty : tree.keys = []
  · have nothing : st.worktree.keys = [] := undoable.filled.resolve_left (not_not_intro empty)
    have refused : saved.checkout tree = none := by simp [ShadowGit.checkout, empty]
    rw [refused]
    dsimp only
    have no_file : ∀ files : Tree, files.keys = [] → files.lookup path = none := by
      intro files none_left
      rw [AList.lookup_eq_none, AList.mem_keys, none_left]
      exact List.not_mem_nil
    rw [before.worktree, no_file _ nothing, no_file _ empty]
  · have taken : saved.checkout tree =
        some { saved with worktree := tree ∪ saved.worktree, index := tree ∪ saved.index } := by
      simp [ShadowGit.checkout, empty]
    rw [taken]
    dsimp only
    rw [takeSnapshotLocked_spec.worktree]
    apply deleteNewFilesSince_lookup undoable
    · rw [before.worktree]
    · rw [before.index]

end SherryAgent.Contracts.ShadowGit
