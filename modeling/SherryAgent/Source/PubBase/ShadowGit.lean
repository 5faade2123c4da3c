import Mathlib.Data.List.AList
import Mathlib.Data.List.Sort
import SherryAgent.Library.CutChain
import SherryAgent.Source.PubBase.Files
import SherryAgent.Source.PyText

/-!
# Shadow snapshots

`agent/tools/pub_base/shadow_git.py` for one project root in one process: the root's files, its
index and its chain of snapshots, and the process's turns and floors. A commit is known by its
place among the stored trees. The graft of `_prune_snapshots` shortens the history behind the tip,
which no restore reads, and drops no commit; `_prune_snapshots` and `_older_of` are apart, over a
linear chain of commits that a graft cuts behind a commit.
-/

namespace SherryAgent.Source.PubBase

open SherryAgent.Library

/-- The content of each path. -/
abbrev Tree := AList fun _ : String => Bytes

/-- An entry of `_floors`. -/
structure Floor where
  turn : Nat
  tip : Nat

/-- The configuration, and a path as `ls-files` and `ls-tree` print it. -/
structure ShadowEnv where
  enabled : Bool := true
  printed : String → String

structure ShadowGit where
  worktree : Tree := ∅
  index : Tree := ∅
  commits : List Tree := []
  ref : Option Nat := none
  frozen : Bool := false
  /-- The sessions that have a snapshot in their current turn. -/
  dedup : List String := []
  turnCounts : AList fun _ : String => Nat := ∅
  floors : AList fun _ : String => Floor := ∅

/-- `_MAX_RESTORE_DELETIONS`. -/
def maxRestoreDeletions : Nat := 500

namespace ShadowGit

/-! ## Turns and floors -/

/-- `_current_turn`. -/
def currentTurn (st : ShadowGit) (sessionId : String) : Nat := (st.turnCounts.lookup sessionId).getD 0

/-- `new_turn`. -/
def newTurn (st : ShadowGit) (sessionId : String) : ShadowGit :=
  if sessionId == "" then st
  else { st with
    turnCounts := st.turnCounts.insert sessionId (st.currentTurn sessionId + 1)
    dedup := st.dedup.filter (· != sessionId) }

/-- `_record_floor`. -/
def recordFloor (st : ShadowGit) (sessionId : String) (turn tip : Nat) : ShadowGit :=
  if sessionId == "" || (st.floors.lookup sessionId).any (·.turn == turn) then st
  else { st with floors := st.floors.insert sessionId { turn, tip } }

/-- `floor_for`. -/
def floorFor (st : ShadowGit) (sessionId : String) : Option Nat :=
  match st.floors.lookup sessionId with
  | some floor => if floor.turn == st.currentTurn sessionId then some floor.tip else none
  | none => none

/-! ## Snapshots -/

/-- `_take_snapshot_locked`: `add -A`, `write-tree`, `commit-tree` and `update-ref`. -/
def takeSnapshotLocked (st : ShadowGit) (sessionId : String) : ShadowGit :=
  let st := { st with index := st.worktree }
  let st := match st.ref with
    | some parent => st.recordFloor sessionId (st.currentTurn sessionId) parent
    | none => st
  { st with commits := st.commits ++ [st.index], ref := some st.commits.length }

/-- `take_snapshot`. -/
def takeSnapshot (st : ShadowGit) (sessionId : String) : ShadowGit :=
  if st.frozen then st else st.takeSnapshotLocked sessionId

/-- `ensure_checkpoint`. -/
def ensureCheckpoint (env : ShadowEnv) (st : ShadowGit) (sessionId : String) : ShadowGit :=
  if !env.enabled || sessionId == "" then st
  else if st.frozen then st
  else if st.dedup.contains sessionId then st
  else
    let st := st.takeSnapshot sessionId
    { st with dedup := sessionId :: st.dedup }

/-! ## Restores -/

/-- The set of the lines that a listing prints, each without blanks around it. -/
def listedNames (env : ShadowEnv) (paths : List String) : List String :=
  (paths.map fun path => PyText.strip (env.printed path)).filter (· != "")

/-- `git checkout <commit> -- .` by the commit's tree; no file matches in one that is empty. -/
def checkout (st : ShadowGit) (tree : Tree) : Option ShadowGit :=
  if tree.keys.isEmpty then none
  else some { st with worktree := tree ∪ st.worktree, index := tree ∪ st.index }

/-- The tree without these paths. -/
def removePaths (tree : Tree) (paths : List String) : Tree :=
  paths.foldl (fun tree path => tree.erase path) tree

/-- The paths that `_delete_new_files_since` looks for. -/
def doomedPaths (env : ShadowEnv) (st : ShadowGit) (tree : Tree) : List String :=
  let keep := listedNames env tree.keys
  let indexed := listedNames env st.index.keys
  let untracked := listedNames env (st.worktree.keys.filter (· ∉ st.index))
  ((indexed.filter (· ∉ keep) ++ untracked).dedup.insertionSort (· ≤ ·)).take maxRestoreDeletions

/-- `_delete_new_files_since`: what is left, and the paths that were removed. -/
def deleteNewFilesSince (env : ShadowEnv) (st : ShadowGit) (tree : Tree) : ShadowGit × List String :=
  let removed := (st.doomedPaths env tree).filter (· ∈ st.worktree)
  ({ st with worktree := removePaths st.worktree removed, index := removePaths st.index removed },
    removed)

/-- The answer of `restore_to_turn`. -/
inductive RestoreResult where
  | restored (commit : Nat) (removed : List String)
  | notRestored (reason : String)

/-- `_restore_to_commit_locked`. -/
def restoreToCommitLocked (env : ShadowEnv) (st : ShadowGit) (sessionId : String) (target : Nat) :
    ShadowGit × RestoreResult :=
  match st.commits[target]? with
  | none => (st, .notRestored "no_checkpoint")
  | some tree =>
    let st := st.takeSnapshotLocked sessionId
    match st.checkout tree with
    | none => (st, .notRestored "failed")
    | some st =>
      let (st, removed) := st.deleteNewFilesSince env tree
      (st.takeSnapshotLocked sessionId, .restored target removed)

/-- `restore_to_turn`. -/
def restoreToTurn (env : ShadowEnv) (st : ShadowGit) (sessionId : String) :
    ShadowGit × RestoreResult :=
  match st.floorFor sessionId with
  | none => (st, .notRestored "no_checkpoint")
  | some target =>
    if st.frozen then (st, .notRestored "frozen")
    else st.restoreToCommitLocked env sessionId target

end ShadowGit

/-! ## Pruning -/

/-- `max_snapshots`. -/
structure PruneEnv extends ShadowEnv where
  maxSnapshots : Nat
  positive : 0 < maxSnapshots

/-- `rev-list` at a moment, and the turns and floors of that moment. -/
structure ChainView where
  chain : List Nat
  git : ShadowGit

structure PrunedGit where
  git : ShadowGit := {}
  grafts : List Nat := []
  /-- What each snapshot left, the first one first. -/
  views : List ChainView := []

namespace PrunedGit

/-- `git rev-list <ref>`. -/
def history (st : PrunedGit) : List Nat :=
  match st.git.ref with
  | none => []
  | some tip => chainFrom st.grafts tip

/-- `_active_floor_tips`. -/
def activeFloorTips (st : PrunedGit) : List Nat :=
  (st.git.floors.entries.filter fun floor => floor.2.turn == st.git.currentTurn floor.1).map
    fun floor => floor.2.tip

def view (st : PrunedGit) : ChainView := { chain := st.history, git := st.git }

/-- `git rev-list --count <candidate>..<ref>`. -/
def behind (st : PrunedGit) (candidate : Nat) : Nat :=
  (st.history.filter (· ∉ chainFrom st.grafts candidate)).length

/-- One candidate of `_older_of`: the best so far and its distance. -/
def olderStep (st : PrunedGit) (best : Option Nat × Nat) (candidate : Nat) : Option Nat × Nat :=
  if candidate ∉ st.history then best
  else if best.2 < st.behind candidate then (some candidate, st.behind candidate)
  else best

/-- `_older_of`. -/
def olderOf (st : PrunedGit) (candidates : List Nat) : Option Nat :=
  match candidates with
  | [] => none
  | [candidate] => some candidate
  | first :: second :: rest => ((first :: second :: rest).foldl st.olderStep (none, 0)).1

/-- `git rev-parse --verify <commit>^`. -/
def hasParent (st : PrunedGit) (commit : Nat) : Bool := commit != 0 && !st.grafts.contains commit

/-- `_prune_snapshots`. -/
def pruneSnapshots (env : PruneEnv) (st : PrunedGit) : PrunedGit :=
  if st.history.length ≤ env.maxSnapshots then st
  else
    match st.history[env.maxSnapshots - 1]? with
    | none => st
    | some boundary =>
      match st.olderOf (boundary :: st.activeFloorTips) with
      | none => st
      | some boundary =>
        if st.hasParent boundary then { st with grafts := boundary :: st.grafts } else st

/-- `_take_snapshot_locked`, with the prune behind it. -/
def takeSnapshotLocked (env : PruneEnv) (st : PrunedGit) (sessionId : String) : PrunedGit :=
  let st := { st with git := st.git.takeSnapshotLocked sessionId }.pruneSnapshots env
  { st with views := st.views ++ [st.view] }

/-- `take_snapshot`. -/
def takeSnapshot (env : PruneEnv) (st : PrunedGit) (sessionId : String) : PrunedGit :=
  if st.git.frozen then st else st.takeSnapshotLocked env sessionId

/-- `ensure_checkpoint`. -/
def ensureCheckpoint (env : PruneEnv) (st : PrunedGit) (sessionId : String) : PrunedGit :=
  if !env.enabled || sessionId == "" then st
  else if st.git.frozen then st
  else if st.git.dedup.contains sessionId then st
  else
    let st := st.takeSnapshot env sessionId
    { st with git := { st.git with dedup := sessionId :: st.git.dedup } }

/-- `restore_checkpoint`, with the files and the index that its checkout leaves. -/
def restoreCheckpoint (env : PruneEnv) (st : PrunedGit) (sessionId : String)
    (worktree index : Tree) : PrunedGit :=
  let st := st.takeSnapshot env sessionId
  { st with git := { st.git with worktree, index } }

/-- `_restore_to_commit_locked`. -/
def restoreToCommitLocked (env : PruneEnv) (st : PrunedGit) (sessionId : String) (target : Nat) :
    PrunedGit :=
  match st.git.commits[target]? with
  | none => st
  | some tree =>
    let st := st.takeSnapshotLocked env sessionId
    match st.git.checkout tree with
    | none => st
    | some git =>
      { st with git := (git.deleteNewFilesSince env.toShadowEnv tree).1 }.takeSnapshotLocked env
        sessionId

/-- `restore_to_turn`. -/
def restoreToTurn (env : PruneEnv) (st : PrunedGit) (sessionId : String) : PrunedGit :=
  match st.git.floorFor sessionId with
  | none => st
  | some target =>
    if st.git.frozen then st else st.restoreToCommitLocked env sessionId target

/-- `new_turn`. -/
def newTurn (st : PrunedGit) (sessionId : String) : PrunedGit :=
  { st with git := st.git.newTurn sessionId }

end PrunedGit

end SherryAgent.Source.PubBase
