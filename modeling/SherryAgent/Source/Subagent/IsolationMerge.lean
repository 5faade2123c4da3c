import Mathlib.Data.Char
import Mathlib.Data.List.Dedup
import Mathlib.Data.List.Lex
import SherryAgent.Source.PubBase.Files

/-!
# The merge of an isolated workspace

`agent/tools/subagent/isolation/merge.py` and `scan_manifest` of `tree.py`. A tree is the list of its
files and links by their relative paths; a directory is there as soon as something is below it. A
path of the parent is looked up through the links to directories on its way, and nothing fails but
what the trees make fail.
-/

namespace SherryAgent.Source.Subagent

open SherryAgent.Source.PubBase

/-- A relative path, as its characters. -/
abbrev RelPath := List Char

/-- `upper` names a directory on the way to `lower`. -/
def isAbove (upper lower : RelPath) : Bool :=
  (upper ++ ['/']).isPrefixOf lower

/-- A path of a tree that is no directory. A link knows the directory it leads to, if there is one,
by the path that has no link on its way. -/
inductive Node where
  | file (mtime : Nat) (data : Bytes) (mode : Nat)
  | link (target : String) (directory : Option RelPath)
  | special (mtime size : Nat)

/-- `mtime:...:size:...`, or `SYMLINK_PREFIX` with the target. -/
inductive CopyRevision where
  | stamp (mtime size : Nat)
  | symlink (target : String)
  deriving DecidableEq

def Node.revision : Node → CopyRevision
  | .file mtime data _ => .stamp mtime data.length
  | .link target _ => .symlink target
  | .special mtime size => .stamp mtime size

/-! ## The manifest -/

/-- `IGNORED_DIR_NAMES`. -/
def ignoredDirNames : List RelPath :=
  [".git", ".hg", ".svn", "node_modules", ".venv", "venv", "__pycache__", ".mypy_cache",
    ".pytest_cache", ".ruff_cache", ".tox", ".cache", "dist", "build", ".next", ".nuxt",
    "target"].map String.toList

/-- `_VCS_FILE_NAMES`. -/
def vcsFileNames : List RelPath := [".git".toList]

/-- The walk comes to the path: no ignored directory is on the way, and its name is not skipped. -/
def isScanned (path : RelPath) : Bool :=
  let names := path.splitOn '/'
  !names.dropLast.any ignoredDirNames.contains && !vcsFileNames.contains (names.getLastD [])

/-- What the manifest holds of a node: `os.walk` lists a link to a directory among the directories. -/
def listedRevision : Node → Option CopyRevision
  | .file mtime data mode => some (Node.file mtime data mode).revision
  | .link target none => some (.symlink target)
  | .link _ (some _) => none
  | .special _ _ => none

def scanEntry (entry : RelPath × Node) : Option (RelPath × CopyRevision) :=
  if isScanned entry.1 then (listedRevision entry.2).map (entry.1, ·) else none

/-- `scan_manifest`. -/
def scanManifest (tree : List (RelPath × Node)) : List (RelPath × CopyRevision) :=
  tree.filterMap scanEntry

/-! ## Lookups and writes -/

def entryAt {α : Type} (entries : List (RelPath × α)) (path : RelPath) : Option α :=
  (entries.find? fun entry => entry.1 == path).map (·.2)

def eraseAt {α : Type} (entries : List (RelPath × α)) (path : RelPath) : List (RelPath × α) :=
  entries.filter fun entry => entry.1 != path

def putAt {α : Type} (entries : List (RelPath × α)) (path : RelPath) (value : α) :
    List (RelPath × α) :=
  (path, value) :: eraseAt entries path

def isDirectory (tree : List (RelPath × Node)) (path : RelPath) : Bool :=
  tree.any fun entry => isAbove path entry.1

/-- The directory that a link leads to. -/
def leadsTo : Node → Option RelPath
  | .link _ directory => directory
  | _ => none

/-- What a directory's path is extended by; the root has the empty path. -/
def inDirectory (directory : RelPath) : RelPath :=
  if directory.isEmpty then [] else directory ++ ['/']

/-- The rest of a lookup, from the path without links come to so far. -/
def resolveFrom (tree : List (RelPath × Node)) : RelPath → List Char → RelPath
  | seen, [] => seen
  | seen, c :: rest =>
    if c = '/' then
      match (entryAt tree seen).bind leadsTo with
      | some directory => resolveFrom tree (inDirectory directory) rest
      | none => resolveFrom tree (seen ++ ['/']) rest
    else resolveFrom tree (seen ++ [c]) rest

/-- The place a path names: links to directories on the way are followed, the last part is not. -/
def resolve (tree : List (RelPath × Node)) (path : RelPath) : RelPath := resolveFrom tree [] path

/-- No directory is on the way: a lookup behind a file fails. -/
def blocks (node : Node) : Bool := (leadsTo node).isNone

def isBlocked (tree : List (RelPath × Node)) (path : RelPath) : Bool :=
  tree.any fun entry => isAbove entry.1 path && blocks entry.2

def isLink : Node → Bool
  | .link _ _ => true
  | _ => false

/-! ## The merge -/

inductive ConflictReason where
  | deletedAndChanged
  | alreadyExists
  | changedInParent
  | notWritable
  deriving DecidableEq

/-- What the merge does with one path. -/
inductive Outcome where
  | unchanged
  | skipped
  | deleted
  | created
  | applied
  | conflict (reason : ConflictReason)
  deriving DecidableEq

/-- The branch for a path that the copy has no more. A directory's stamp is not that of a file; were
it, `os.unlink` would fail. -/
def mergeDeleted (parent : List (RelPath × Node)) (target : RelPath)
    (snapshotRev : Option CopyRevision) : Outcome :=
  match snapshotRev with
  | none => .unchanged
  | some snapshotRev =>
    if isBlocked parent target then .conflict .notWritable
    else if (entryAt parent target).map Node.revision = some snapshotRev then .deleted
    else .conflict .deletedAndChanged

/-- The branches for a file of the copy: new there, or modified. -/
def mergeWritten (parent : List (RelPath × Node)) (target : RelPath)
    (snapshotRev : Option CopyRevision) : Outcome :=
  match snapshotRev with
  | none =>
    if isBlocked parent target then .conflict .notWritable
    else if (entryAt parent target).isSome || isDirectory parent target then
      .conflict .alreadyExists
    else .created
  | some snapshotRev =>
    if (entryAt parent target).any isLink then .conflict .notWritable
    else if isBlocked parent target then .conflict .changedInParent
    else if (entryAt parent target).map Node.revision = some snapshotRev then .applied
    else .conflict .changedInParent

/-- `_merge_one`, for the place of the parent that the path names. -/
def mergeOne (parent child : List (RelPath × Node)) (snapshot : List (RelPath × CopyRevision))
    (relpath target : RelPath) : Outcome :=
  let snapshotRev := entryAt snapshot relpath
  match entryAt (scanManifest child) relpath with
  | none => mergeDeleted parent target snapshotRev
  | some currentRev =>
    if some currentRev = snapshotRev then .unchanged
    else
      match currentRev with
      | .symlink _ => .skipped
      | .stamp _ _ => mergeWritten parent target snapshotRev

/-- The parent after the outcome: `_apply_bytes` writes the copy's bytes and mode, `os.unlink` removes
the file. -/
def applyOutcome (now : Nat) (child parent : List (RelPath × Node)) (relpath target : RelPath) :
    Outcome → List (RelPath × Node)
  | .deleted => eraseAt parent target
  | .created | .applied =>
    match entryAt child relpath with
    | some (.file _ data mode) => putAt parent target (.file now data mode)
    | _ => parent
  | _ => parent

structure MergeRun where
  parent : List (RelPath × Node)
  report : List (RelPath × Outcome) := []

/-- One path merged at a place of the parent. -/
def mergeAt (now : Nat) (child : List (RelPath × Node)) (snapshot : List (RelPath × CopyRevision))
    (run : MergeRun) (relpath target : RelPath) : MergeRun :=
  let outcome := mergeOne run.parent child snapshot relpath target
  { parent := applyOutcome now child run.parent relpath target outcome
    report := run.report ++ [(relpath, outcome)] }

def mergeStep (now : Nat) (child : List (RelPath × Node))
    (snapshot : List (RelPath × CopyRevision)) (run : MergeRun) (relpath : RelPath) : MergeRun :=
  mergeAt now child snapshot run relpath (resolve run.parent relpath)

/-- `sorted(set(snapshot) | set(current))`. -/
def mergedPaths (child : List (RelPath × Node)) (snapshot : List (RelPath × CopyRevision)) :
    List RelPath :=
  ((snapshot.map (·.1) ++ (scanManifest child).map (·.1)).dedup).mergeSort fun a b =>
    decide (a ≤ b)

/-- `merge_isolated_workspace`. -/
def mergeIsolatedWorkspace (now : Nat) (snapshot : List (RelPath × CopyRevision))
    (child parent : List (RelPath × Node)) : MergeRun :=
  (mergedPaths child snapshot).foldl (mergeStep now child snapshot) { parent := parent }

def isConflict : Outcome → Bool
  | .conflict _ => true
  | _ => false

/-- `is_clean`: the tree is discarded. -/
def MergeRun.isClean (run : MergeRun) : Bool :=
  !run.report.any fun entry => isConflict entry.2

end SherryAgent.Source.Subagent
