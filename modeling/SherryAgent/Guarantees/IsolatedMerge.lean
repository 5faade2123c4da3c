import Mathlib.Data.List.Nodup
import SherryAgent.Source.Subagent.IsolationMerge

/-!
# The merge of an isolated workspace

- `safe_merge_iff`: the merge is safe for every parent without a link to a directory above a changed
  path exactly when the copy holds no link and no special file where it differs from the snapshot
- `changed_link_lost`: a link that the child made is discarded with the tree of a clean merge
- `merged_through_link`: behind a link of the parent the merge removes another file
-/

namespace SherryAgent.Guarantees.IsolatedMerge

open SherryAgent.Source.PubBase SherryAgent.Source.Subagent

/-- One path is below the other. -/
def Below (lower upper : RelPath) : Prop := isAbove upper lower = true

/-- A tree: one node for a path, and only directories above a node. -/
structure Tree where
  entries : List (RelPath × Node)
  distinct : (entries.map (·.1)).Nodup
  apart : ∀ upper ∈ entries, ∀ lower ∈ entries, ¬Below lower.1 upper.1

/-- A manifest: one revision for a path that the scan comes to, and only directories above a path. -/
structure Manifest where
  revisions : List (RelPath × CopyRevision)
  distinct : (revisions.map (·.1)).Nodup
  apart : ∀ upper ∈ revisions, ∀ lower ∈ revisions, ¬Below lower.1 upper.1
  scanned : ∀ entry ∈ revisions, isScanned entry.1 = true

/-- What a path holds, apart from times and modes. -/
inductive NodeContent where
  | bytes (data : Bytes)
  | target (target : String)
  | special

def content : Node → NodeContent
  | .file _ data _ => .bytes data
  | .link target _ => .target target
  | .special _ _ => .special

/-- The copy differs from the snapshot at the path. -/
def Differs (snapshot : List (RelPath × CopyRevision)) (child : List (RelPath × Node))
    (path : RelPath) : Prop :=
  isScanned path = true ∧ (entryAt child path).map Node.revision ≠ entryAt snapshot path

/-- What a merge promises. -/
structure Promises (result : MergeRun) (snapshot : List (RelPath × CopyRevision))
    (child parent : List (RelPath × Node)) : Prop where
  kept : ∀ path, (entryAt parent path).map Node.revision ≠ entryAt snapshot path →
    entryAt result.parent path = entryAt parent path
  deleted : ∀ path, (entryAt parent path).isSome = true → entryAt result.parent path = none →
    entryAt child path = none
  complete : result.isClean = true → ∀ path, Differs snapshot child path →
    (entryAt result.parent path).map content = (entryAt child path).map content

def Safe (now : Nat) (snapshot : List (RelPath × CopyRevision))
    (child parent : List (RelPath × Node)) : Prop :=
  Promises (mergeIsolatedWorkspace now snapshot child parent) snapshot child parent

/-- The parent has no link to a directory above a path that the child has changed. -/
def Unlinked (snapshot : List (RelPath × CopyRevision)) (child parent : List (RelPath × Node)) :
    Prop :=
  ∀ path, entryAt (scanManifest child) path ≠ entryAt snapshot path →
    ∀ entry ∈ parent, Below path entry.1 → leadsTo entry.2 = none

variable {now : Nat} {snapshot : List (RelPath × CopyRevision)}
  {child parent : List (RelPath × Node)} {path other : RelPath} {node : Node}

def isFile : Node → Bool
  | .file _ _ _ => true
  | _ => false

/-- The merge has a conflict whatever the parent holds: a new file where the snapshot has a directory,
or a file in place of a link. -/
inductive NeverClean (snapshot : List (RelPath × CopyRevision)) (child : List (RelPath × Node)) :
    Prop where
  | overDirectory {upper lower : RelPath} {node : Node} (scanned : isScanned upper = true)
      (present : entryAt child upper = some node) (file : isFile node = true)
      (new : entryAt snapshot upper = none) (recorded : (entryAt snapshot lower).isSome = true)
      (below : Below lower upper)
  | overLink {path : RelPath} {node : Node} {target : String} (scanned : isScanned path = true)
      (present : entryAt child path = some node) (file : isFile node = true)
      (recorded : entryAt snapshot path = some (.symlink target))

/-- The copy lets the merge be safe: a recorded path holds nothing that the scan passes over, and where
the copy differs it holds a file or nothing, unless the merge can never be clean. -/
structure Mergeable (snapshot : List (RelPath × CopyRevision)) (child : List (RelPath × Node)) :
    Prop where
  listed : ∀ path node, (entryAt snapshot path).isSome = true → entryAt child path = some node →
    (listedRevision node).isSome = true
  plain : NeverClean snapshot child ∨ ∀ path node, Differs snapshot child path →
    entryAt child path = some node → isFile node = true

/-! ## Lookups -/

section Lookups

variable {α : Type} {entries : List (RelPath × α)} {value : α}

theorem entryAt_eq_none : entryAt entries path = none ↔ ∀ entry ∈ entries, entry.1 ≠ path := by
  simp [entryAt]

theorem mem_of_entryAt (found : entryAt entries path = some value) : (path, value) ∈ entries := by
  obtain ⟨entry, listed, rfl⟩ := Option.map_eq_some_iff.mp found
  have named := List.find?_some listed
  obtain rfl : entry.1 = path := eq_of_beq named
  exact List.mem_of_find?_eq_some listed

theorem entryAt_of_mem (distinct : (entries.map (·.1)).Nodup) (member : (path, value) ∈ entries) :
    entryAt entries path = some value := by
  cases found : entryAt entries path with
  | none => exact absurd rfl (entryAt_eq_none.mp found _ member)
  | some value' =>
    have same := List.inj_on_of_nodup_map distinct (mem_of_entryAt found) member rfl
    rw [(Prod.mk.inj same).2]

theorem entryAt_eraseAt (other : RelPath) :
    entryAt (eraseAt entries path) other = if other = path then none else entryAt entries other := by
  unfold entryAt eraseAt
  rw [List.find?_filter]
  split
  · rename_i same
    subst same
    simp
  · rename_i different
    congr 2
    funext entry
    by_cases here : entry.1 = other
    · simp [here, different]
    · simp [here]

theorem entryAt_putAt (other : RelPath) :
    entryAt (putAt entries path value) other =
      if other = path then some value else entryAt entries other := by
  have rest := @entryAt_eraseAt path α entries other
  split
  · rename_i same
    subst same
    simp [entryAt, putAt]
  · rename_i different
    rw [if_neg different] at rest
    rw [← rest]
    have apart : (path == other) = false := beq_eq_false_iff_ne.mpr fun same => different same.symm
    simp only [entryAt, putAt, List.find?_cons, apart]

end Lookups

/-! ## The manifest of a tree -/

theorem entryAt_eq_some {α : Type} {entries : List (RelPath × α)} {value : α}
    (distinct : (entries.map (·.1)).Nodup) :
    entryAt entries path = some value ↔ (path, value) ∈ entries :=
  ⟨mem_of_entryAt, entryAt_of_mem distinct⟩

theorem scanEntry_eq_some {entry : RelPath × Node} {listed : RelPath × CopyRevision} :
    scanEntry entry = some listed ↔ isScanned entry.1 = true ∧ listed.1 = entry.1 ∧
      listedRevision entry.2 = some listed.2 := by
  obtain ⟨path, revision⟩ := listed
  unfold scanEntry
  split
  · rename_i scanned
    simp only [scanned, true_and, Option.map_eq_some_iff, Prod.mk.injEq]
    constructor
    · rintro ⟨_, found, same, rfl⟩
      exact ⟨same.symm, found⟩
    · rintro ⟨same, found⟩
      exact ⟨revision, found, same.symm, rfl⟩
  · rename_i skipped
    simp [skipped]

theorem mem_scanManifest {revision : CopyRevision} :
    (path, revision) ∈ scanManifest child ↔
      isScanned path = true ∧ ∃ node, (path, node) ∈ child ∧ listedRevision node = some revision := by
  unfold scanManifest
  simp only [List.mem_filterMap, scanEntry_eq_some]
  constructor
  · rintro ⟨⟨path', node⟩, member, scanned, rfl, listed⟩
    exact ⟨scanned, node, member, listed⟩
  · rintro ⟨scanned, node, member, listed⟩
    exact ⟨(path, node), member, scanned, rfl, listed⟩

theorem scanManifest_sublist (entries : List (RelPath × Node)) :
    ((scanManifest entries).map (·.1)).Sublist (entries.map (·.1)) := by
  induction entries with
  | nil => exact List.Sublist.slnil
  | cons entry rest ih =>
    unfold scanManifest at ih ⊢
    cases made : scanEntry entry with
    | none =>
      rw [List.filterMap_cons_none made, List.map_cons]
      exact ih.cons _
    | some listed =>
      rw [List.filterMap_cons_some made, List.map_cons, List.map_cons,
        (scanEntry_eq_some.mp made).2.1]
      exact ih.cons_cons _

theorem entryAt_scanManifest (tree : Tree) (path : RelPath) :
    entryAt (scanManifest tree.entries) path =
      if isScanned path then (entryAt tree.entries path).bind listedRevision else none := by
  have distinct := (scanManifest_sublist tree.entries).nodup tree.distinct
  ext revision
  rw [entryAt_eq_some distinct, mem_scanManifest]
  split
  · rename_i scanned
    simp only [scanned, true_and, Option.bind_eq_some_iff]
    apply exists_congr
    intro node
    rw [entryAt_eq_some tree.distinct]
  · rename_i skipped
    simp [skipped]

/-! ## The order of the paths -/

theorem mem_mergedPaths : path ∈ mergedPaths child snapshot ↔
    (entryAt snapshot path).isSome = true ∨ (entryAt (scanManifest child) path).isSome = true := by
  have named : ∀ {α : Type} (entries : List (RelPath × α)),
      path ∈ entries.map (·.1) ↔ (entryAt entries path).isSome = true := by
    intro α entries
    rw [← Option.ne_none_iff_isSome, ne_eq, entryAt_eq_none, List.mem_map]
    simp
  unfold mergedPaths
  rw [List.mem_mergeSort, List.mem_dedup, List.mem_append, named, named]

theorem mergedPaths_nodup : (mergedPaths child snapshot).Nodup :=
  (List.mergeSort_perm _ _).nodup_iff.mpr (List.nodup_dedup _)

theorem mergedPaths_sorted : (mergedPaths child snapshot).Pairwise (· ≤ ·) := by
  have transitive : ∀ a b c : RelPath, decide (a ≤ b) = true → decide (b ≤ c) = true →
      decide (a ≤ c) = true := by
    intro a b c
    simpa using le_trans
  have total : ∀ a b : RelPath, (decide (a ≤ b) || decide (b ≤ a)) = true := by
    intro a b
    simpa using le_total a b
  have sorted := List.pairwise_mergeSort transitive total
    (snapshot.map (·.1) ++ (scanManifest child).map (·.1)).dedup
  simpa [mergedPaths] using sorted

/-- A directory comes before what is below it. -/
theorem mem_before {upper lower : RelPath} {before after : List RelPath} (below : Below lower upper)
    (split_here : mergedPaths child snapshot = before ++ lower :: after)
    (member : upper ∈ mergedPaths child snapshot) : upper ∈ before := by
  have extends_upper : upper ++ ['/'] <+: lower := List.isPrefixOf_iff_prefix.mp below
  have prefix_of : upper <+: lower := (List.prefix_append upper ['/']).trans extends_upper
  have longer : upper.length < lower.length := by
    have sized := extends_upper.length_le
    rw [List.length_append, List.length_singleton] at sized
    omega
  have sorted := @mergedPaths_sorted snapshot child
  rw [split_here] at sorted member
  obtain inside | inside := List.mem_append.mp member
  · exact inside
  · cases inside with
    | head => exact absurd longer (lt_irrefl _)
    | tail _ later =>
      have order := (List.pairwise_cons.mp (List.pairwise_append.mp sorted).2.1).1 upper later
      have ordered : upper ≤ lower := not_lt.mp fun less => prefix_of.le less
      have same : lower = upper := le_antisymm order ordered
      rw [same] at longer
      exact absurd longer (lt_irrefl _)

/-! ## One path -/

/-- An outcome that writes finds the parent at the snapshot. -/
theorem revision_of_writes {outcome : Outcome}
    (made : mergeOne parent child snapshot path path = outcome)
    (writes : outcome = .deleted ∨ outcome = .created ∨ outcome = .applied) :
    (entryAt parent path).map Node.revision = entryAt snapshot path := by
  have deletes : ∀ recorded, mergeDeleted parent path recorded = outcome →
      (entryAt parent path).map Node.revision = recorded := by
    intro recorded made
    unfold mergeDeleted at made
    split at made
    · subst made
      simp at writes
    · split at made
      · subst made
        simp at writes
      · split at made
        · assumption
        · subst made
          simp at writes
  have written : ∀ recorded, mergeWritten parent path recorded = outcome →
      (entryAt parent path).map Node.revision = recorded := by
    intro recorded made
    unfold mergeWritten at made
    split at made
    · split at made
      · subst made
        simp at writes
      · split at made
        · subst made
          simp at writes
        · rename_i empty
          have absent : entryAt parent path = none := by
            simp only [Bool.or_eq_true, not_or] at empty
            simpa using empty.1
          rw [absent]
          rfl
    · split at made
      · subst made
        simp at writes
      · split at made
        · subst made
          simp at writes
        · split at made
          · assumption
          · subst made
            simp at writes
  unfold mergeOne at made
  dsimp only at made
  split at made
  · exact deletes _ made
  · split at made
    · subst made
      simp at writes
    · split at made
      · subst made
        simp at writes
      · exact written _ made

theorem applyOutcome_other {outcome : Outcome} (different : other ≠ path) :
    entryAt (applyOutcome now child parent path path outcome) other = entryAt parent other := by
  unfold applyOutcome
  split
  · rw [entryAt_eraseAt, if_neg different]
  all_goals first
    | rfl
    | split
      · rw [entryAt_putAt, if_neg different]
      · rfl

/-- Without a writing outcome the parent stays as it is. -/
theorem applyOutcome_same {outcome : Outcome}
    (reads : ¬(outcome = .deleted ∨ outcome = .created ∨ outcome = .applied)) :
    applyOutcome now child parent path path outcome = parent := by
  cases outcome with
  | deleted => simp at reads
  | created => simp at reads
  | applied => simp at reads
  | _ => rfl

/-! ## The run -/

/-- A path merged at its own place. -/
def plainStep (now : Nat) (child : List (RelPath × Node))
    (snapshot : List (RelPath × CopyRevision)) (run : MergeRun) (relpath : RelPath) : MergeRun :=
  mergeAt now child snapshot run relpath relpath

/-- The merge that takes every path at its own place. -/
def plainMerge (now : Nat) (snapshot : List (RelPath × CopyRevision))
    (child parent : List (RelPath × Node)) : MergeRun :=
  (mergedPaths child snapshot).foldl (plainStep now child snapshot) { parent := parent }

/-- The run up to a path. -/
def upTo (now : Nat) (snapshot : List (RelPath × CopyRevision)) (child parent : List (RelPath × Node))
    (before : List RelPath) : MergeRun :=
  before.foldl (plainStep now child snapshot) { parent := parent }

theorem foldl_plainStep_other (paths : List RelPath) (run : MergeRun) (absent : path ∉ paths) :
    entryAt (paths.foldl (plainStep now child snapshot) run).parent path =
      entryAt run.parent path := by
  induction paths generalizing run with
  | nil => rfl
  | cons first rest ih =>
    rw [List.mem_cons, not_or] at absent
    rw [List.foldl_cons, ih _ absent.2]
    exact applyOutcome_other absent.1

theorem foldl_plainStep_clean (paths : List RelPath) (run : MergeRun) :
    (paths.foldl (plainStep now child snapshot) run).isClean = true ↔
      run.isClean = true ∧ ∀ before path after, paths = before ++ path :: after →
        isConflict (mergeOne (before.foldl (plainStep now child snapshot) run).parent child snapshot
          path path) = false := by
  induction paths generalizing run with
  | nil => simp
  | cons first rest ih =>
    have head : (plainStep now child snapshot run first).isClean = true ↔
        run.isClean = true ∧
          isConflict (mergeOne run.parent child snapshot first first) = false := by
      simp [plainStep, mergeAt, MergeRun.isClean, List.any_append]
    rw [List.foldl_cons, ih, head, and_assoc]
    apply and_congr_right
    intro _
    constructor
    · rintro ⟨here, later⟩ before path after split_here
      cases before with
      | nil =>
        obtain ⟨rfl, -⟩ := List.cons.inj split_here
        exact here
      | cons first' before =>
        obtain ⟨rfl, split_rest⟩ := List.cons.inj split_here
        exact later before path after split_rest
    · intro every
      exact ⟨every [] first rest rfl, fun before path after split_here =>
        every (first :: before) path after (by rw [split_here, List.cons_append])⟩

/-- The merge of one path: what it finds there, what it does, and what it leaves. -/
structure Merged (now : Nat) (snapshot : List (RelPath × CopyRevision))
    (child parent : List (RelPath × Node)) (before : List RelPath) (path : RelPath) : Prop where
  found : entryAt (upTo now snapshot child parent before).parent path = entryAt parent path
  left : entryAt (plainMerge now snapshot child parent).parent path =
    entryAt (applyOutcome now child (upTo now snapshot child parent before).parent path path
      (mergeOne (upTo now snapshot child parent before).parent child snapshot path path)) path
  clean : (plainMerge now snapshot child parent).isClean = true →
    isConflict (mergeOne (upTo now snapshot child parent before).parent child snapshot path path) =
      false

theorem merged_of_split {before after : List RelPath}
    (split_here : mergedPaths child snapshot = before ++ path :: after) :
    Merged now snapshot child parent before path := by
  have distinct := @mergedPaths_nodup snapshot child
  rw [split_here, List.nodup_append, List.nodup_cons] at distinct
  constructor
  · apply foldl_plainStep_other
    exact fun member => distinct.2.2 path member path List.mem_cons_self rfl
  · unfold plainMerge
    rw [split_here, List.foldl_append, List.foldl_cons,
      foldl_plainStep_other after _ distinct.2.1.1]
    rfl
  · intro clean
    exact ((foldl_plainStep_clean _ _).mp clean).2 before path after split_here

theorem exists_merged (member : path ∈ mergedPaths child snapshot) :
    ∃ before after, mergedPaths child snapshot = before ++ path :: after ∧
      Merged now snapshot child parent before path := by
  obtain ⟨before, after, split_here⟩ := List.append_of_mem member
  exact ⟨before, after, split_here, merged_of_split split_here⟩

theorem left_of_not_mem (absent : path ∉ mergedPaths child snapshot) :
    entryAt (plainMerge now snapshot child parent).parent path = entryAt parent path :=
  foldl_plainStep_other _ _ absent

/-! ## What holds of every merge -/

/-- A path whose parent copy is not that of the snapshot stays as it is. -/
theorem kept_of_moved (moved : (entryAt parent path).map Node.revision ≠ entryAt snapshot path) :
    entryAt (plainMerge now snapshot child parent).parent path = entryAt parent path := by
  by_cases member : path ∈ mergedPaths child snapshot
  · obtain ⟨before, after, -, merged⟩ := @exists_merged now snapshot child parent path member
    rw [merged.left, applyOutcome_same, merged.found]
    intro writes
    have same := revision_of_writes rfl writes
    rw [merged.found] at same
    exact moved same
  · exact left_of_not_mem member

theorem deleted_outcome
    (made : mergeOne parent child snapshot path path = .deleted) :
    entryAt (scanManifest child) path = none ∧ (entryAt snapshot path).isSome = true := by
  unfold mergeOne at made
  dsimp only at made
  split at made
  · rename_i gone
    refine ⟨gone, ?_⟩
    unfold mergeDeleted at made
    split at made
    · cases made
    · rename_i recorded found
      rw [found]
      rfl
  · split at made
    · cases made
    · split at made
      · cases made
      · unfold mergeWritten at made
        split at made
        · split at made
          · cases made
          · split at made <;> cases made
        · split at made
          · cases made
          · split at made
            · cases made
            · split at made <;> cases made

/-- A path disappears from the parent only if the scan does not come to it in the copy. -/
theorem deleted_of_gone (present : (entryAt parent path).isSome = true)
    (gone : entryAt (plainMerge now snapshot child parent).parent path = none) :
    entryAt (scanManifest child) path = none ∧ (entryAt snapshot path).isSome = true := by
  by_cases member : path ∈ mergedPaths child snapshot
  · obtain ⟨before, after, -, merged⟩ := @exists_merged now snapshot child parent path member
    rw [merged.left] at gone
    rw [← merged.found] at present
    cases made :
      mergeOne (upTo now snapshot child parent before).parent child snapshot path path with
    | deleted => exact deleted_outcome made
    | created =>
      rw [made, applyOutcome] at gone
      split at gone
      · rw [entryAt_putAt, if_pos rfl] at gone
        cases gone
      · rw [gone] at present
        cases present
    | applied =>
      rw [made, applyOutcome] at gone
      split at gone
      · rw [entryAt_putAt, if_pos rfl] at gone
        cases gone
      · rw [gone] at present
        cases present
    | unchanged | skipped | conflict =>
      rw [made, applyOutcome_same (by simp)] at gone
      rw [gone] at present
      cases present
  · rw [left_of_not_mem member] at gone
    rw [gone] at present
    cases present

/-! ## What holds when the copy fits -/

section Fits

variable {tree : Tree} {manifest : Manifest}

theorem scan_of_file {mtime mode : Nat} {data : Bytes} (scanned : isScanned path = true)
    (present : entryAt tree.entries path = some (.file mtime data mode)) :
    entryAt (scanManifest tree.entries) path = some (.stamp mtime data.length) := by
  rw [entryAt_scanManifest, if_pos scanned, present]
  rfl

theorem file_of_scan {mtime size : Nat}
    (listed : entryAt (scanManifest tree.entries) path = some (.stamp mtime size)) :
    isScanned path = true ∧ ∃ data mode,
      entryAt tree.entries path = some (.file mtime data mode) ∧ data.length = size := by
  rw [entryAt_scanManifest] at listed
  split at listed
  · rename_i scanned
    obtain ⟨node, there, found⟩ := Option.bind_eq_some_iff.mp listed
    cases node with
    | file mtime' data mode =>
      cases found
      exact ⟨scanned, data, mode, there, rfl⟩
    | link target directory => cases directory <;> cases found
    | special mtime' size' => cases found
  · cases listed

theorem isScanned_of_recorded (recorded : (entryAt manifest.revisions path).isSome = true) :
    isScanned path = true := by
  obtain ⟨revision, found⟩ := Option.isSome_iff_exists.mp recorded
  exact manifest.scanned _ (mem_of_entryAt found)

/-- A written path holds the copy's bytes. -/
theorem content_of_written {mtime mode : Nat} {data : Bytes} {outcome : Outcome}
    (present : entryAt child path = some (.file mtime data mode))
    (writes : outcome = .created ∨ outcome = .applied) :
    (entryAt (applyOutcome now child parent path path outcome) path).map content =
      some (.bytes data) := by
  have put : entryAt (applyOutcome now child parent path path outcome) path =
      some (.file now data mode) := by
    rcases writes with rfl | rfl
    · rw [applyOutcome, present]
      dsimp only
      rw [entryAt_putAt, if_pos rfl]
    · rw [applyOutcome, present]
      dsimp only
      rw [entryAt_putAt, if_pos rfl]
  rw [put]
  rfl

theorem mergeWritten_cases (recorded : Option CopyRevision) :
    mergeWritten parent path recorded = .created ∨ mergeWritten parent path recorded = .applied ∨
      isConflict (mergeWritten parent path recorded) = true := by
  unfold mergeWritten
  split
  · split
    · exact .inr (.inr rfl)
    · split
      · exact .inr (.inr rfl)
      · exact .inl rfl
  · split
    · exact .inr (.inr rfl)
    · split
      · exact .inr (.inr rfl)
      · split
        · exact .inr (.inl rfl)
        · exact .inr (.inr rfl)

theorem mergeDeleted_cases (revision : CopyRevision) :
    mergeDeleted parent path (some revision) = .deleted ∨
      isConflict (mergeDeleted parent path (some revision)) = true := by
  unfold mergeDeleted
  dsimp only
  split
  · exact .inr rfl
  · split
    · exact .inl rfl
    · exact .inr rfl

/-- A path that the child has not changed is left alone, wherever it leads. -/
theorem mergeOne_of_same {target : RelPath}
    (same : entryAt (scanManifest child) path = entryAt snapshot path) :
    mergeOne parent child snapshot path target = .unchanged := by
  unfold mergeOne
  dsimp only
  rw [← same]
  cases found : entryAt (scanManifest child) path with
  | none => rfl
  | some revision => exact if_pos rfl

theorem mergeOne_of_link {target : String} {place : RelPath}
    (listed : entryAt (scanManifest child) path = some (.symlink target))
    (different : entryAt (scanManifest child) path ≠ entryAt snapshot path) :
    mergeOne parent child snapshot path place = .skipped := by
  unfold mergeOne
  rw [listed] at different ⊢
  exact if_neg different

theorem mergeOne_of_file {mtime mode : Nat} {data : Bytes} (scanned : isScanned path = true)
    (present : entryAt tree.entries path = some (.file mtime data mode))
    (different : some (.stamp mtime data.length) ≠ entryAt manifest.revisions path) :
    mergeOne parent tree.entries manifest.revisions path path =
      mergeWritten parent path (entryAt manifest.revisions path) := by
  unfold mergeOne
  rw [scan_of_file scanned present]
  dsimp only
  rw [if_neg different]

theorem mergeOne_of_gone {revision : CopyRevision}
    (gone : entryAt (scanManifest tree.entries) path = none)
    (recorded : entryAt manifest.revisions path = some revision) :
    mergeOne parent tree.entries manifest.revisions path path =
      mergeDeleted parent path (some revision) := by
  unfold mergeOne
  rw [gone, recorded]

/-- A clean merge brings the parent to a file of the copy, or to nothing. -/
theorem complete_of_plain (clean : (plainMerge now manifest.revisions tree.entries
      parent).isClean = true) (differs : Differs manifest.revisions tree.entries path)
    (plain : ∀ node, entryAt tree.entries path = some node → isFile node = true) :
    (entryAt (plainMerge now manifest.revisions tree.entries parent).parent path).map
        content = (entryAt tree.entries path).map content := by
  obtain ⟨scanned, different⟩ := differs
  cases present : entryAt tree.entries path with
  | none =>
    rw [present] at different
    obtain ⟨revision, recorded⟩ := Option.ne_none_iff_exists'.mp (Ne.symm different)
    have gone : entryAt (scanManifest tree.entries) path = none := by
      rw [entryAt_scanManifest, if_pos scanned, present]
      rfl
    have member : path ∈ mergedPaths tree.entries manifest.revisions :=
      mem_mergedPaths.mpr (.inl (by rw [recorded]; rfl))
    obtain ⟨before, after, -, merged⟩ :=
      @exists_merged now manifest.revisions tree.entries parent path member
    have calm := merged.clean clean
    rw [mergeOne_of_gone gone recorded] at calm
    obtain deleted | conflict := @mergeDeleted_cases
      (upTo now manifest.revisions tree.entries parent before).parent path revision
    · rw [merged.left, mergeOne_of_gone gone recorded, deleted, applyOutcome, entryAt_eraseAt,
        if_pos rfl]
    · rw [conflict] at calm
      cases calm
  | some node =>
    cases node with
    | file mtime data mode =>
      have listed := scan_of_file scanned present
      have member : path ∈ mergedPaths tree.entries manifest.revisions :=
        mem_mergedPaths.mpr (.inr (by rw [listed]; rfl))
      obtain ⟨before, after, -, merged⟩ :=
        @exists_merged now manifest.revisions tree.entries parent path member
      rw [present] at different
      have calm := merged.clean clean
      have outcome : mergeOne (upTo now manifest.revisions tree.entries parent before).parent
          tree.entries manifest.revisions path path = _ :=
        mergeOne_of_file scanned present different
      rw [outcome] at calm
      rw [merged.left, outcome, Option.map_some]
      obtain created | applied | conflict := @mergeWritten_cases
        (upTo now manifest.revisions tree.entries parent before).parent path
        (entryAt manifest.revisions path)
      · exact content_of_written present (.inl created)
      · exact content_of_written present (.inr applied)
      · rw [conflict] at calm
        cases calm
    | link target directory => cases plain _ present
    | special mtime size => cases plain _ present

theorem exists_of_isFile (file : isFile node = true) :
    ∃ mtime data mode, node = .file mtime data mode := by
  cases node with
  | file mtime data mode => exact ⟨mtime, data, mode, rfl⟩
  | link target directory => cases file
  | special mtime size => cases file

/-- Nothing of a tree is below a node. -/
theorem absent_below {lower : RelPath} (present : entryAt tree.entries path = some node)
    (below : Below lower path) : entryAt tree.entries lower = none := by
  rw [entryAt_eq_none]
  rintro entry member rfl
  exact tree.apart _ (mem_of_entryAt present) entry member below

theorem isDirectory_of_entryAt {lower : RelPath} (present : entryAt parent lower = some node)
    (below : Below lower path) : isDirectory parent path = true :=
  List.any_eq_true.mpr ⟨_, mem_of_entryAt present, below⟩

/-- A path below another one is not merged before it. -/
theorem not_before_upper {upper lower : RelPath} {before after : List RelPath}
    (split_here : mergedPaths child snapshot = before ++ upper :: after)
    (below : Below lower upper) : lower ∉ before := by
  intro early
  obtain ⟨front, back, rfl⟩ := List.append_of_mem early
  have nodup := @mergedPaths_nodup snapshot child
  have earlier : mergedPaths child snapshot = front ++ lower :: (back ++ upper :: after) := by
    rw [split_here]
    simp
  have upper_member : upper ∈ mergedPaths child snapshot := by
    rw [split_here]
    simp
  have again := mem_before below earlier upper_member
  rw [split_here, List.nodup_append] at nodup
  exact nodup.2.2 upper (by simp [again]) upper List.mem_cons_self rfl

/-- In a clean merge a path that the child has deleted is in the parent, as the snapshot has it. -/
theorem there_of_clean {revision : CopyRevision}
    (clean : (plainMerge now manifest.revisions tree.entries parent).isClean = true)
    (gone : entryAt (scanManifest tree.entries) path = none)
    (recorded : entryAt manifest.revisions path = some revision) :
    (entryAt parent path).map Node.revision = some revision := by
  have member : path ∈ mergedPaths tree.entries manifest.revisions :=
    mem_mergedPaths.mpr (.inl (by rw [recorded]; rfl))
  obtain ⟨before, after, -, merged⟩ :=
    @exists_merged now manifest.revisions tree.entries parent path member
  have calm := merged.clean clean
  rw [mergeOne_of_gone gone recorded] at calm
  obtain deleted | conflict := @mergeDeleted_cases
    (upTo now manifest.revisions tree.entries parent before).parent path revision
  · have same := @revision_of_writes manifest.revisions tree.entries
      (upTo now manifest.revisions tree.entries parent before).parent path .deleted
      (by rw [mergeOne_of_gone gone recorded, deleted]) (.inl rfl)
    rwa [merged.found, recorded] at same
  · rw [conflict] at calm
    cases calm

/-- A new file over a directory of the snapshot is a conflict. -/
theorem not_clean_of_directory {upper lower : RelPath} (scanned : isScanned upper = true)
    (present : entryAt tree.entries upper = some node) (file : isFile node = true)
    (new : entryAt manifest.revisions upper = none)
    (recorded : (entryAt manifest.revisions lower).isSome = true) (below : Below lower upper) :
    (plainMerge now manifest.revisions tree.entries parent).isClean = false := by
  rw [← Bool.not_eq_true]
  intro clean
  obtain ⟨mtime, data, mode, rfl⟩ := exists_of_isFile file
  obtain ⟨revision, recorded⟩ := Option.isSome_iff_exists.mp recorded
  have gone : entryAt (scanManifest tree.entries) lower = none := by
    rw [entryAt_scanManifest, absent_below present below]
    simp
  -- The lower path is deleted only if the parent still has it, also when the upper one is met.
  obtain ⟨lowerNode, at_lower, -⟩ :=
    Option.map_eq_some_iff.mp (there_of_clean clean gone recorded)
  have member : upper ∈ mergedPaths tree.entries manifest.revisions :=
    mem_mergedPaths.mpr (.inr (by rw [scan_of_file scanned present]; rfl))
  obtain ⟨before, after, split_here, merged⟩ :=
    @exists_merged now manifest.revisions tree.entries parent upper member
  have calm := merged.clean clean
  rw [mergeOne_of_file scanned present (by rw [new]; simp), new] at calm
  have still : entryAt (upTo now manifest.revisions tree.entries parent before).parent lower =
      some lowerNode :=
    (foldl_plainStep_other before _ (not_before_upper split_here below)).trans at_lower
  unfold mergeWritten at calm
  dsimp only at calm
  rw [isDirectory_of_entryAt still below, Bool.or_true, if_pos rfl] at calm
  split at calm <;> cases calm

/-- A file in place of a link is a conflict. -/
theorem not_clean_of_link {target : String} (scanned : isScanned path = true)
    (present : entryAt tree.entries path = some node) (file : isFile node = true)
    (recorded : entryAt manifest.revisions path = some (.symlink target)) :
    (plainMerge now manifest.revisions tree.entries parent).isClean = false := by
  rw [← Bool.not_eq_true]
  intro clean
  obtain ⟨mtime, data, mode, rfl⟩ := exists_of_isFile file
  have member : path ∈ mergedPaths tree.entries manifest.revisions :=
    mem_mergedPaths.mpr (.inr (by rw [scan_of_file scanned present]; rfl))
  obtain ⟨before, after, -, merged⟩ :=
    @exists_merged now manifest.revisions tree.entries parent path member
  have calm := merged.clean clean
  rw [mergeOne_of_file scanned present (by rw [recorded]; simp), recorded] at calm
  unfold mergeWritten at calm
  dsimp only at calm
  split at calm
  · cases calm
  · rename_i no_link
    split at calm
    · cases calm
    · split at calm
      · rename_i same
        obtain ⟨found, there, linked⟩ := Option.map_eq_some_iff.mp same
        cases found with
        | link target directory =>
          rw [there] at no_link
          exact no_link rfl
        | file mtime data mode => cases linked
        | special mtime size => cases linked
      · cases calm

theorem not_clean_of_neverClean (never : NeverClean manifest.revisions tree.entries) :
    (plainMerge now manifest.revisions tree.entries parent).isClean = false := by
  cases never with
  | overDirectory scanned present file new recorded below =>
    exact not_clean_of_directory scanned present file new recorded below
  | overLink scanned present file recorded =>
    exact not_clean_of_link scanned present file recorded

/-- A merge at its own place keeps the promises. -/
theorem promises_of_mergeable (mergeable : Mergeable manifest.revisions tree.entries)
    (parent : List (RelPath × Node)) (now : Nat) :
    Promises (plainMerge now manifest.revisions tree.entries parent) manifest.revisions
      tree.entries parent where
  kept := fun _ moved => kept_of_moved moved
  deleted := by
    intro path present gone
    obtain ⟨unlisted, recorded⟩ := deleted_of_gone present gone
    rw [entryAt_scanManifest, if_pos (isScanned_of_recorded recorded)] at unlisted
    by_contra there
    obtain ⟨node, there⟩ := Option.ne_none_iff_exists'.mp there
    rw [there, Option.bind_some] at unlisted
    have listed := mergeable.listed path node recorded there
    rw [unlisted] at listed
    cases listed
  complete := by
    intro clean path differs
    obtain never | plain := mergeable.plain
    · rw [not_clean_of_neverClean never] at clean
      cases clean
    · exact complete_of_plain clean differs fun node there => plain path node differs there

/-! ## Parents that show a loss -/

/-- A node with the revision. -/
def realize : CopyRevision → Node
  | .stamp mtime size => .file mtime (List.replicate size 0) 420
  | .symlink target => .link target none

@[simp] theorem revision_realize (revision : CopyRevision) :
    (realize revision).revision = revision := by
  cases revision <;> simp [realize, Node.revision]

/-- The parent that is still at the snapshot. -/
def unmoved (revisions : List (RelPath × CopyRevision)) : List (RelPath × Node) :=
  revisions.map fun entry => (entry.1, realize entry.2)

theorem leadsTo_realize (revision : CopyRevision) : leadsTo (realize revision) = none := by
  cases revision <;> rfl

/-- A tree without links to directories. -/
def Plain (entries : List (RelPath × Node)) : Prop := ∀ entry ∈ entries, leadsTo entry.2 = none

theorem plain_unmoved (revisions : List (RelPath × CopyRevision)) : Plain (unmoved revisions) := by
  intro entry member
  obtain ⟨listed, -, rfl⟩ := List.mem_map.mp member
  exact leadsTo_realize listed.2

theorem entryAt_unmoved (revisions : List (RelPath × CopyRevision)) :
    entryAt (unmoved revisions) path = (entryAt revisions path).map realize := by
  unfold entryAt unmoved
  rw [List.find?_map, Option.map_map, Option.map_map]
  rfl

theorem scanned_of_written {outcome : Outcome}
    (made : mergeOne parent child snapshot path path = outcome)
    (writes : outcome = .created ∨ outcome = .applied) :
    (entryAt (scanManifest child) path).isSome = true := by
  unfold mergeOne at made
  dsimp only at made
  split at made
  · unfold mergeDeleted at made
    split at made
    · subst made
      simp at writes
    · split at made
      · subst made
        simp at writes
      · split at made
        · subst made
          simp at writes
        · subst made
          simp at writes
  · rename_i revision found
    rw [found]
    rfl

/-- What is in the parent was there before, or is a file of the copy. -/
theorem origin (paths : List RelPath) (run : MergeRun) {entry : RelPath × Node}
    (member : entry ∈
      (paths.foldl (plainStep now tree.entries manifest.revisions) run).parent) :
    entry ∈ run.parent ∨
      isScanned entry.1 = true ∧
        ∃ node, entryAt tree.entries entry.1 = some node ∧ isFile node = true := by
  induction paths generalizing run with
  | nil => exact .inl member
  | cons first rest ih =>
    obtain early | own := ih _ member
    · dsimp only [plainStep, mergeAt] at early
      cases made : mergeOne run.parent tree.entries manifest.revisions first first with
      | deleted =>
        rw [made, applyOutcome, eraseAt] at early
        exact .inl (List.mem_of_mem_filter early)
      | unchanged | skipped | conflict =>
        rw [made, applyOutcome_same (by simp)] at early
        exact .inl early
      | created | applied =>
        have listed := scanned_of_written made (by simp)
        have scanned : isScanned first = true := by
          rw [entryAt_scanManifest] at listed
          split at listed
          · assumption
          · cases listed
        rw [made, applyOutcome] at early
        split at early
        · rename_i mtime data mode present
          rw [putAt, List.mem_cons] at early
          obtain rfl | kept := early
          · exact .inr ⟨scanned, _, present, rfl⟩
          · exact .inl (List.mem_of_mem_filter kept)
        · exact .inl early
    · exact .inr own

theorem not_below_self : ¬Below path path := by
  intro below
  have sized := (List.isPrefixOf_iff_prefix.mp below).length_le
  rw [List.length_append, List.length_singleton] at sized
  omega

theorem isBlocked_eq_false {entries : List (RelPath × Node)}
    (clear : ∀ entry ∈ entries, ¬Below path entry.1) : isBlocked entries path = false := by
  unfold isBlocked
  rw [List.any_eq_false]
  intro entry member
  rw [Bool.and_eq_true]
  exact fun blocked => clear entry member blocked.1

theorem mergeDeleted_deleted {revision : CopyRevision} (clear : isBlocked parent path = false)
    (there : entryAt parent path = some (realize revision)) :
    mergeDeleted parent path (some revision) = .deleted := by
  unfold mergeDeleted
  dsimp only
  rw [clear, if_neg Bool.false_ne_true, there, Option.map_some, revision_realize, if_pos rfl]

/-- A recorded path with a node that the scan passes over is deleted from a parent that has only
that path. -/
theorem listed_of_safe
    (safe : ∀ parent, Plain parent →
      Promises (plainMerge now manifest.revisions tree.entries parent)
        manifest.revisions tree.entries parent)
    (recorded : (entryAt manifest.revisions path).isSome = true)
    (there : entryAt tree.entries path = some node) : (listedRevision node).isSome = true := by
  by_contra unlisted
  have none_listed : listedRevision node = none := by simpa using unlisted
  obtain ⟨revision, recorded⟩ := Option.isSome_iff_exists.mp recorded
  have gone : entryAt (scanManifest tree.entries) path = none := by
    rw [entryAt_scanManifest, there, Option.bind_some, none_listed, ite_self]
  have member : path ∈ mergedPaths tree.entries manifest.revisions :=
    mem_mergedPaths.mpr (.inl (by rw [recorded]; rfl))
  obtain ⟨before, after, -, merged⟩ :=
    @exists_merged now manifest.revisions tree.entries [(path, realize revision)] path member
  have own : entryAt [(path, realize revision)] path = some (realize revision) := by
    simp [entryAt]
  have clear : isBlocked (upTo now manifest.revisions tree.entries [(path, realize revision)]
      before).parent path = false := by
    apply isBlocked_eq_false
    intro entry inside below
    obtain first | ⟨-, node', file, -⟩ := origin before _ inside
    · rw [List.mem_singleton.mp first] at below
      exact not_below_self below
    · rw [absent_below file below] at there
      cases there
  have outcome := mergeDeleted_deleted clear (merged.found.trans own)
  have plain : Plain [(path, realize revision)] := by
    intro entry inside
    rw [List.mem_singleton.mp inside]
    exact leadsTo_realize revision
  have lost := (safe _ plain).deleted path (by rw [own]; rfl) (by
    rw [merged.left, mergeOne_of_gone gone recorded, outcome, applyOutcome, entryAt_eraseAt,
      if_pos rfl])
  rw [there] at lost
  cases lost

section Unmoved

variable (tidy : ¬NeverClean manifest.revisions tree.entries)
include tidy

/-- Nothing of the unmoved parent or of the copy is above a recorded path. -/
theorem clear_of_recorded {revision : CopyRevision} (before : List RelPath)
    (recorded : entryAt manifest.revisions path = some revision) :
    isBlocked (upTo now manifest.revisions tree.entries (unmoved manifest.revisions)
      before).parent path = false := by
  apply isBlocked_eq_false
  intro entry inside below
  have apart : ∀ recordedAbove ∈ manifest.revisions, recordedAbove.1 ≠ entry.1 := by
    intro upper listed same
    rw [← same] at below
    exact manifest.apart upper listed _ (mem_of_entryAt recorded) below
  obtain first | ⟨scanned, node', present, file⟩ := origin before _ inside
  · obtain ⟨upper, listed, rfl⟩ := List.mem_map.mp first
    exact apart upper listed rfl
  · exact tidy (.overDirectory scanned present file (entryAt_eq_none.mpr apart)
      (by rw [recorded]; rfl) below)

/-- A recorded path that the copy has no more is deleted from the unmoved parent. -/
theorem deleted_of_recorded {revision : CopyRevision} {before : List RelPath}
    (merged : Merged now manifest.revisions tree.entries (unmoved manifest.revisions) before path)
    (recorded : entryAt manifest.revisions path = some revision) :
    mergeDeleted (upTo now manifest.revisions tree.entries (unmoved manifest.revisions)
      before).parent path (some revision) = .deleted := by
  apply mergeDeleted_deleted (clear_of_recorded tidy before recorded)
  rw [merged.found, entryAt_unmoved, recorded, Option.map_some]

/-- A recorded path above a path of the copy is gone from the unmoved parent when that is met. -/
theorem clear_of_new {before after : List RelPath}
    (split_here : mergedPaths tree.entries manifest.revisions = before ++ path :: after)
    (present : entryAt tree.entries path = some node) :
    isBlocked (upTo now manifest.revisions tree.entries (unmoved manifest.revisions)
      before).parent path = false := by
  apply isBlocked_eq_false
  intro entry inside below
  obtain first | ⟨-, node', above, -⟩ := origin before _ inside
  · obtain ⟨upper, listed, rfl⟩ := List.mem_map.mp first
    have recorded : entryAt manifest.revisions upper.1 = some upper.2 :=
      entryAt_of_mem manifest.distinct listed
    have upper_member : upper.1 ∈ mergedPaths tree.entries manifest.revisions :=
      mem_mergedPaths.mpr (.inl (by rw [recorded]; rfl))
    obtain ⟨front, back, split_before⟩ := List.append_of_mem (mem_before below split_here upper_member)
    have whole : mergedPaths tree.entries manifest.revisions =
        front ++ upper.1 :: (back ++ path :: after) := by
      rw [split_here, split_before]
      simp
    have absent : entryAt tree.entries upper.1 = none := by
      cases there : entryAt tree.entries upper.1 with
      | none => rfl
      | some node' =>
        rw [absent_below there below] at present
        cases present
    have gone : entryAt (scanManifest tree.entries) upper.1 = none := by
      rw [entryAt_scanManifest, absent, Option.bind_none, ite_self]
    have merged : Merged now manifest.revisions tree.entries (unmoved manifest.revisions) front
        upper.1 := merged_of_split whole
    have deleted := deleted_of_recorded tidy merged recorded
    have nodup := @mergedPaths_nodup manifest.revisions tree.entries
    rw [whole, List.nodup_append, List.nodup_cons, List.mem_append, not_or] at nodup
    have lost : entryAt (upTo now manifest.revisions tree.entries (unmoved manifest.revisions)
        before).parent upper.1 = none := by
      unfold upTo at deleted ⊢
      rw [split_before, List.foldl_append, List.foldl_cons,
        foldl_plainStep_other back _ nodup.2.1.1.1, plainStep, mergeAt]
      dsimp only
      rw [mergeOne_of_gone gone recorded, deleted, applyOutcome, entryAt_eraseAt, if_pos rfl]
    exact entryAt_eq_none.mp lost _ inside rfl
  · rw [absent_below above below] at present
    cases present

theorem not_directory_of_new {before : List RelPath} {mtime mode : Nat} {data : Bytes}
    (scanned : isScanned path = true)
    (present : entryAt tree.entries path = some (.file mtime data mode))
    (new : entryAt manifest.revisions path = none) :
    isDirectory (upTo now manifest.revisions tree.entries (unmoved manifest.revisions)
      before).parent path = false := by
  unfold isDirectory
  rw [List.any_eq_false]
  intro entry inside below
  obtain first | ⟨-, node', there, -⟩ := origin before _ inside
  · obtain ⟨lower, listed, rfl⟩ := List.mem_map.mp first
    have recorded : entryAt manifest.revisions lower.1 = some lower.2 :=
      entryAt_of_mem manifest.distinct listed
    exact tidy (.overDirectory scanned present rfl new (by rw [recorded]; rfl) below)
  · rw [absent_below present below] at there
    cases there

/-- The merge with the unmoved parent is clean. -/
theorem clean_unmoved : (plainMerge now manifest.revisions tree.entries
    (unmoved manifest.revisions)).isClean = true := by
  refine (foldl_plainStep_clean _ _).mpr ⟨rfl, ?_⟩
  intro before path after split_here
  change isConflict (mergeOne (upTo now manifest.revisions tree.entries
    (unmoved manifest.revisions) before).parent tree.entries manifest.revisions path path) =
      false
  have merged : Merged now manifest.revisions tree.entries (unmoved manifest.revisions) before path :=
    merged_of_split split_here
  by_cases same : entryAt (scanManifest tree.entries) path = entryAt manifest.revisions path
  · rw [mergeOne_of_same same]
    rfl
  cases listed : entryAt (scanManifest tree.entries) path with
  | none =>
    cases recorded : entryAt manifest.revisions path with
    | none => exact absurd (listed.trans recorded.symm) same
    | some revision =>
      rw [mergeOne_of_gone listed recorded, deleted_of_recorded tidy merged recorded]
      rfl
  | some current =>
    cases current with
    | symlink target =>
      rw [mergeOne_of_link listed same]
      rfl
    | stamp mtime size =>
      obtain ⟨scanned, data, mode, present, rfl⟩ := file_of_scan listed
      rw [listed] at same
      rw [mergeOne_of_file scanned present same]
      unfold mergeWritten
      cases recorded : entryAt manifest.revisions path with
      | none =>
        dsimp only
        rw [clear_of_new tidy split_here present, if_neg Bool.false_ne_true, merged.found,
          entryAt_unmoved, recorded, Option.map_none,
          not_directory_of_new tidy scanned present recorded]
        rfl
      | some revision =>
        cases revision with
        | symlink target => exact absurd (.overLink scanned present rfl recorded) tidy
        | stamp recordedTime size =>
          have found : entryAt (upTo now manifest.revisions tree.entries
              (unmoved manifest.revisions) before).parent path =
              some (realize (.stamp recordedTime size)) := by
            rw [merged.found, entryAt_unmoved, recorded, Option.map_some]
          dsimp only
          rw [found, clear_of_recorded tidy before recorded, Option.map_some, revision_realize]
          simp [realize, isLink, isConflict]

/-- The merge with the unmoved parent does not carry a link or a special file over. -/
theorem plain_of_safe
    (safe : ∀ parent, Plain parent →
      Promises (plainMerge now manifest.revisions tree.entries parent)
        manifest.revisions tree.entries parent)
    (differs : Differs manifest.revisions tree.entries path)
    (there : entryAt tree.entries path = some node) : isFile node = true := by
  have complete := (safe _ (plain_unmoved _)).complete (clean_unmoved tidy) path differs
  rw [there, Option.map_some] at complete
  obtain ⟨scanned, different⟩ := differs
  rw [there, Option.map_some] at different
  -- A node that the scan passes over is at no recorded path, so the merge does not come to it.
  have listed : (listedRevision node).isSome = true := by
    by_contra unlisted
    have none_listed : listedRevision node = none := by simpa using unlisted
    have new : entryAt manifest.revisions path = none := by
      cases recorded : entryAt manifest.revisions path with
      | none => rfl
      | some revision => exact absurd (listed_of_safe safe (by rw [recorded]; rfl) there) unlisted
    have gone : entryAt (scanManifest tree.entries) path = none := by
      rw [entryAt_scanManifest, there, Option.bind_some, none_listed, ite_self]
    have absent : path ∉ mergedPaths tree.entries manifest.revisions := by
      rw [mem_mergedPaths, new, gone]
      simp
    rw [left_of_not_mem absent, entryAt_unmoved, new] at complete
    cases complete
  cases node with
  | file mtime data mode => rfl
  | special mtime size => cases listed
  | link target directory =>
    cases directory with
    | some directory => cases listed
    | none =>
      have scan : entryAt (scanManifest tree.entries) path = some (.symlink target) := by
        rw [entryAt_scanManifest, if_pos scanned, there]
        rfl
      have member : path ∈ mergedPaths tree.entries manifest.revisions :=
        mem_mergedPaths.mpr (.inr (by rw [scan]; rfl))
      obtain ⟨before, after, -, merged⟩ :=
        @exists_merged now manifest.revisions tree.entries (unmoved manifest.revisions) path member
      have changed : entryAt (scanManifest tree.entries) path ≠
          entryAt manifest.revisions path := by
        rw [scan]
        exact different
      rw [merged.left, mergeOne_of_link scan changed, applyOutcome, merged.found,
        entryAt_unmoved] at complete
      · cases recorded : entryAt manifest.revisions path with
        | none =>
          rw [recorded] at complete
          cases complete
        | some revision =>
          rw [recorded] at complete
          cases revision with
          | stamp mtime size => cases complete
          | symlink recordedTarget =>
            have same : recordedTarget = target := by simpa [realize, content] using complete
            rw [recorded, same] at different
            exact absurd rfl different
      all_goals simp

end Unmoved

end Fits

/-! ## Links of the parent -/

theorem bind_leadsTo_eq_none {entries : List (RelPath × Node)}
    (clear : ∀ entry ∈ entries, entry.1 = path → leadsTo entry.2 = none) :
    (entryAt entries path).bind leadsTo = none := by
  cases found : entryAt entries path with
  | none => rfl
  | some node => exact clear _ (mem_of_entryAt found) rfl

/-- Without links on the way a lookup comes to the path itself. -/
theorem resolveFrom_of_unlinked {entries : List (RelPath × Node)} (seen : RelPath)
    (rest : List Char)
    (clear : ∀ entry ∈ entries, Below (seen ++ rest) entry.1 → leadsTo entry.2 = none) :
    resolveFrom entries seen rest = seen ++ rest := by
  induction rest generalizing seen with
  | nil => simp [resolveFrom]
  | cons c rest ih =>
    have onward : resolveFrom entries (seen ++ [c]) rest = seen ++ c :: rest := by
      rw [ih _ (by simpa using clear), List.append_assoc, List.singleton_append]
    rw [resolveFrom]
    split
    · rename_i slash
      subst slash
      rw [bind_leadsTo_eq_none fun entry inside here => clear entry inside (by
        rw [here]
        exact List.isPrefixOf_iff_prefix.mpr ⟨rest, by simp⟩)]
      exact onward
    · exact onward

theorem resolve_of_unlinked (unlinked : Unlinked snapshot child parent)
    (changed : entryAt (scanManifest child) path ≠ entryAt snapshot path) :
    resolve parent path = path :=
  resolveFrom_of_unlinked [] path (unlinked path changed)

theorem plainStep_of_unlinked {run : MergeRun} (unlinked : Unlinked snapshot child run.parent) :
    mergeStep now child snapshot run path = plainStep now child snapshot run path := by
  unfold mergeStep plainStep
  by_cases same : entryAt (scanManifest child) path = entryAt snapshot path
  · unfold mergeAt
    rw [mergeOne_of_same same, mergeOne_of_same same]
    rfl
  · rw [resolve_of_unlinked unlinked same]

/-- What the merge puts in the parent is no link. -/
theorem unlinked_plainStep {run : MergeRun} (unlinked : Unlinked snapshot child run.parent) :
    Unlinked snapshot child (plainStep now child snapshot run path).parent := by
  intro changed differs entry inside below
  unfold plainStep mergeAt applyOutcome at inside
  dsimp only at inside
  split at inside
  · exact unlinked changed differs entry (List.mem_of_mem_filter inside) below
  all_goals first
    | exact unlinked changed differs entry inside below
    | split at inside
      · obtain rfl | kept := List.mem_cons.mp inside
        · rfl
        · exact unlinked changed differs entry (List.mem_of_mem_filter kept) below
      · exact unlinked changed differs entry inside below

theorem foldl_mergeStep_of_unlinked (paths : List RelPath) (run : MergeRun)
    (unlinked : Unlinked snapshot child run.parent) :
    paths.foldl (mergeStep now child snapshot) run =
      paths.foldl (plainStep now child snapshot) run := by
  induction paths generalizing run with
  | nil => rfl
  | cons first rest ih =>
    rw [List.foldl_cons, List.foldl_cons, plainStep_of_unlinked unlinked]
    exact ih _ (unlinked_plainStep unlinked)

/-- Without links above the changed paths the merge takes every path at its own place. -/
theorem merge_of_unlinked (unlinked : Unlinked snapshot child parent) :
    mergeIsolatedWorkspace now snapshot child parent = plainMerge now snapshot child parent :=
  foldl_mergeStep_of_unlinked _ _ unlinked

theorem promises_of_safe
    (safe : ∀ parent, Unlinked snapshot child parent → Safe now snapshot child parent)
    (parent : List (RelPath × Node)) (plain : Plain parent) :
    Promises (plainMerge now snapshot child parent) snapshot child parent := by
  have unlinked : Unlinked snapshot child parent :=
    fun _ _ entry inside _ => plain entry inside
  have promises := safe parent unlinked
  unfold Safe at promises
  rwa [merge_of_unlinked unlinked] at promises

/-- The merge is safe for every parent exactly when the copy is mergeable. -/
theorem safe_merge_iff (now : Nat) (manifest : Manifest) (tree : Tree) :
    (∀ parent, Unlinked manifest.revisions tree.entries parent →
      Safe now manifest.revisions tree.entries parent) ↔
      Mergeable manifest.revisions tree.entries := by
  constructor
  · intro safe
    have safe := promises_of_safe safe
    constructor
    · exact fun path node recorded there => listed_of_safe safe recorded there
    · by_cases never : NeverClean manifest.revisions tree.entries
      · exact .inl never
      · exact .inr fun path node differs there => plain_of_safe never safe differs there
  · intro mergeable parent unlinked
    unfold Safe
    rw [merge_of_unlinked unlinked]
    exact promises_of_mergeable mergeable parent now

/-! ## A link of the copy -/

/-- A file of the snapshot, and a link in its place. -/
def linkedManifest : Manifest where
  revisions := [(['a'], .stamp 1 2)]
  distinct := by decide
  apart := by
    intro upper above lower below
    rw [List.mem_singleton.mp above, List.mem_singleton.mp below]
    exact not_below_self
  scanned := by decide

def linkedTree : Tree where
  entries := [(['a'], .link "b" none)]
  distinct := by decide
  apart := by
    intro upper above lower below
    rw [List.mem_singleton.mp above, List.mem_singleton.mp below]
    exact not_below_self

theorem mergedPaths_linked :
    mergedPaths linkedTree.entries linkedManifest.revisions = [['a']] := by
  have names : (linkedManifest.revisions.map (·.1) ++
      (scanManifest linkedTree.entries).map (·.1)).dedup = [['a']] := by decide
  unfold mergedPaths
  rw [names, List.mergeSort_singleton]

/-- The merge is clean, the tree is discarded, and the parent has the file of the snapshot. -/
theorem changed_link_lost : ¬∀ parent,
    Safe 5 linkedManifest.revisions linkedTree.entries parent := by
  intro safe
  have merged : mergeIsolatedWorkspace 5 linkedManifest.revisions linkedTree.entries
      [(['a'], .file 1 [10, 20] 420)] =
        { parent := [(['a'], .file 1 [10, 20] 420)], report := [(['a'], .skipped)] } := by
    unfold mergeIsolatedWorkspace
    rw [mergedPaths_linked]
    rfl
  have lost := safe [(['a'], .file 1 [10, 20] 420)]
  unfold Safe at lost
  rw [merged] at lost
  have complete := lost.complete rfl ['a'] ⟨by decide, by decide⟩
  cases complete

/-! ## A link of the parent -/

/-- A file of the snapshot that the child has deleted. -/
def deletedRevisions : List (RelPath × CopyRevision) := [(['d', '/', 'x'], .stamp 1 2)]

/-- A parent in which its directory is a link to another one. -/
def linkingParent : List (RelPath × Node) :=
  [(['d'], .link "e" (some ['e'])), (['e', '/', 'x'], .file 1 [10, 20] 420)]

/-- The file of the other directory is removed, of which the snapshot and the child know nothing. -/
theorem merged_through_link :
    Mergeable deletedRevisions [] ∧ ¬Safe 5 deletedRevisions [] linkingParent := by
  have merged : mergeIsolatedWorkspace 5 deletedRevisions [] linkingParent =
      { parent := [(['d'], .link "e" (some ['e']))], report := [(['d', '/', 'x'], .deleted)] } := by
    have names : (deletedRevisions.map (·.1) ++ (scanManifest []).map (·.1)).dedup =
        [['d', '/', 'x']] := by decide
    unfold mergeIsolatedWorkspace mergedPaths
    rw [names, List.mergeSort_singleton]
    rfl
  constructor
  · exact ⟨fun _ _ _ there => (by cases there), .inr fun _ _ _ there => (by cases there)⟩
  · intro safe
    unfold Safe at safe
    rw [merged] at safe
    have kept := safe.kept ['e', '/', 'x'] (by decide)
    cases kept

end SherryAgent.Guarantees.IsolatedMerge
