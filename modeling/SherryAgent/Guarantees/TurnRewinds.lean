import Mathlib.Data.List.Induction
import SherryAgent.Contracts.ShadowGit
import SherryAgent.Library.Machine

/-!
# The boundary of a rewind

The floor of a turn is the snapshot before its first checkpoint: the state in which the last turn
that wrote began, or what the last restore left.

* `rewinds_exact` — restores whose turn began with the files of the snapshot before it.
* `rewind_undoes_last_turn` — two turns that write.
-/

namespace SherryAgent.Guarantees.TurnRewinds

open SherryAgent.Source.PubBase SherryAgent.Contracts.ShadowGit
open SherryAgent.Library.Machine

/-! ## A session on one project -/

/-- What a session does: a turn begins, a file gets a new content or is deleted after a
checkpoint, or the turn is taken back. -/
inductive ProjectOp where
  | newTurn
  | write (path : String) (content : Option Bytes)
  | restore

inductive Event where
  | turn
  | checkpoint (files : Tree)
  | snapshot (files : Tree)
  | restored (files : Tree)

/-- The project and what has happened to it. -/
structure Project where
  st : ShadowGit
  log : List Event

def setFile (files : Tree) (path : String) : Option Bytes → Tree
  | some data => files.insert path data
  | none => files.erase path

/-- The snapshots that a call has added. -/
def added (st after : ShadowGit) : List Tree := after.commits.drop st.commits.length

def Project.step (env : ShadowEnv) (sessionId : String) (project : Project) : ProjectOp → Option Project
  | .newTurn => some { st := project.st.newTurn sessionId, log := project.log ++ [.turn] }
  | .write path content =>
    let st := project.st.ensureCheckpoint env sessionId
    some { st := { st with worktree := setFile st.worktree path content }
           log := project.log ++ (added project.st st).map .checkpoint }
  | .restore =>
    let st := (project.st.restoreToTurn env sessionId).1
    some { st, log := project.log ++ (added project.st st).map .snapshot ++ [.restored st.worktree] }

/-! ## What a rewind is for -/

/-- The last snapshot, and the current turn's first checkpoint with the snapshot before it. -/
structure History where
  latest : Option Tree := none
  start : Option (Option Tree × Tree) := none

def History.note (history : History) : Event → History
  | .turn => { history with start := none }
  | .checkpoint files =>
    { latest := some files, start := history.start.or (some (history.latest, files)) }
  | .snapshot files => { history with latest := some files }
  | .restored _ => history

def history (log : List Event) : History := log.foldl History.note {}

def SameFiles (first second : Tree) : Prop := ∀ path, first.lookup path = second.lookup path

/-- A rewind in a turn that took a checkpoint, with a snapshot before it, leaves exactly the files
of that checkpoint. -/
def RewindsExact (log : List Event) : Prop :=
  ∀ before left after, log = before ++ .restored left :: after →
    ∀ prior first, (history before).start = some (some prior, first) → SameFiles left first

/-- The turn began with the files of the snapshot before it, and its changes can be undone. -/
def Rewindable (env : ShadowEnv) (project : Project) : ProjectOp → Prop
  | .restore => ∀ prior first, (history project.log).start = some (some prior, first) →
      SameFiles prior first ∧ Undoable env prior project.st.worktree
  | _ => True

/-! ## The invariant -/

/-- The floor of a turn that took a checkpoint is the snapshot before it. -/
structure Inv (sessionId : String) (project : Project) : Prop where
  thawed : project.st.frozen = false
  latest : (history project.log).latest = tip project.st
  turn : ∀ floor, project.st.floors.lookup sessionId = some floor →
    sessionId ≠ "" ∧ floor.turn ≤ project.st.currentTurn sessionId ∧
      (floor.turn = project.st.currentTurn sessionId → (history project.log).start.isSome = true)
  floor : ∀ prior first, (history project.log).start = some (some prior, first) →
    ∃ target, project.st.floorFor sessionId = some target ∧
      project.st.commits[target]? = some prior
  final : RewindsExact project.log

/-- A process in which the session has no floor yet, over a store of any snapshots. -/
structure Started (sessionId : String) (st : ShadowGit) : Prop where
  thawed : st.frozen = false
  floors : st.floors.lookup sessionId = none

variable {env : ShadowEnv} {sessionId : String} {project : Project}

theorem history_append (log events : List Event) :
    history (log ++ events) = events.foldl History.note (history log) :=
  List.foldl_append

theorem history_snapshots (log : List Event) (trees : List Tree) :
    history (log ++ trees.map .snapshot) =
      { history log with latest := trees.getLast?.or (history log).latest } := by
  induction trees using List.reverseRecOn with
  | nil => simp
  | append_singleton trees last ih =>
    rw [List.map_append, ← List.append_assoc, history_append, ih]
    simp [History.note]

theorem rewindsExact_append {log events : List Event} (final : RewindsExact log)
    (others : ∀ left, .restored left ∉ events) : RewindsExact (log ++ events) := by
  intro before left after shape
  rcases List.append_eq_append_iff.mp shape with ⟨rest, rfl, split⟩ | ⟨rest, rfl, split⟩
  · exact absurd (split ▸ List.mem_append_right _ List.mem_cons_self) (others left)
  · cases rest with
    | nil =>
      have first : Event.restored left ∈ events := by
        rw [List.nil_append] at split
        exact split ▸ List.mem_cons_self
      exact absurd first (others left)
    | cons event rest =>
      obtain ⟨rfl, -⟩ := List.cons.inj split
      exact final before left rest rfl

theorem rewindsExact_concat {log : List Event} {left : Tree} (final : RewindsExact log)
    (exact_now : ∀ prior first, (history log).start = some (some prior, first) → SameFiles left first) :
    RewindsExact (log ++ [.restored left]) := by
  intro before other after shape
  rcases List.eq_nil_or_concat after with rfl | ⟨events, event, rfl⟩
  · obtain ⟨rfl, same⟩ := List.append_inj' shape rfl
    cases same
    exact exact_now
  · rw [List.concat_eq_append, ← List.cons_append, ← List.append_assoc] at shape
    exact final before other events (List.append_inj' shape rfl).1

/-! ## The steps -/

theorem floorFor_eq_some {st : ShadowGit} {target : Nat} :
    st.floorFor sessionId = some target ↔
      st.floors.lookup sessionId = some { turn := st.currentTurn sessionId, tip := target } := by
  unfold ShadowGit.floorFor
  cases st.floors.lookup sessionId with
  | none => simp
  | some floor =>
    obtain ⟨turn, tip⟩ := floor
    simp

theorem Inv.newTurn (inv : Inv sessionId project) :
    Inv sessionId { st := project.st.newTurn sessionId, log := project.log ++ [.turn] } := by
  have fresh : (history (project.log ++ [.turn])).start = none := by
    rw [history_append]
    rfl
  have latest : (history (project.log ++ [.turn])).latest = tip project.st := by
    rw [history_append]
    exact inv.latest
  have final : RewindsExact (project.log ++ [.turn]) :=
    rewindsExact_append inv.final fun left member => by simp at member
  have no_floor : ∀ prior first, (history (project.log ++ [.turn])).start ≠ some (some prior, first) := by
    intro prior first
    rw [fresh]
    exact nofun
  unfold ShadowGit.newTurn
  split
  · rename_i unnamed
    refine ⟨inv.thawed, latest, fun floor held => ?_, fun _ _ start => ?_, final⟩
    · exact absurd (beq_iff_eq.mp unnamed) (inv.turn floor held).1
    · exact absurd start (no_floor _ _)
  · refine ⟨inv.thawed, latest, fun floor held => ?_, fun _ _ start => ?_, final⟩
    · obtain ⟨named, past, -⟩ := inv.turn floor held
      have next : ({ project.st with
          turnCounts := project.st.turnCounts.insert sessionId (project.st.currentTurn sessionId + 1)
          dedup := project.st.dedup.filter (· != sessionId) } : ShadowGit).currentTurn sessionId =
          project.st.currentTurn sessionId + 1 := by
        rw [ShadowGit.currentTurn, AList.lookup_insert]
        rfl
      dsimp only at next ⊢
      rw [next]
      exact ⟨named, by omega, fun same => by omega⟩
    · exact absurd start (no_floor _ _)

/-- A checkpoint: the first one of a turn records the tip before it. -/
theorem Inv.checkpoint (inv : Inv sessionId project) (named : sessionId ≠ "") {after : ShadowGit}
    (snapshot : Snapshot project.st after sessionId) :
    Inv sessionId { st := after, log := project.log ++ [.checkpoint project.st.worktree] } := by
  have turn : after.currentTurn sessionId = project.st.currentTurn sessionId := by
    rw [ShadowGit.currentTurn, snapshot.turnCounts]
    rfl
  have noted : history (project.log ++ [.checkpoint project.st.worktree]) =
      (history project.log).note (.checkpoint project.st.worktree) := by
    rw [history_append]
    rfl
  constructor
  · exact snapshot.frozen.trans inv.thawed
  · rw [noted, snapshot.tip]
    rfl
  · intro floor held
    rw [noted, turn]
    have started : ((history project.log).note (.checkpoint project.st.worktree)).start.isSome := by
      simp [History.note]
    rw [snapshot.floors] at held
    cases ref : project.st.ref with
    | none =>
      rw [ref] at held
      exact ⟨named, (inv.turn floor held).2.1, fun _ => started⟩
    | some parent =>
      rw [ref] at held
      dsimp only at held
      rw [recordFloor_lookup named] at held
      cases old : project.st.floors.lookup sessionId with
      | none =>
        rw [old] at held
        cases held
        exact ⟨named, le_rfl, fun _ => started⟩
      | some entry =>
        rw [old] at held
        dsimp only at held
        split at held
        · cases held
          exact ⟨named, (inv.turn _ old).2.1, fun _ => started⟩
        · cases held
          exact ⟨named, le_rfl, fun _ => started⟩
  · intro prior first start
    rw [noted] at start
    cases began : (history project.log).start with
    | some before =>
      rw [History.note, began, Option.some_or, Option.some.injEq] at start
      subst start
      obtain ⟨target, floor, stored⟩ := inv.floor prior first began
      refine ⟨target, ?_, ?_⟩
      · rw [floorFor_eq_some, snapshot.floors_of_floor floor, turn]
        exact floorFor_eq_some.mp floor
      · rw [snapshot.commits, List.getElem?_append_left]
        · exact stored
        · exact (List.getElem?_eq_some_iff.mp stored).1
    | none =>
      rw [History.note, began, Option.none_or, Option.some.injEq, Prod.mk.injEq, inv.latest] at start
      obtain ⟨parent, ref, stored⟩ := Option.bind_eq_some_iff.mp start.1
      refine ⟨parent, ?_, ?_⟩
      · rw [floorFor_eq_some, snapshot.floors, ref, turn]
        dsimp only
        rw [recordFloor_lookup named]
        cases old : project.st.floors.lookup sessionId with
        | none => rfl
        | some entry =>
          dsimp only
          rw [if_neg]
          intro same
          have impossible := (inv.turn entry old).2.2 same
          rw [began] at impossible
          cases impossible
      · rw [snapshot.commits, List.getElem?_append_left]
        · exact stored
        · exact (List.getElem?_eq_some_iff.mp stored).1
  · exact rewindsExact_append inv.final fun left member => by simp at member

/-- What a turn writes does not touch its records. -/
theorem Inv.files (inv : Inv sessionId project) (files : Tree) :
    Inv sessionId { project with st.worktree := files } :=
  ⟨inv.thawed, inv.latest, inv.turn, inv.floor, inv.final⟩

theorem Inv.write (inv : Inv sessionId project) (path : String) (content : Option Bytes) :
    Inv sessionId
      { st := { project.st.ensureCheckpoint env sessionId with
          worktree := setFile (project.st.ensureCheckpoint env sessionId).worktree path content }
        log := project.log ++ (added project.st (project.st.ensureCheckpoint env sessionId)).map .checkpoint } := by
  have unchanged : added project.st project.st = [] := List.drop_length
  unfold ShadowGit.ensureCheckpoint
  split
  · rw [unchanged, List.map_nil, List.append_nil]
    exact inv.files _
  · rename_i enabled
    rw [inv.thawed, if_neg Bool.false_ne_true]
    split
    · rw [unchanged, List.map_nil, List.append_nil]
      exact inv.files _
    · have named : sessionId ≠ "" := by
        simp only [Bool.or_eq_true, not_or, beq_iff_eq] at enabled
        exact enabled.2
      have snapshot := @takeSnapshotLocked_spec project.st sessionId
      rw [ShadowGit.takeSnapshot, inv.thawed, if_neg Bool.false_ne_true]
      generalize project.st.takeSnapshotLocked sessionId = after at snapshot
      have new : added project.st { after with dedup := sessionId :: after.dedup } =
          [project.st.worktree] := by
        rw [added]
        dsimp only
        rw [snapshot.commits, List.drop_left]
      dsimp only
      rw [new]
      have kept := inv.checkpoint named snapshot
      exact ⟨kept.thawed, kept.latest, kept.turn, kept.floor, kept.final⟩

theorem Inv.restore (inv : Inv sessionId project) (rewindable : Rewindable env project .restore) :
    Inv sessionId
      { st := (project.st.restoreToTurn env sessionId).1
        log := project.log ++
          (added project.st (project.st.restoreToTurn env sessionId).1).map .snapshot ++
            [.restored (project.st.restoreToTurn env sessionId).1.worktree] } := by
  have restore := @restoreToTurn_spec env project.st sessionId
  have files := @restoreToTurn_lookup env project.st sessionId
  generalize (project.st.restoreToTurn env sessionId).1 = after at restore files
  obtain ⟨trees, commits, tip_after⟩ := restore.commits
  have new : added project.st after = trees := by rw [added, commits, List.drop_left]
  have turn : after.currentTurn sessionId = project.st.currentTurn sessionId := by
    rw [ShadowGit.currentTurn, restore.turnCounts]
    rfl
  have noted : history (project.log ++ trees.map .snapshot ++ [.restored after.worktree]) =
      { history project.log with latest := tip after } := by
    rw [history_append, history_snapshots, tip_after, ← inv.latest]
    rfl
  rw [new]
  constructor
  · exact restore.frozen.trans inv.thawed
  · rw [noted]
  · intro floor held
    rw [noted, turn]
    rw [restore.floors] at held
    exact inv.turn floor held
  · intro prior first start
    rw [noted] at start
    obtain ⟨target, floor, stored⟩ := inv.floor prior first start
    refine ⟨target, ?_, ?_⟩
    · rw [floorFor_eq_some, restore.floors, turn]
      exact floorFor_eq_some.mp floor
    · rw [commits, List.getElem?_append_left]
      · exact stored
      · exact (List.getElem?_eq_some_iff.mp stored).1
  · apply rewindsExact_concat
    · exact rewindsExact_append inv.final fun left member => by simp at member
    · intro prior first start path
      rw [history_snapshots] at start
      obtain ⟨target, floor, stored⟩ := inv.floor prior first start
      obtain ⟨same, undoable⟩ := rewindable prior first start
      rw [files inv.thawed floor stored undoable path]
      exact same path

theorem Inv.step (inv : Inv sessionId project) {op : ProjectOp} {next : Project}
    (rewindable : Rewindable env project op) (stepped : project.step env sessionId op = some next) :
    Inv sessionId next := by
  cases op with
  | newTurn =>
    obtain rfl := Option.some.inj stepped
    exact inv.newTurn
  | write path content =>
    obtain rfl := Option.some.inj stepped
    exact inv.write path content
  | restore =>
    obtain rfl := Option.some.inj stepped
    exact inv.restore rewindable

/-- From any files and any store, in a process that has no floor of the session yet: if each turn
that is taken back began with the files of the snapshot before it, and what it changed can be
undone, each rewind leaves exactly the files of the turn's first checkpoint. -/
theorem rewinds_exact {st : ShadowGit} {env : ShadowEnv} {sessionId : String} {project : Project}
    (started : Started sessionId st)
    (run : Runs (Project.step env sessionId) (Rewindable env)
      { st, log := (tip st).toList.map .snapshot } project) :
    RewindsExact project.log := by
  have inv : Inv sessionId project := by
    apply run.invariant (Inv sessionId)
    · have empty : history ((tip st).toList.map .snapshot) = { latest := tip st } := by
        cases tip st <;> rfl
      refine ⟨started.thawed, ?_, fun floor held => ?_, fun prior first start => ?_, ?_⟩
      · rw [empty]
      · rw [started.floors] at held
        cases held
      · rw [empty] at start
        cases start
      · have none_yet : RewindsExact [] := fun before left after shape => by cases before <;> cases shape
        exact rewindsExact_append none_yet fun left member => by simp at member
    · intro u u' op inv rewindable stepped
      exact inv.step rewindable stepped
  exact inv.final

/-! ## Two turns that write -/

/-- A store with one snapshot, of the files as they are. -/
def oneSnapshot : ShadowGit where
  worktree := AList.singleton "notes.txt" [49]
  commits := [AList.singleton "notes.txt" [49]]
  ref := some 0

/-- Git prints the paths as they are. -/
def plainNames : ShadowEnv where
  printed := id

theorem oneSnapshot_started : Started "s" oneSnapshot := ⟨rfl, rfl⟩

/-- The last event is a rewind that leaves a file of the first checkpoint with another content. -/
def misses (log : List Event) : Bool :=
  match log.reverse with
  | .restored left :: before =>
    match (history before.reverse).start with
    | some (some _, first) => first.keys.any fun path => left.lookup path != first.lookup path
    | _ => false
  | _ => false

theorem not_exact_of_misses {log : List Event} (missed : misses log = true) : ¬RewindsExact log := by
  unfold misses at missed
  split at missed
  · rename_i left before shape
    split at missed
    · rename_i prior first start
      intro final
      have split : log = before.reverse ++ [.restored left] := by
        rw [← List.reverse_reverse log, shape, List.reverse_cons]
      obtain ⟨path, -, differs⟩ := List.any_eq_true.mp missed
      rw [final _ _ _ split _ _ start path, bne_self_eq_false] at differs
      cases differs
    · cases missed
  · cases missed

/-- The rewind of the second turn takes back the first one too. -/
theorem rewind_undoes_last_turn : ∃ project,
    Runs (Project.step plainNames "s") (fun _ _ => True)
      { st := oneSnapshot, log := (tip oneSnapshot).toList.map .snapshot } project ∧
      ¬RewindsExact project.log := by
  have played : (play (Project.step plainNames "s") (fun _ _ => true)
      { st := oneSnapshot, log := (tip oneSnapshot).toList.map .snapshot }
      [.newTurn, .write "notes.txt" (some [50]), .newTurn, .write "notes.txt" (some [51]), .restore]).any
      (fun project => misses project.log) = true := by
    decide +kernel
  obtain ⟨project, run, missed⟩ := Runs.exists_of_play played
  exact ⟨project, run.mono fun _ _ _ => trivial, not_exact_of_misses missed⟩

def sameFiles (first second : Tree) : Bool :=
  (first.keys ++ second.keys).all fun path => first.lookup path == second.lookup path

theorem sameFiles_of_check {first second : Tree} (checked : sameFiles first second = true) :
    SameFiles first second := by
  intro path
  rw [sameFiles, List.all_eq_true] at checked
  by_cases member : path ∈ first.keys ++ second.keys
  · exact beq_iff_eq.mp (checked path member)
  · rw [List.mem_append, not_or] at member
    rw [AList.lookup_eq_none.mpr (mt AList.mem_keys.mp member.1),
      AList.lookup_eq_none.mpr (mt AList.mem_keys.mp member.2)]

def undoable (env : ShadowEnv) (tree worktree : Tree) : Bool :=
  (!tree.keys.isEmpty || worktree.keys.isEmpty) &&
    (worktree.keys.all fun path => tree.keys.contains path ||
      (ShadowGit.listedNames env [path] == [path] &&
        !(ShadowGit.listedNames env tree.keys).contains path)) &&
    decide ((worktree.keys.filter (· ∉ tree)).length ≤ maxRestoreDeletions)

theorem undoable_of_check {tree worktree : Tree} (checked : undoable env tree worktree = true) :
    Undoable env tree worktree := by
  rw [undoable, Bool.and_eq_true, Bool.and_eq_true, decide_eq_true_eq, List.all_eq_true] at checked
  obtain ⟨⟨filled, plain⟩, few⟩ := checked
  refine ⟨by simpa using filled, fun path member new => ?_, few⟩
  have listed := plain path (AList.mem_keys.mp member)
  simpa [mt AList.mem_keys.mpr new] using listed

def rewindable (env : ShadowEnv) (project : Project) : ProjectOp → Bool
  | .restore =>
    match (history project.log).start with
    | some (some prior, first) => sameFiles prior first && undoable env prior project.st.worktree
    | _ => true
  | _ => true

theorem rewindable_of_check {op : ProjectOp} (checked : rewindable env project op = true) :
    Rewindable env project op := by
  cases op with
  | restore =>
    intro prior first start
    rw [rewindable, start, Bool.and_eq_true] at checked
    exact ⟨sameFiles_of_check checked.1, undoable_of_check checked.2⟩
  | _ => trivial

/-- A turn after a snapshot is taken back, and so is the one that runs again. -/
theorem rerun_rewound : ∃ project : Project, project.log.length = 11 ∧ RewindsExact project.log := by
  have played : (play (Project.step plainNames "s") (rewindable plainNames)
      { st := oneSnapshot, log := (tip oneSnapshot).toList.map .snapshot }
      [.newTurn, .write "notes.txt" (some [50]), .write "new.txt" (some [51]), .restore, .newTurn,
        .write "notes.txt" none, .restore]).any
      (fun project => project.log.length == 11) = true := by
    decide +kernel
  obtain ⟨project, run, length⟩ := Runs.exists_of_play played
  exact ⟨project, by simpa using length,
    rewinds_exact oneSnapshot_started (run.mono fun _ _ => rewindable_of_check)⟩

end SherryAgent.Guarantees.TurnRewinds
