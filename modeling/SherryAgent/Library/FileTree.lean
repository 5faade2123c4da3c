import Mathlib.Logic.Function.Basic

/-!
# A tree of directories and text files

Paths are lists of names below the root. Every name of a path is looked up in a directory, and `..`
goes back to the directory above. What a write and new directories leave as it was. Nothing here
names the agent.
-/

namespace SherryAgent.Library

abbrev NamePath := List (List Char)

inductive FileNode where
  | dir
  | file (text : List Char)
  deriving DecidableEq

abbrev FileTree := NamePath → Option FileNode

/-- The name of the directory above. -/
def dotDot : List Char := ['.', '.']

/-- The place that the names lead to from `here`. -/
def FileTree.walk (tree : FileTree) (here : NamePath) : List (List Char) → Option NamePath
  | [] => some here
  | name :: rest =>
    if tree here = some .dir then
      tree.walk (if name = dotDot then here.dropLast else here ++ [name]) rest
    else none

/-- The directories that the names lead through, made where nothing is. -/
def FileTree.mkdirs (tree : FileTree) (here : NamePath) : List (List Char) → Option FileTree
  | [] => some tree
  | name :: rest =>
    match tree (here ++ [name]) with
    | none =>
      FileTree.mkdirs (Function.update tree (here ++ [name]) (some .dir)) (here ++ [name]) rest
    | some .dir => tree.mkdirs (here ++ [name]) rest
    | some (.file _) => none

/-- The tree after the text is written to the path; `none` when the path has no directory or is one. -/
def FileTree.write (tree : FileTree) (path : NamePath) (text : List Char) : Option FileTree :=
  match tree.walk [] path with
  | none => none
  | some place =>
    if tree place = some .dir then none
    else some (Function.update tree place (some (.file text)))

/-- The text of the file that the path leads to. -/
def FileTree.read (tree : FileTree) (path : NamePath) : Option (List Char) :=
  match tree.walk [] path with
  | none => none
  | some place =>
    match tree place with
    | some (.file text) => some text
    | _ => none

variable {tree after : FileTree} {here place path names : NamePath} {node : FileNode}
  {text : List Char}

/-- Without `..` the names lead below `here`, through directories. -/
theorem walk_iff (plain : dotDot ∉ names) : tree.walk here names = some place ↔
    place = here ++ names ∧
      ∀ upper name rest, names = upper ++ name :: rest → tree (here ++ upper) = some .dir := by
  induction names generalizing here with
  | nil => simp [FileTree.walk, eq_comm]
  | cons name names ih =>
    rw [List.mem_cons, not_or] at plain
    rw [FileTree.walk]
    constructor
    · intro led
      split at led
      · rename_i dir
        rw [if_neg (Ne.symm plain.1), ih plain.2, List.append_assoc] at led
        refine ⟨led.1, ?_⟩
        intro upper other rest shape
        cases upper with
        | nil => rwa [List.append_nil]
        | cons first upper =>
          obtain ⟨rfl, behind⟩ := List.cons.inj shape
          have below := led.2 upper other rest behind
          rwa [List.append_assoc] at below
      · cases led
    · intro led
      have dir := led.2 [] name names rfl
      rw [List.append_nil] at dir
      rw [if_pos dir, if_neg (Ne.symm plain.1), ih plain.2, List.append_assoc]
      refine ⟨led.1, ?_⟩
      intro upper other rest shape
      have below := led.2 (name :: upper) other rest (by rw [shape, List.cons_append])
      rwa [List.append_assoc]

theorem mkdirs_keeps (made : tree.mkdirs here names = some after) (stood : tree path = some node) :
    after path = some node := by
  induction names generalizing tree here with
  | nil =>
    rw [← Option.some.inj made]
    exact stood
  | cons name names ih =>
    rw [FileTree.mkdirs] at made
    split at made
    · rename_i free
      apply ih made
      rw [Function.update_of_ne]
      · exact stood
      · intro same
        rw [same, free] at stood
        cases stood
    · exact ih made stood
    · cases made

/-- The last of the directories stands. -/
theorem mkdirs_dir (made : tree.mkdirs here names = some after) (nonempty : names ≠ []) :
    after (here ++ names) = some .dir := by
  induction names generalizing tree here with
  | nil => exact absurd rfl nonempty
  | cons name names ih =>
    have below : here ++ name :: names = here ++ [name] ++ names := by simp
    rw [FileTree.mkdirs] at made
    rw [below]
    split at made
    · cases names with
      | nil =>
        rw [List.append_nil]
        exact mkdirs_keeps made (Function.update_self _ _ _)
      | cons next names => exact ih made (List.cons_ne_nil _ _)
    · rename_i stood
      cases names with
      | nil =>
        rw [List.append_nil]
        exact mkdirs_keeps made stood
      | cons next names => exact ih made (List.cons_ne_nil _ _)
    · cases made

/-- A path without `..` that leads to a file still does when more stands in the tree. -/
theorem walk_of_keeps (plain : dotDot ∉ names) (led : tree.walk here names = some place)
    (keeps : ∀ path, tree path = some .dir → after path = some .dir) :
    after.walk here names = some place := by
  rw [walk_iff plain] at led ⊢
  exact ⟨led.1, fun upper name rest shape => keeps _ (led.2 upper name rest shape)⟩

theorem write_spec (plain : dotDot ∉ path) (written : tree.write path text = some after) :
    tree.walk [] path = some path ∧ tree path ≠ some .dir ∧
      after = Function.update tree path (some (.file text)) := by
  unfold FileTree.write at written
  cases led : tree.walk [] path with
  | none =>
    rw [led] at written
    cases written
  | some place =>
    rw [led] at written
    dsimp only at written
    have same : place = path := ((walk_iff plain).mp led).1
    subst same
    split at written
    · cases written
    · rename_i other
      exact ⟨rfl, other, (Option.some.inj written).symm⟩

/-- A write leaves every directory. -/
theorem dir_of_write (other : tree place ≠ some .dir) (stood : tree path = some .dir) :
    Function.update tree place (some (.file text)) path = some .dir := by
  rw [Function.update_of_ne]
  · exact stood
  · intro same
    rw [same] at stood
    exact other stood

theorem read_of_walk (led : tree.walk [] path = some path) (stood : tree path = some (.file text)) :
    tree.read path = some text := by
  rw [FileTree.read, led]
  dsimp only
  rw [stood]

end SherryAgent.Library
