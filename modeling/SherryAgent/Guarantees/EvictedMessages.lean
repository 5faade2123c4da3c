import SherryAgent.Source.Agent.Eviction

/-!
# Evicted messages

- `evicted_recoverable`: as long as no text has a carriage return, no call id has a `..` or a
  leading slash, and no two texts share a file name, every pointer stays in the session's directory
  and its file gives the text back
- `returns_translated`: a text with a carriage return comes back changed
-/

namespace SherryAgent.Guarantees.EvictedMessages

open SherryAgent.Library SherryAgent.Source SherryAgent.Source.Agent

/-! ## The calls -/

inductive EvictionCall where
  | tool (result : ToolResult) (moment : Moment)
  | human (message : UserMessage) (moment : Moment)

def EvictionCall.text : EvictionCall → List Char
  | tool result _ => extractText result.content
  | human message _ => extractText message.content

/-- The name of the file that the call writes, if it writes one. -/
def EvictionCall.fileName (env : EvictionEnv) : EvictionCall → List Char
  | tool result _ => toolFileName env result
  | human message moment => humanFileName message moment.timeNs

def EvictionCall.path (env : EvictionEnv) (sessionId : List Char) (call : EvictionCall) : NamePath :=
  joinPath (evictionDir env sessionId) (call.fileName env)

/-- The tree after the call, and the pointer it produced. -/
def EvictionCall.perform (env : EvictionEnv) (sessionId : List Char) (tree : FileTree) :
    EvictionCall → FileTree × Option NamePath
  | tool result moment =>
    match evictToolResult env tree sessionId result moment with
    | (tree, .offloaded _ pointer) => (tree, some pointer)
    | (tree, _) => (tree, none)
  | human message moment =>
    match evictHumanMessage env tree sessionId message moment with
    | (tree, .offloaded _ pointer) => (tree, some pointer)
    | (tree, _) => (tree, none)

/-- A pointer and the text of the message that it was produced for. -/
structure Produced where
  pointer : NamePath
  text : List Char

/-- The tree after the calls, and what they produced. -/
def performAll (env : EvictionEnv) (sessionId : List Char) :
    FileTree → List EvictionCall → FileTree × List Produced
  | tree, [] => (tree, [])
  | tree, call :: calls =>
    let (tree, pointer) := call.perform env sessionId tree
    let (tree, later) := performAll env sessionId tree calls
    (tree, (pointer.map fun pointer => ⟨pointer, call.text⟩).toList ++ later)

/-- The pointer names a file in the directory, and loading it gives the text. -/
structure Recovers (env : EvictionEnv) (sessionId : List Char) (tree : FileTree)
    (produced : Produced) : Prop where
  inside : ∃ below, below ≠ [] ∧
    tree.walk [] produced.pointer = some (evictionDir env sessionId ++ below)
  loads : loadEvicted tree produced.pointer = some produced.text

/-- No name of the file leads out of the directory: a call id has no `..` among its names and does
not start with a slash. -/
def Contained (env : EvictionEnv) : EvictionCall → Prop
  | .tool result _ =>
    (toolFileName env result).head? ≠ some '/' ∧ dotDot ∉ pathNames (toolFileName env result)
  | .human _ _ => True

/-- The message is one to evict, and the system takes the write. -/
def EvictionCall.Evictable (env : EvictionEnv) (sessionId : List Char) (call : EvictionCall) : Prop :=
  match call with
  | tool result moment =>
    (result.name ∉ excludedTools ∧ evictThresholdChars < call.text.length ∧
      evictionPrefix.isPrefixOf call.text = false) ∧
    (buildToolPreview call.text (call.path env sessionId) moment.stamp).length < call.text.length ∧
    moment.refused = false
  | human message moment =>
    (message.user = true ∧ message.evictedTo = [] ∧ humanEvictThresholdChars < call.text.length) ∧
    (buildHumanPreview call.text (call.path env sessionId) moment.stamp).length <
      call.text.length ∧
    moment.refused = false

/-- The calls that have something to evict meet none of the three defects. -/
structure Recoverable (env : EvictionEnv) (sessionId : List Char) (calls : List EvictionCall) :
    Prop where
  newlines : ∀ call ∈ calls, call.Evictable env sessionId → '\r' ∉ call.text
  contained : ∀ call ∈ calls, call.Evictable env sessionId → Contained env call
  distinct : calls.Pairwise fun earlier later =>
    earlier.Evictable env sessionId → later.Evictable env sessionId →
      earlier.path env sessionId = later.path env sessionId → earlier.text = later.text

variable {env : EvictionEnv} {tree after : FileTree} {sessionId text name : List Char}
  {directory path : NamePath} {call : EvictionCall} {calls : List EvictionCall}
  {produced : Produced} {refused : Bool}

/-! ## Newlines -/

theorem universalNewlines_plain (plain : '\r' ∉ text) : universalNewlines false text = text := by
  induction text with
  | nil => rfl
  | cons c text ih =>
    rw [List.mem_cons, not_or] at plain
    rw [universalNewlines, if_neg (Ne.symm plain.1), if_neg (by simp), ih plain.2]

/-- What is read has no carriage return. -/
theorem not_mem_universalNewlines (returned : Bool) :
    '\r' ∉ universalNewlines returned text := by
  induction text generalizing returned with
  | nil => simp [universalNewlines]
  | cons c text ih =>
    rw [universalNewlines]
    split
    · simp [ih]
    · rename_i other
      split
      · exact ih false
      · rw [List.mem_cons, not_or]
        exact ⟨Ne.symm other, ih false⟩

/-! ## File names -/

theorem slash_of_safe {c : Char} (safe : isSafeChar c = true) : c ≠ '/' := by
  intro same
  subst same
  cases safe

theorem slash_not_mem_replaceUnsafe (gap : Bool) : '/' ∉ replaceUnsafe gap text := by
  induction text generalizing gap with
  | nil => simp [replaceUnsafe]
  | cons c text ih =>
    rw [replaceUnsafe]
    split
    · rename_i safe
      rw [List.mem_cons, not_or]
      exact ⟨Ne.symm (slash_of_safe safe), ih false⟩
    · split
      · exact ih true
      · simp [ih]

theorem slash_not_mem_safeId : '/' ∉ safeId text := by
  intro member
  have stripped := List.mem_of_mem_take member
  unfold PyText.stripChars at stripped
  rw [List.mem_reverse] at stripped
  have front := List.mem_reverse.mp ((List.dropWhile_sublist _).mem stripped)
  exact slash_not_mem_replaceUnsafe false ((List.dropWhile_sublist _).mem front)

theorem slash_not_mem_count (n : Nat) : '/' ∉ countText n := by
  intro member
  have digits : countText n = Nat.toDigits 10 n := by simp [countText, toString]
  rw [digits] at member
  exact absurd (Nat.isDigit_of_mem_toDigits (by decide) (by decide) member) (by decide)

theorem slash_not_mem_humanFileName (message : UserMessage) (timeNs : Nat) :
    '/' ∉ humanFileName message timeNs := by
  unfold humanFileName
  dsimp only
  rw [List.mem_append, List.mem_append, not_or, not_or]
  refine ⟨⟨by decide, ?_⟩, by decide⟩
  split
  · exact slash_not_mem_count timeNs
  · exact slash_not_mem_safeId

theorem pathNames_single (single : '/' ∉ name) :
    pathNames name = [name].filter fun name => name != [] && name != ['.'] := by
  unfold pathNames
  congr 1
  apply List.splitOnP_eq_singleton
  intro c member
  have other : c ≠ '/' := by
    intro same
    exact single (same ▸ member)
  simpa using other

/-- The file of a user message is named by one name. -/
theorem contained_human (message : UserMessage) (timeNs : Nat) :
    (humanFileName message timeNs).head? ≠ some '/' ∧
      dotDot ∉ pathNames (humanFileName message timeNs) := by
  have first : (humanFileName message timeNs).head? = some 'h' := rfl
  rw [first]
  refine ⟨by decide, ?_⟩
  rw [pathNames_single (slash_not_mem_humanFileName message timeNs)]
  intro member
  rw [← List.mem_singleton.mp (List.mem_of_mem_filter member)] at first
  cases first

theorem contained_name (contained : Contained env call) :
    (call.fileName env).head? ≠ some '/' ∧ dotDot ∉ pathNames (call.fileName env) := by
  cases call with
  | tool result moment => exact contained
  | human message moment => exact contained_human message moment.timeNs

theorem dotDot_not_mem_directory (safe : isSafeSessionSegment sessionId = true) :
    dotDot ∉ evictionDir env sessionId := by
  intro member
  unfold evictionDir at member
  rw [List.mem_append, List.mem_cons, List.mem_singleton] at member
  obtain root | session | evicted := member
  · exact env.resolved root
  · rw [← session] at safe
    cases safe
  · exact absurd evicted (by decide)

theorem path_of_contained (contained : Contained env call) :
    call.path env sessionId = evictionDir env sessionId ++ pathNames (call.fileName env) := by
  unfold EvictionCall.path joinPath
  rw [if_neg (contained_name contained).1]

theorem dotDot_not_mem_path (contained : Contained env call)
    (safe : isSafeSessionSegment sessionId = true) : dotDot ∉ call.path env sessionId := by
  rw [path_of_contained contained, List.mem_append, not_or]
  exact ⟨dotDot_not_mem_directory safe, (contained_name contained).2⟩

/-! ## One call -/

/-- Whatever stood in the tree still stands there. -/
def Keeps (tree after : FileTree) : Prop :=
  ∀ path node, tree path = some node → after path = some node

/-- The directories were made and the text was written behind them. -/
structure Saved (env : EvictionEnv) (sessionId : List Char) (call : EvictionCall)
    (tree after : FileTree) : Prop where
  safe : isSafeSessionSegment sessionId = true
  evictable : call.Evictable env sessionId
  saved : ∃ made, tree.mkdirs [] (evictionDir env sessionId) = some made ∧
    made.write (call.path env sessionId) call.text = some after

theorem saveText_kept (saved : saveText tree directory path text refused = some (after, false)) :
    Keeps tree after := by
  unfold saveText at saved
  cases made : tree.mkdirs [] directory with
  | none =>
    rw [made] at saved
    cases saved
  | some middle =>
    rw [made] at saved
    have kept : Keeps tree middle := fun path node stood => mkdirs_keeps made stood
    dsimp only at saved
    split at saved
    · rw [← (Prod.mk.inj (Option.some.inj saved)).1]
      exact kept
    · cases written : middle.write path text with
      | none =>
        rw [written] at saved
        rw [← (Prod.mk.inj (Option.some.inj saved)).1]
        exact kept
      | some last =>
        rw [written] at saved
        cases (Prod.mk.inj (Option.some.inj saved)).2

theorem saveText_written (saved : saveText tree directory path text refused = some (after, true)) :
    refused = false ∧
      ∃ made, tree.mkdirs [] directory = some made ∧ made.write path text = some after := by
  unfold saveText at saved
  cases made : tree.mkdirs [] directory with
  | none =>
    rw [made] at saved
    cases saved
  | some middle =>
    rw [made] at saved
    dsimp only at saved
    split at saved
    · cases (Prod.mk.inj (Option.some.inj saved)).2
    · rename_i taken
      cases written : middle.write path text with
      | none =>
        rw [written] at saved
        cases (Prod.mk.inj (Option.some.inj saved)).2
      | some last =>
        rw [written] at saved
        rw [← (Prod.mk.inj (Option.some.inj saved)).1]
        exact ⟨by simpa using taken, middle, rfl, written⟩

/-- What an eviction can do: nothing that stood is touched, or the text is saved under the path. -/
inductive Evicts {message : Type} (env : EvictionEnv) (sessionId : List Char)
    (call : EvictionCall) (tree : FileTree) : FileTree × Eviction message → Prop
  | kept {after : FileTree} (kept : Keeps tree after) : Evicts env sessionId call tree (after, .kept)
  | raised {after : FileTree} (kept : Keeps tree after) :
      Evicts env sessionId call tree (after, .raised)
  | offloaded {after : FileTree} (evicted : message) (saved : Saved env sessionId call tree after) :
      Evicts env sessionId call tree (after, .offloaded evicted (call.path env sessionId))

theorem evictToolResult_evicts (result : ToolResult) (moment : Moment) :
    Evicts env sessionId (.tool result moment) tree
      (evictToolResult env tree sessionId result moment) := by
  have same : Keeps tree tree := fun path node stood => stood
  unfold evictToolResult
  dsimp only
  split
  · exact .kept same
  · rename_i admitted
    simp only [not_or, Nat.not_le, Bool.not_eq_true, Bool.not_eq_false] at admitted
    obtain ⟨listed, long, fresh, safe⟩ := admitted
    have included : result.name ∉ excludedTools := by simpa using listed
    split
    · exact .kept same
    · rename_i worth
      cases saved : saveText tree (evictionDir env sessionId)
          (joinPath (evictionDir env sessionId) (toolFileName env result))
          (extractText result.content) moment.refused with
      | none => exact .raised same
      | some outcome =>
        obtain ⟨after, done⟩ := outcome
        cases done with
        | false => exact .raised (saveText_kept saved)
        | true =>
          obtain ⟨taken, written⟩ := saveText_written saved
          exact .offloaded _
            ⟨safe, ⟨⟨included, long, fresh⟩, Nat.not_le.mp worth, taken⟩, written⟩

theorem evictHumanMessage_evicts (message : UserMessage) (moment : Moment) :
    Evicts env sessionId (.human message moment) tree
      (evictHumanMessage env tree sessionId message moment) := by
  have same : Keeps tree tree := fun path node stood => stood
  unfold evictHumanMessage
  dsimp only
  split
  · exact .kept same
  · rename_i admitted
    simp only [not_or, Nat.not_le, Bool.not_eq_false, ne_eq, not_not] at admitted
    obtain ⟨user, fresh, long, safe⟩ := admitted
    split
    · exact .kept same
    · rename_i worth
      cases saved : saveText tree (evictionDir env sessionId)
          (joinPath (evictionDir env sessionId) (humanFileName message moment.timeNs))
          (extractText message.content) moment.refused with
      | none => exact .raised same
      | some outcome =>
        obtain ⟨after, done⟩ := outcome
        cases done with
        | false => exact .kept (saveText_kept saved)
        | true =>
          obtain ⟨taken, written⟩ := saveText_written saved
          exact .offloaded _ ⟨safe, ⟨⟨user, fresh, long⟩, Nat.not_le.mp worth, taken⟩, written⟩

theorem perform_cases (env : EvictionEnv) (sessionId : List Char) (tree : FileTree)
    (call : EvictionCall) :
    ((call.perform env sessionId tree).2 = none ∧
      Keeps tree (call.perform env sessionId tree).1) ∨
    ((call.perform env sessionId tree).2 = some (call.path env sessionId) ∧
      Saved env sessionId call tree (call.perform env sessionId tree).1) := by
  cases call with
  | tool result moment =>
    have evicts := @evictToolResult_evicts env tree sessionId result moment
    unfold EvictionCall.perform
    dsimp only
    generalize evictToolResult env tree sessionId result moment = outcome at evicts ⊢
    cases evicts with
    | kept kept => exact .inl ⟨rfl, kept⟩
    | raised kept => exact .inl ⟨rfl, kept⟩
    | offloaded evicted saved => exact .inr ⟨rfl, saved⟩
  | human message moment =>
    have evicts := @evictHumanMessage_evicts env tree sessionId message moment
    unfold EvictionCall.perform
    dsimp only
    generalize evictHumanMessage env tree sessionId message moment = outcome at evicts ⊢
    cases evicts with
    | kept kept => exact .inl ⟨rfl, kept⟩
    | raised kept => exact .inl ⟨rfl, kept⟩
    | offloaded evicted saved => exact .inr ⟨rfl, saved⟩

/-! ## The runs -/

/-- The file of a pointer stands below the directory with the text. -/
structure Stands (env : EvictionEnv) (sessionId : List Char) (tree : FileTree)
    (produced : Produced) : Prop where
  below : ∃ names, names ≠ [] ∧ produced.pointer = evictionDir env sessionId ++ names
  plain : dotDot ∉ produced.pointer
  leads : tree.walk [] produced.pointer = some produced.pointer
  holds : tree produced.pointer = some (.file produced.text)
  newlines : '\r' ∉ produced.text

theorem Stands.recovers (stands : Stands env sessionId tree produced) :
    Recovers env sessionId tree produced := by
  obtain ⟨names, some_name, pointer⟩ := stands.below
  refine ⟨⟨names, some_name, ?_⟩, ?_⟩
  · rw [stands.leads, pointer]
  · unfold loadEvicted
    rw [read_of_walk stands.leads stands.holds, Option.map_some,
      universalNewlines_plain stands.newlines]

theorem Stands.keeps (stands : Stands env sessionId tree produced) (keeps : Keeps tree after) :
    Stands env sessionId after produced :=
  ⟨stands.below, stands.plain,
    walk_of_keeps stands.plain stands.leads fun path stood => keeps path .dir stood,
    keeps _ _ stands.holds, stands.newlines⟩

/-- A file that a call saves stands. -/
theorem stands_of_saved (contained : Contained env call) (newlines : '\r' ∉ call.text)
    (saved : Saved env sessionId call tree after) :
    Stands env sessionId after ⟨call.path env sessionId, call.text⟩ := by
  obtain ⟨made, directories, written⟩ := saved.saved
  have plain := dotDot_not_mem_path contained saved.safe
  obtain ⟨leads, other, rfl⟩ := write_spec plain written
  refine ⟨?_, plain, ?_, Function.update_self _ _ _, newlines⟩
  · refine ⟨pathNames (call.fileName env), ?_, path_of_contained contained⟩
    intro empty
    rw [path_of_contained contained, empty, List.append_nil] at other
    have stood := mkdirs_dir directories (by simp [evictionDir])
    rw [List.nil_append] at stood
    exact other stood
  · exact walk_of_keeps plain leads fun path stood => dir_of_write other stood

/-- A later call leaves the file, unless it saves another text under its path. -/
theorem Stands.perform (stands : Stands env sessionId tree produced)
    (contained : call.Evictable env sessionId → Contained env call)
    (distinct : call.Evictable env sessionId →
      call.path env sessionId = produced.pointer → call.text = produced.text) :
    Stands env sessionId (call.perform env sessionId tree).1 produced := by
  obtain kept | offloaded := perform_cases env sessionId tree call
  · exact stands.keeps kept.2
  · obtain ⟨made, directories, written⟩ := offloaded.2.saved
    have evictable := offloaded.2.evictable
    have plain := dotDot_not_mem_path (contained evictable) offloaded.2.safe
    have before : Stands env sessionId made produced :=
      stands.keeps fun path node stood => mkdirs_keeps directories stood
    obtain ⟨leads, other, after⟩ := write_spec plain written
    rw [after]
    refine ⟨before.below, before.plain, ?_, ?_, before.newlines⟩
    · exact walk_of_keeps before.plain before.leads fun path stood => dir_of_write other stood
    · by_cases same : produced.pointer = call.path env sessionId
      · rw [same, Function.update_self, distinct evictable same.symm]
      · rw [Function.update_of_ne same]
        exact before.holds

theorem Stands.performAll (stands : Stands env sessionId tree produced)
    (contained : ∀ call ∈ calls, call.Evictable env sessionId → Contained env call)
    (distinct : ∀ call ∈ calls, call.Evictable env sessionId →
      call.path env sessionId = produced.pointer → call.text = produced.text) :
    Stands env sessionId (performAll env sessionId tree calls).1 produced := by
  induction calls generalizing tree with
  | nil => exact stands
  | cons call calls ih =>
    have next := stands.perform (contained call List.mem_cons_self)
      (distinct call List.mem_cons_self)
    exact ih next (fun other member => contained other (List.mem_cons_of_mem _ member))
      fun other member => distinct other (List.mem_cons_of_mem _ member)

theorem Recoverable.tail (recoverable : Recoverable env sessionId (call :: calls)) :
    Recoverable env sessionId calls :=
  ⟨fun other member => recoverable.newlines other (List.mem_cons_of_mem _ member),
    fun other member => recoverable.contained other (List.mem_cons_of_mem _ member),
    (List.pairwise_cons.mp recoverable.distinct).2⟩

/-- In every run that meets none of the defects, every pointer produced so far can be followed. -/
theorem evicted_recoverable (env : EvictionEnv) (sessionId : List Char) (tree : FileTree)
    (calls : List EvictionCall) (recoverable : Recoverable env sessionId calls) :
    ∀ produced ∈ (performAll env sessionId tree calls).2,
      Recovers env sessionId (performAll env sessionId tree calls).1 produced := by
  induction calls generalizing tree with
  | nil =>
    intro produced member
    cases member
  | cons call calls ih =>
    intro produced member
    have later := ih (call.perform env sessionId tree).1 recoverable.tail
    have contained := recoverable.contained call List.mem_cons_self
    obtain kept | offloaded := perform_cases env sessionId tree call
    · rw [performAll] at member ⊢
      dsimp only at member ⊢
      rw [kept.1] at member
      exact later produced member
    · rw [performAll] at member ⊢
      dsimp only at member ⊢
      rw [offloaded.1] at member
      obtain first | rest := List.mem_cons.mp member
      · have evictable := offloaded.2.evictable
        have stands := stands_of_saved (contained evictable)
          (recoverable.newlines call List.mem_cons_self evictable) offloaded.2
        rw [first]
        apply Stands.recovers
        apply stands.performAll fun other member =>
          recoverable.contained other (List.mem_cons_of_mem _ member)
        intro other inside again same
        have distinct := (List.pairwise_cons.mp recoverable.distinct).1 other inside
        exact (distinct evictable again same.symm).symm
      · exact later produced rest

/-- The tree of a store with nothing in it, and a digest that does not matter. -/
def emptyStore : FileTree := fun path => if path = [] then some .dir else none

def storeEnv : EvictionEnv :=
  { sessionsDir := ["sessions".toList], digest := fun _ => "5d41402a".toList, resolved := by decide }

/-- A call with a tool result that is not a preview. -/
def resultCall (text : List Char) : EvictionCall :=
  .tool { content := .text text, toolCallId := "call_1".toList } { timeNs := 0, stamp := [] }

/-! ## A text with a carriage return -/

theorem length_intercalate_le (lines : List (List Char)) :
    (['\n'].intercalate lines).length ≤ lines.flatten.length + lines.length := by
  induction lines with
  | nil => simp
  | cons line lines ih =>
    cases lines with
    | nil => simp
    | cons next lines =>
      rw [List.intercalate_cons_cons, List.flatten_cons]
      simp only [List.length_append, List.length_cons, List.length_nil] at ih ⊢
      omega

theorem length_reverse_flatten (lines : List (List Char)) :
    lines.reverse.flatten.length = lines.flatten.length := by
  induction lines with
  | nil => rfl
  | cons line lines ih =>
    rw [List.reverse_cons, List.flatten_append, List.length_append, ih, List.flatten_cons,
      List.length_append]
    simp [Nat.add_comm]

/-- The budget of a side, with the one line that may overrun it. -/
def SideBounded (side : PreviewSide) : Prop :=
  side.used = side.kept.flatten.length ∧ side.used ≤ 10240 ∧ side.kept.length ≤ 5

theorem takePreviewSide_bounded {side : PreviewSide} (bounded : SideBounded side)
    (lines : List (List Char)) : SideBounded (takePreviewSide side lines) := by
  induction lines generalizing side with
  | nil => exact bounded
  | cons line lines ih =>
    obtain ⟨used, budget, count⟩ := bounded
    rw [takePreviewSide]
    split
    · exact ⟨used, budget, count⟩
    · rename_i more
      simp only [previewLines, previewSideMaxChars, not_or, Nat.not_le] at more
      apply ih
      refine ⟨by simp [used], ?_, ?_⟩
      · dsimp only
        split
        · rw [List.length_append, List.length_take, List.length_singleton]
          simp only [previewLineMaxChars]
          omega
        · rename_i short
          rw [decide_eq_true_eq, Nat.not_lt, previewLineMaxChars] at short
          omega
      · simp only [List.length_append, List.length_singleton]
        omega

theorem length_side_le (lines : List (List Char)) :
    (['\n'].intercalate (takePreviewSide {} lines).kept).length ≤ 10245 ∧
      (['\n'].intercalate (takePreviewSide {} lines).kept.reverse).length ≤ 10245 ∧
      (takePreviewSide {} lines).kept.length ≤ 5 := by
  have empty : SideBounded {} := ⟨rfl, by simp, by simp⟩
  obtain ⟨used, budget, count⟩ := takePreviewSide_bounded empty lines
  have joined := length_intercalate_le (takePreviewSide {} lines).kept
  have reversed := length_intercalate_le (takePreviewSide {} lines).kept.reverse
  rw [length_reverse_flatten, List.length_reverse] at reversed
  refine ⟨by omega, by omega, count⟩

theorem length_countText_le (n : Nat) (few : n ≤ 5) : (countText n).length ≤ 1 := by
  have digits : ∀ n < 6, (countText n).length ≤ 1 := by decide
  exact digits n (by omega)

/-- A preview is short whatever the text. -/
theorem length_buildPreview_le (content : List Char) (path : NamePath) (stamp : List Char)
    (closing : Bool → List Char) (bound : Nat) (closed : ∀ clipped, (closing clipped).length ≤ bound) :
    (buildPreview content path stamp closing).length ≤
      20700 + (pathText path).length + stamp.length + (countText content.length).length + bound := by
  have head := length_side_le ((FileTools.splitLines content).map lineBody)
  have tail := length_side_le ((FileTools.splitLines content).map lineBody).reverse
  unfold buildPreview
  dsimp only
  generalize takePreviewSide {} ((FileTools.splitLines content).map lineBody) = first at head ⊢
  generalize takePreviewSide {} ((FileTools.splitLines content).map lineBody).reverse = last
    at tail ⊢
  have midline : (if first.dropped || last.dropped then "...".toList else []).length ≤ 3 := by
    cases first.dropped || last.dropped <;> decide
  have opening := length_countText_le _ head.2.2
  have ending := length_countText_le _ tail.2.2
  have closed := closed (first.clipped || last.clipped)
  have fixed : evictionPrefix.length + "]\n--- head (".toList.length +
      " lines) ---\n".toList.length + "\n".toList.length + "\n--- tail (".toList.length +
      " lines) ---\n".toList.length + "\n[full content: ".toList.length +
      " chars, evicted at ".toList.length + "]\n\n".toList.length ≤ 200 := by
    decide +kernel
  simp only [List.length_append]
  omega

theorem length_midlineCutNote : midlineCutNote.length ≤ 400 := by
  unfold midlineCutNote
  repeat rw [String.toList_append]
  repeat rw [String.toList_ofList]
  decide +kernel

theorem length_cutNote_le (clipped : Bool) :
    (if clipped then "\n\n".toList ++ midlineCutNote else []).length ≤ 500 := by
  have long := length_midlineCutNote
  cases clipped
  · exact Nat.zero_le _
  · rw [if_pos rfl, List.length_append]
    have breaks : "\n\n".toList.length = 2 := by decide
    omega

theorem length_buildToolPreview_le (content : List Char) (path : NamePath) (stamp : List Char) :
    (buildToolPreview content path stamp).length ≤
      22000 + 2 * (pathText path).length + stamp.length + (countText content.length).length := by
  have closing (clipped : Bool) :
      ("Use read_file(file_path='".toList ++ pathText path ++
        "', offset=0, limit=100) to read the full content in chunks.".toList ++
        (if clipped then "\n\n".toList ++ midlineCutNote else []) ++ "]".toList).length ≤
      1000 + (pathText path).length := by
    have note := length_cutNote_le clipped
    have fixed : "Use read_file(file_path='".toList.length +
        "', offset=0, limit=100) to read the full content in chunks.".toList.length +
        "]".toList.length ≤ 200 := by
      repeat rw [String.toList_ofList]
      decide +kernel
    simp only [List.length_append]
    omega
  have bounded := length_buildPreview_le content path stamp _ _ closing
  unfold buildToolPreview
  omega

theorem length_countText_small (n : Nat) (few : n < 100000) : (countText n).length ≤ 5 := by
  have digits : countText n = Nat.toDigits 10 n := by simp [countText, toString]
  rw [digits]
  exact (Nat.length_toDigits_le_iff (by decide) (by decide)).mpr few

/-- The call of a long result evicts it, whatever the result is. -/
theorem resultCall_evictable (text : List Char) (long : 30000 < text.length)
    (short : text.length < 100000) (fresh : evictionPrefix.isPrefixOf text = false) :
    (resultCall text).Evictable storeEnv "main".toList := by
  have preview := length_buildToolPreview_le text
    ((resultCall text).path storeEnv "main".toList) []
  have digits := length_countText_small text.length short
  have path : (pathText ((resultCall text).path storeEnv "main".toList)).length ≤ 100 := by
    have closed : (pathText ((resultCall []).path storeEnv "main".toList)).length ≤ 100 := by
      decide +kernel
    exact closed
  have included : ([] : List Char) ∉ excludedTools := by decide
  have threshold : evictThresholdChars < text.length := Nat.lt_trans (by decide) long
  have worth : (buildToolPreview text ((resultCall text).path storeEnv "main".toList) []).length <
      text.length := by
    rw [List.length_nil] at preview
    omega
  exact ⟨⟨included, threshold, fresh⟩, worth, rfl⟩

theorem perform_of_saved {result : ToolResult} {moment : Moment}
    (safe : isSafeSessionSegment sessionId = true)
    (evictable : (EvictionCall.tool result moment).Evictable env sessionId)
    (saved : saveText tree (evictionDir env sessionId)
      ((EvictionCall.tool result moment).path env sessionId) (extractText result.content)
        moment.refused = some (after, true)) :
    (EvictionCall.tool result moment).perform env sessionId tree =
      (after, some ((EvictionCall.tool result moment).path env sessionId)) := by
  obtain ⟨⟨included, long, fresh⟩, worth, taken⟩ := evictable
  have admitted : ¬(excludedTools.contains result.name = true ∨
      (extractText result.content).length ≤ evictThresholdChars ∨
      evictionPrefix.isPrefixOf (extractText result.content) = true ∨
        isSafeSessionSegment sessionId = false) := by
    simp only [not_or, Nat.not_le, Bool.not_eq_true, Bool.not_eq_false]
    exact ⟨by simpa using included, long, fresh, safe⟩
  unfold EvictionCall.path EvictionCall.fileName at worth saved ⊢
  unfold EvictionCall.text at worth
  dsimp only at worth saved
  unfold EvictionCall.perform evictToolResult
  dsimp only
  rw [if_neg admitted, if_neg (Nat.not_le.mpr worth), saved]

/-- The one pointer of a long result. -/
theorem produced_resultCall
    (evictable : (resultCall text).Evictable storeEnv "main".toList) :
    ⟨(resultCall text).path storeEnv "main".toList, text⟩ ∈
      (performAll storeEnv "main".toList emptyStore [resultCall text]).2 := by
  rw [performAll]
  dsimp only
  unfold resultCall at evictable ⊢
  rw [perform_of_saved (by decide) evictable rfl]
  exact List.mem_cons_self

theorem evicted_recoverable_result :
    Recovers storeEnv "main".toList
      (performAll storeEnv "main".toList emptyStore [resultCall (List.replicate 40000 'a')]).1
      ⟨(resultCall (List.replicate 40000 'a')).path storeEnv "main".toList,
        List.replicate 40000 'a'⟩ := by
  apply evicted_recoverable
  · constructor
    · intro call member evictable returned
      rw [List.mem_singleton.mp member] at returned
      exact absurd (List.eq_of_mem_replicate returned) (by decide)
    · intro call member evictable
      rw [List.mem_singleton.mp member]
      constructor <;> decide +kernel
    · exact List.pairwise_singleton _ _
  · apply produced_resultCall
    apply resultCall_evictable
    · rw [List.length_replicate]
      decide
    · rw [List.length_replicate]
      decide
    · decide +kernel

/-- Calls for different messages: no two results share a call id, no two questions an id. -/
def EvictionCall.Differs : EvictionCall → EvictionCall → Prop
  | .tool first _, .tool second _ => first.toolCallId ≠ second.toolCallId
  | .human first _, .human second _ => first.id ≠ second.id
  | _, _ => True

/-- A result whose last line ends in a carriage return comes back with another ending. -/
theorem returns_translated :
    ¬ ∀ (env : EvictionEnv) (sessionId : List Char) (tree : FileTree) (calls : List EvictionCall),
      isSafeSessionSegment sessionId = true → calls.Pairwise EvictionCall.Differs →
      ∀ produced ∈ (performAll env sessionId tree calls).2,
        Recovers env sessionId (performAll env sessionId tree calls).1 produced := by
  intro recovers
  have line : ∃ rest : List Char, rest.length = 40000 ∧ '\r' ∈ rest := by
    refine ⟨List.replicate 39999 'a' ++ ['\r'], ?_, List.mem_append_right _ List.mem_cons_self⟩
    rw [List.length_append, List.length_replicate]
    rfl
  obtain ⟨rest, long, returned⟩ := line
  have evictable := resultCall_evictable ('a' :: rest) (by rw [List.length_cons, long]; omega)
    (by rw [List.length_cons, long]; omega) rfl
  have produced : ⟨(resultCall ('a' :: rest)).path storeEnv "main".toList, 'a' :: rest⟩ ∈
      (performAll storeEnv "main".toList emptyStore [resultCall ('a' :: rest)]).2 := by
    rw [performAll]
    dsimp only
    unfold resultCall at evictable ⊢
    rw [perform_of_saved (by decide) evictable rfl]
    exact List.mem_cons_self
  have recovered := recovers storeEnv "main".toList emptyStore [resultCall ('a' :: rest)]
    (by decide) (List.pairwise_singleton _ _) _ produced
  obtain ⟨written, _, same⟩ := Option.map_eq_some_iff.mp recovered.loads
  dsimp only at same
  have translated : '\r' ∉ 'a' :: rest := by
    rw [← same]
    exact not_mem_universalNewlines false
  exact translated (List.mem_cons_of_mem _ returned)

end SherryAgent.Guarantees.EvictedMessages
