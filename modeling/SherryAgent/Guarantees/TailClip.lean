import Mathlib.Algebra.Order.BigOperators.Group.List
import Mathlib.Algebra.Order.Ring.Int
import SherryAgent.Contracts.Texts
import SherryAgent.Source.Summarization.OverflowClip

/-!
# The overflow tail clip

- `tail_clip_iff`: the clip keeps the shape of the list and settles; the pointers survive exactly
  when every pointer of a clipped result is its first one
- `blank_pointer_hides`: a pointer line without a path in front of the eviction pointer
-/

namespace SherryAgent.Guarantees.TailClip

open SherryAgent.Source SherryAgent.Source.Transcript SherryAgent.Source.Summarization
open SherryAgent.Source.FileTools SherryAgent.Contracts.Texts

variable {config : ClipConfig} {messages out : List Message} {text : String} {target : Int}

/-- The path of a text's first pointer line; it may be empty. -/
def firstPointed (text : String) : Option String :=
  (textLines text.toList).findSome? pointedPath

/-- The evicted files that a text points to: the paths of its pointer lines. -/
def pointers (text : String) : List String :=
  ((textLines text.toList).filterMap pointedPath).filter (· ≠ "")

/-- The blocks of a content that are not text. -/
def nonText : Content → List Json
  | .text _ => []
  | .blocks items => items.filter fun block => !isTextual block

/-- A tool result may have another text; everything else is as before. -/
def SameBut : Message → Message → Prop
  | .tool before, .tool after =>
    after = { before with content := after.content } ∧ nonText after.content = nonText before.content
  | before, after => before = after

/-- The pointers and the slice notice of the old text are in the new one. -/
structure Carries (before after : String) : Prop where
  pointing : ∀ path ∈ pointers before, path ∈ pointers after
  notice : PyText.contains readFileSliceNotice before = true →
    PyText.contains readFileSliceNotice after = true

def Carried : Message → Message → Prop
  | .tool before, .tool after => Carries (contentJoined before.content) (contentJoined after.content)
  | _, _ => True

/-- What a clip returns: the shape, the part up to the last message that is no tool result, a list
that is not clipped again, and the way back to every shrunk result. -/
structure Sound (config : ClipConfig) (messages out : List Message) : Prop where
  shape : List.Forall₂ SameBut messages out
  preserved : ∀ front message tail, messages = front ++ message :: tail →
    (∀ result, message ≠ .tool result) → ∃ tail', out = front ++ message :: tail'
  settled : ∀ target, clipOverflowTail config out target = none
  carried : List.Forall₂ Carried messages out

/-! ## The results that are clipped -/

/-- The results of the trailing batch that a stub would shrink, newest first. -/
def shrinkable (config : ClipConfig) : List Message → List ToolMessage
  | .tool message :: older =>
    if PyText.contains clipMarker (contentJoined message.content) then []
    else if (stubbed config message).isSome then message :: shrinkable config older
    else shrinkable config older
  | _ => []

/-- The tokens that the stubs of the results free. -/
def freedTokens (config : ClipConfig) (results : List ToolMessage) : Int :=
  (results.map fun message =>
    (toolTokens config message : Int) - toolTokens config (stubOf message)).sum

/-- The pass goes on: the limit and the target are not reached. -/
def GoesOn (config : ClipConfig) (target freed : Int) (clipped : Nat) : Prop :=
  clipped < config.maxRemove ∧ (0 < target → freed < target)

/-- The result is clipped: the pass is on, the transcript is long enough, and the newer results do not
reach the limit or the target. -/
def Taken (config : ClipConfig) (messages : List Message) (target : Int) (message : ToolMessage) :
    Prop :=
  config.enabled = true ∧ config.minKeep < messages.length ∧
  ∃ newer older, shrinkable config messages.reverse = newer ++ message :: older ∧
    GoesOn config target (freedTokens config newer) newer.length

/-! ## The text of a stub -/

theorem plain_of_mem_textLines {line : List Char} {text : List Char} (member : line ∈ textLines text) :
    Plain line := by
  obtain ⟨whole, -, rfl⟩ := List.mem_map.mp member
  intro c inside
  have kept := List.mem_takeWhile_imp inside
  simpa using kept

theorem takeWhile_plain {line : List Char} (plain : Plain line) (rest : List Char) :
    (line ++ '\n' :: rest).takeWhile (fun c => !isLineBreak c) = line := by
  have all : ∀ c ∈ line, (!isLineBreak c) = true := fun c member => by simp [plain c member]
  rw [List.takeWhile_append_of_pos all]
  have stops : (!isLineBreak '\n') = false := by decide
  simp [stops]

theorem textLines_newline {line : List Char} (plain : Plain line) (rest : List Char) :
    textLines (line ++ '\n' :: rest) = line :: textLines rest := by
  unfold textLines splitLines
  rw [splitLinesFrom_newline plain, List.map_cons, List.nil_append, takeWhile_plain plain]

theorem textLines_last {line : List Char} (plain : Plain line) (nonempty : line ≠ []) :
    textLines line = [line] := by
  have all : ∀ c ∈ line, (!isLineBreak c) = true := fun c member => by simp [plain c member]
  unfold textLines splitLines
  rw [splitLinesFrom_line plain, List.nil_append, if_neg (by simpa using nonempty), List.map_singleton,
    List.takeWhile_eq_self_iff.mpr all]

theorem pointedPath_stripped {line : List Char} {path : String} (found : pointedPath line = some path) :
    PyText.strip path = path := by
  unfold pointedPath at found
  split at found
  · obtain rfl := Option.some.inj found
    exact strip_strip _
  · cases found

theorem pointedPath_plain {line : List Char} {path : String} (plain : Plain line)
    (found : pointedPath line = some path) : Plain path.toList := by
  unfold pointedPath at found
  split at found
  · obtain rfl := Option.some.inj found
    intro c member
    have inside := mem_strip member
    rw [String.toList_ofList] at inside
    unfold withoutBracket at inside
    split at inside
    · exact plain c (List.mem_of_mem_drop (List.mem_of_mem_dropLast inside))
    · exact plain c (List.mem_of_mem_drop inside)
  · cases found

theorem pointedPath_pointer {path : String} (stripped : PyText.strip path = path) :
    pointedPath (evictionPrefix.toList ++ path.toList ++ [']']) = some path := by
  unfold pointedPath
  rw [if_pos]
  · rw [List.append_assoc, List.drop_left, withoutBracket, if_pos (by simp), List.dropLast_concat,
      String.ofList_toList, stripped]
  · rw [List.isPrefixOf_iff_prefix, List.append_assoc]
    exact List.prefix_append _ _

theorem evictedPath_some {path : String} (found : evictedPath text = some path) :
    path ≠ "" ∧ PyText.strip path = path ∧ Plain path.toList := by
  unfold evictedPath at found
  split at found
  · rename_i first pointed
    split at found
    · cases found
    · rename_i nonempty
      obtain rfl := Option.some.inj found
      obtain ⟨line, member, named⟩ := List.exists_of_findSome?_eq_some pointed
      exact ⟨nonempty, pointedPath_stripped named,
        pointedPath_plain (plain_of_mem_textLines member) named⟩
  · cases found

theorem pointedPath_of_second {c d : Char} {line : List Char} (other : d ≠ 'e') :
    pointedPath (c :: d :: line) = none := by
  have apart : evictionPrefix.toList.isPrefixOf (c :: d :: line) = false := by
    have spelled : evictionPrefix.toList = '[' :: 'e' :: "victed to: ".toList := by decide
    rw [spelled]
    simp [List.isPrefixOf, Ne.symm other]
  rw [pointedPath, if_neg (by simp [apart])]

/-- The lines of a stub between its head and its slice notice. -/
def pointerLines (text : String) : List (List Char) :=
  match evictedPath text with
  | some path => [evictionPrefix.toList ++ path.toList ++ [']'], (readFileHint path).toList]
  | none => []

def noticeLines (text : String) : List (List Char) :=
  if PyText.contains readFileSliceNotice text then [readFileSliceNotice.toList] else []

theorem plain_stubHead (chars : Nat) : Plain (stubHead chars).toList := by
  unfold stubHead
  simp only [String.toList_append]
  have front : Plain (clipMarker.toList ++ " tool result shrunk from ".toList) :=
    (plain_ofList (by decide)).append (plain_ofList (by decide))
  exact ((front.append (plain_digits chars)).append (plain_ofList (by decide))).append
    (plain_ofList (by decide))

theorem plain_hint {path : String} (plain : Plain path.toList) :
    Plain (readFileHint path).toList := by
  unfold readFileHint
  rw [String.toList_append, String.toList_append]
  exact ((plain_ofList (by decide)).append plain).append (plain_ofList (by decide))

theorem readFileHint_ne_nil (path : String) : (readFileHint path).toList ≠ [] := by
  have first : 'U' ∈ "Use read_file(file_path='".toList := by decide
  have member : 'U' ∈ (readFileHint path).toList := by
    unfold readFileHint
    simp only [String.toList_append, List.mem_append]
    exact .inl (.inl first)
  exact List.ne_nil_of_mem member

theorem stubHead_ne_nil (chars : Nat) : (stubHead chars).toList ≠ [] := by
  have first : 'o' ∈ clipMarker.toList := by decide
  have member : 'o' ∈ (stubHead chars).toList := by
    unfold stubHead
    simp only [String.toList_append, List.mem_append]
    exact .inl (.inl (.inl (.inl first)))
  exact List.ne_nil_of_mem member

theorem plain_pointer {path : String} (plain : Plain path.toList) :
    Plain (evictionPrefix.toList ++ path.toList ++ [']']) :=
  (Plain.append (plain_of_all (by decide)) plain).append (plain_of_all (by decide))

theorem plain_notice : Plain readFileSliceNotice.toList := by
  unfold readFileSliceNotice
  rw [String.toList_append]
  exact (plain_ofList (by decide)).append (plain_ofList (by decide))

theorem notice_spelled : ∃ rest, readFileSliceNotice.toList = '[' :: 'O' :: rest := by
  unfold readFileSliceNotice
  rw [String.toList_append]
  exact ⟨_, congrArg (· ++ _) String.toList_ofList⟩

/-- The head, the pointer with its hint and the notice, each on lines of its own. -/
theorem textLines_stub (text : String) : textLines (buildStubText text).toList =
    (stubHead text.toList.length).toList :: (pointerLines text ++ noticeLines text) := by
  have head := plain_stubHead text.toList.length
  have notice_lines : textLines readFileSliceNotice.toList = [readFileSliceNotice.toList] :=
    textLines_last plain_notice (by
      obtain ⟨rest, spelled⟩ := notice_spelled
      rw [spelled]
      exact List.cons_ne_nil _ _)
  have newline : "\n".toList = ['\n'] := rfl
  unfold buildStubText pointerLines noticeLines
  cases found : evictedPath text with
  | none =>
    split
    · simp only [Option.map_none, Option.getD_none, String.append_empty, String.toList_append,
        newline, List.singleton_append, List.nil_append]
      rw [textLines_newline head, notice_lines]
    · simp only [Option.map_none, Option.getD_none, String.append_empty, List.nil_append]
      exact textLines_last head (stubHead_ne_nil _)
  | some path =>
    obtain ⟨-, -, plain⟩ := evictedPath_some found
    have bracket : "]\n".toList = [']', '\n'] := by decide
    split
    · have whole : (stubHead text.toList.length ++ ((some path).map stubPointer).getD "" ++
          ("\n" ++ readFileSliceNotice)).toList = (stubHead text.toList.length).toList ++ ('\n' ::
            (evictionPrefix.toList ++ path.toList ++ [']'] ++ ('\n' ::
              ((readFileHint path).toList ++ ('\n' :: readFileSliceNotice.toList))))) := by
        simp [stubPointer, newline, bracket]
      rw [whole, textLines_newline head, textLines_newline (plain_pointer plain),
        textLines_newline (plain_hint plain), notice_lines]
      rfl
    · have whole : (stubHead text.toList.length ++ ((some path).map stubPointer).getD "" ++
          "").toList = (stubHead text.toList.length).toList ++ ('\n' ::
            (evictionPrefix.toList ++ path.toList ++ [']'] ++ ('\n' ::
              (readFileHint path).toList))) := by
        simp [stubPointer, newline, bracket]
      rw [whole, textLines_newline head, textLines_newline (plain_pointer plain),
        textLines_last (plain_hint plain) (readFileHint_ne_nil path)]
      rfl

/-- A stub points to the file of the old text's first pointer line and to no other. -/
theorem pointers_stub (text : String) :
    pointers (buildStubText text) = (evictedPath text).toList := by
  have head : pointedPath (stubHead text.toList.length).toList = none := by
    have spelled : clipMarker.toList = '[' :: 'o' :: "verflow-clip]".toList := by decide
    unfold stubHead
    simp only [String.toList_append, spelled, List.cons_append]
    exact pointedPath_of_second (by decide)
  have notice : (noticeLines text).filterMap pointedPath = [] := by
    unfold noticeLines
    obtain ⟨rest, spelled⟩ := notice_spelled
    split
    · rw [List.filterMap_cons, spelled, pointedPath_of_second (by decide)]
      rfl
    · rfl
  unfold pointers
  rw [textLines_stub, List.filterMap_cons, head, List.filterMap_append, notice, List.append_nil]
  unfold pointerLines
  cases found : evictedPath text with
  | none => rfl
  | some path =>
    obtain ⟨nonempty, stripped, -⟩ := evictedPath_some found
    have hint : pointedPath (readFileHint path).toList = none := by
      have spelled : "Use read_file(file_path='".toList = 'U' :: 's' ::
        "e read_file(file_path='".toList := by decide
      unfold readFileHint
      rw [String.toList_append, String.toList_append, spelled]
      exact pointedPath_of_second (by decide)
    change ([evictionPrefix.toList ++ path.toList ++ [']'], (readFileHint path).toList].filterMap
      pointedPath).filter (· ≠ "") = [path]
    rw [List.filterMap_cons, pointedPath_pointer stripped, List.filterMap_cons, hint]
    simp [nonempty]

theorem contentJoined_stub (message : ToolMessage) :
    contentJoined (stubOf message).content = buildStubText (contentJoined message.content) := by
  have other : ∀ block, isTextual block = false → blockText block = none := by
    intro block apart
    cases block with
    | obj fields =>
      simp only [isTextual] at apart
      simp [blockText, apart]
    | str value => cases apart
    | _ => rfl
  unfold stubOf stubContent
  cases message.content with
  | text value => rfl
  | blocks items =>
    have rest : (items.filter fun block => !isTextual block).filterMap blockText = [] := by
      rw [List.filterMap_eq_nil_iff]
      intro block member
      apply other
      simpa using (List.mem_filter.mp member).2
    simp only [contentJoined]
    rw [List.filterMap_cons, rest]
    rfl

theorem marked_stub (message : ToolMessage) :
    PyText.contains clipMarker (contentJoined (stubOf message).content) = true := by
  rw [contentJoined_stub, contains_iff]
  unfold buildStubText stubHead
  simp only [String.toList_append, List.append_assoc]
  exact (List.prefix_append _ _).isInfix

/-- A stub carries what the old text had exactly when the first pointer line names every file. -/
theorem carries_stub (text : String) : Carries text (buildStubText text) ↔
    ∀ path ∈ pointers text, firstPointed text = some path := by
  have notice : PyText.contains readFileSliceNotice text = true →
      PyText.contains readFileSliceNotice (buildStubText text) = true := by
    intro cut
    rw [contains_iff]
    unfold buildStubText
    rw [if_pos cut]
    simp only [String.toList_append]
    exact ((List.suffix_append _ _).trans (List.suffix_append _ _)).isInfix
  have nonempty : ∀ path ∈ pointers text, path ≠ "" := by
    intro path member
    simpa using (List.mem_filter.mp member).2
  have first : ∀ path, path ≠ "" →
      (path ∈ pointers (buildStubText text) ↔ firstPointed text = some path) := by
    intro path filled
    rw [pointers_stub, Option.mem_toList, evictedPath, ← firstPointed]
    cases firstPointed text with
    | none => simp
    | some found =>
      by_cases blank : found = ""
      · simp [blank, Ne.symm filled]
      · simp [blank]
  constructor
  · intro carries path member
    exact (first path (nonempty path member)).mp (carries.pointing path member)
  · intro named
    exact ⟨fun path member => (first path (nonempty path member)).mpr (named path member), notice⟩

/-! ## The loop -/

theorem stubbed_eq_some {message stub : ToolMessage} (shrunk : stubbed config message = some stub) :
    stub = stubOf message ∧ toolTokens config (stubOf message) < toolTokens config message := by
  unfold stubbed at shrunk
  split at shrunk
  · cases shrunk
  · exact ⟨(Option.some.inj shrunk).symm, by omega⟩

theorem shrinkable_shrinks {reversed : List Message} {message : ToolMessage}
    (member : message ∈ shrinkable config reversed) :
    toolTokens config (stubOf message) < toolTokens config message := by
  induction reversed using shrinkable.induct config with
  | case1 newest older marked => simp [shrinkable, marked] at member
  | case2 newest older unmarked shrinks ih =>
    rw [shrinkable, if_neg unmarked, if_pos shrinks, List.mem_cons] at member
    obtain ⟨stub, some_stub⟩ := Option.isSome_iff_exists.mp shrinks
    cases member with
    | inl same => exact same ▸ (stubbed_eq_some some_stub).2
    | inr inside => exact ih inside
  | case3 newest older unmarked stays ih =>
    rw [shrinkable, if_neg unmarked, if_neg stays] at member
    exact ih member
  | case4 reversed other =>
    rw [shrinkable] at member
    · cases member
    · exact other

theorem freedTokens_nonneg {results : List ToolMessage}
    (shrinks : ∀ message ∈ results, toolTokens config (stubOf message) < toolTokens config message) :
    0 ≤ freedTokens config results := by
  apply List.sum_nonneg
  intro freed member
  obtain ⟨message, inside, rfl⟩ := List.mem_map.mp member
  have less := shrinks message inside
  omega

theorem freedTokens_cons (message : ToolMessage) (results : List ToolMessage) :
    freedTokens config (message :: results) =
      (toolTokens config message : Int) - toolTokens config (stubOf message) +
        freedTokens config results := rfl

/-- The loop relates the list to its output when it does so for every result it clips. -/
theorem clipFrom_forall₂ {keeps : Message → Message → Prop} (same : ∀ message, keeps message message)
    {freed : Int} {clipped : Nat} {reversed : List Message}
    (goes_on : GoesOn config target freed clipped) :
    List.Forall₂ keeps reversed (clipFrom config target freed clipped reversed).1 ↔
      ∀ newer message older, shrinkable config reversed = newer ++ message :: older →
        GoesOn config target (freed + freedTokens config newer) (clipped + newer.length) →
        keeps (.tool message) (.tool (stubOf message)) := by
  have all_same : ∀ messages : List Message, List.Forall₂ keeps messages messages :=
    fun messages => List.forall₂_same.mpr fun message _ => same message
  induction freed, clipped, reversed using clipFrom.induct config target with
  | case1 freed clipped newest older marked =>
    simp only [clipFrom, shrinkable, marked, if_true, all_same, true_iff]
    intro newer message rest split_at
    simp at split_at
  | case2 freed clipped newest older unmarked stays ih =>
    simp only [clipFrom, shrinkable, unmarked, stays, Option.isSome_none, Bool.false_eq_true,
      if_false, List.forall₂_cons, same, true_and]
    exact ih goes_on
  | case3 freed clipped newest older unmarked stub shrinks freedNow stops =>
    obtain ⟨rfl, less⟩ := stubbed_eq_some shrinks
    have listed : shrinkable config (.tool newest :: older) =
        newest :: shrinkable config older := by
      simp only [shrinkable, unmarked, shrinks, Option.isSome_some, Bool.false_eq_true, if_true,
        if_false]
    have result : clipFrom config target freed clipped (.tool newest :: older) =
        (.tool (stubOf newest) :: older, true) := by
      simp only [clipFrom, unmarked, shrinks, Bool.false_eq_true, if_false]
      exact if_pos stops
    rw [result, listed]
    simp only [List.forall₂_cons, all_same, and_true]
    constructor
    · intro first newer message rest split_at more
      cases newer with
      | nil =>
        obtain ⟨rfl, -⟩ := List.cons.inj split_at
        exact first
      | cons leading newer =>
        obtain ⟨rfl, later⟩ := List.cons.inj split_at
        have rest_nonneg : 0 ≤ freedTokens config newer := by
          apply freedTokens_nonneg
          intro result member
          have inside : result ∈ shrinkable config older := by
            rw [later]
            exact List.mem_append_left _ member
          exact shrinkable_shrinks inside
        rw [freedTokens_cons, List.length_cons] at more
        obtain ⟨room, short⟩ := more
        cases stops with
        | inl full => omega
        | inr reached =>
          have within := short reached.1
          have enough := reached.2
          change target ≤ freed + _ at enough
          omega
    · intro every
      exact every [] newest _ rfl (by simpa [freedTokens] using goes_on)
  | case4 freed clipped newest older unmarked stub shrinks freedNow more ih =>
    obtain ⟨rfl, less⟩ := stubbed_eq_some shrinks
    have listed : shrinkable config (.tool newest :: older) =
        newest :: shrinkable config older := by
      simp only [shrinkable, unmarked, shrinks, Option.isSome_some, Bool.false_eq_true, if_true,
        if_false]
    have result : clipFrom config target freed clipped (.tool newest :: older) =
        (.tool (stubOf newest) :: (clipFrom config target freedNow (clipped + 1) older).1, true) := by
      simp only [clipFrom, unmarked, shrinks, Bool.false_eq_true, if_false]
      exact if_neg more
    have continues : GoesOn config target freedNow (clipped + 1) := by
      unfold GoesOn
      constructor
      · omega
      · intro positive
        by_contra reached
        exact more (.inr ⟨positive, by omega⟩)
    have total : ∀ newer : List ToolMessage, freed + freedTokens config (newest :: newer) =
        freedNow + freedTokens config newer := by
      intro newer
      rw [freedTokens_cons, ← add_assoc]
    have inner : _ ↔ _ := ih continues
    rw [result, listed, List.forall₂_cons, inner]
    constructor
    · intro both newer message rest split_at room
      cases newer with
      | nil =>
        obtain ⟨rfl, -⟩ := List.cons.inj split_at
        exact both.1
      | cons leading newer =>
        obtain ⟨rfl, later⟩ := List.cons.inj split_at
        rw [total, List.length_cons] at room
        apply both.2 newer message rest later
        rwa [Nat.add_right_comm]
    · intro every
      constructor
      · exact every [] newest _ rfl (by simpa [freedTokens] using goes_on)
      · intro newer message rest split_at room
        apply every (newest :: newer) message rest (by rw [split_at, List.cons_append])
        rwa [total, List.length_cons, Nat.add_comm newer.length, ← Nat.add_assoc]
  | case5 freed clipped messages other =>
    have nothing : shrinkable config messages = [] := by
      rw [shrinkable]
      exact other
    have result : clipFrom config target freed clipped messages = (messages, false) := by
      rw [clipFrom]
      exact other
    rw [result, nothing]
    simp only [all_same, true_iff]
    intro newer message rest split_at
    simp at split_at

/-- The first stub ends a second pass. -/
theorem clipFrom_again {target' freed freed' : Int} {clipped clipped' : Nat}
    {reversed : List Message} (changed : (clipFrom config target freed clipped reversed).2 = true) :
    (clipFrom config target' freed' clipped' (clipFrom config target freed clipped reversed).1).2 =
      false := by
  induction freed, clipped, reversed using clipFrom.induct config target with
  | case1 freed clipped newest older marked =>
    simp only [clipFrom, marked, if_true] at changed
    cases changed
  | case2 freed clipped newest older unmarked stays ih =>
    simp only [clipFrom, unmarked, stays, Bool.false_eq_true, if_false] at changed ⊢
    exact ih changed
  | case3 freed clipped newest older unmarked stub shrinks freedNow stops =>
    have result : clipFrom config target freed clipped (.tool newest :: older) =
        (.tool stub :: older, true) := by
      simp only [clipFrom, unmarked, shrinks, Bool.false_eq_true, if_false]
      exact if_pos stops
    rw [result, (stubbed_eq_some shrinks).1]
    simp only [clipFrom, marked_stub, if_true]
  | case4 freed clipped newest older unmarked stub shrinks freedNow more ih =>
    have result : clipFrom config target freed clipped (.tool newest :: older) =
        (.tool stub :: (clipFrom config target freedNow (clipped + 1) older).1, true) := by
      simp only [clipFrom, unmarked, shrinks, Bool.false_eq_true, if_false]
      exact if_neg more
    rw [result, (stubbed_eq_some shrinks).1]
    simp only [clipFrom, marked_stub, if_true]
  | case5 freed clipped messages other =>
    rw [clipFrom] at changed
    · cases changed
    · exact other

theorem clipFrom_other {message : Message} (other : ∀ result, message ≠ .tool result)
    (freed : Int) (clipped : Nat) (older : List Message) :
    clipFrom config target freed clipped (message :: older) = (message :: older, false) := by
  rw [clipFrom]
  intro result rest same
  exact other result (List.cons.inj same).1

/-- The loop stops at a message that is no tool result. -/
theorem clipFrom_suffix {message : Message} (other : ∀ result, message ≠ .tool result)
    (older : List Message) (newer : List Message) (freed : Int) (clipped : Nat) :
    ∃ newer', (clipFrom config target freed clipped (newer ++ message :: older)).1 =
      newer' ++ message :: older := by
  induction newer generalizing freed clipped with
  | nil =>
    exact ⟨[], by rw [List.nil_append, clipFrom_other other]⟩
  | cons newest newer ih =>
    cases newest with
    | tool result =>
      rw [List.cons_append, clipFrom]
      split
      · exact ⟨.tool result :: newer, rfl⟩
      · split
        · obtain ⟨newer', rest⟩ := ih freed clipped
          exact ⟨.tool result :: newer', by rw [List.cons_append, ← rest]⟩
        · rename_i stub _
          dsimp only
          split
          · exact ⟨.tool stub :: newer, rfl⟩
          · obtain ⟨newer', rest⟩ := ih (freed + (toolTokens config result - toolTokens config stub))
              (clipped + 1)
            exact ⟨.tool stub :: newer', by rw [List.cons_append, ← rest]⟩
    | plain newest =>
      exact ⟨.plain newest :: newer, by rw [List.cons_append, clipFrom_other (by simp)]⟩
    | ai newest =>
      exact ⟨.ai newest :: newer, by rw [List.cons_append, clipFrom_other (by simp)]⟩

/-! ## The whole pass -/

theorem clipFrom_changed (freed : Int) (clipped : Nat) (reversed : List Message) :
    (clipFrom config target freed clipped reversed).2 = true ↔ shrinkable config reversed ≠ [] := by
  induction freed, clipped, reversed using clipFrom.induct config target with
  | case1 freed clipped newest older marked =>
    simp only [clipFrom, shrinkable, marked, if_true, Bool.false_eq_true, ne_eq, not_true_eq_false]
  | case2 freed clipped newest older unmarked stays ih =>
    simp only [clipFrom, shrinkable, unmarked, stays, Option.isSome_none, Bool.false_eq_true,
      if_false]
    exact ih
  | case3 freed clipped newest older unmarked stub shrinks freedNow stops =>
    simp only [clipFrom, shrinkable, unmarked, shrinks, Option.isSome_some, Bool.false_eq_true,
      if_false, if_true]
    rw [if_pos stops]
    simp
  | case4 freed clipped newest older unmarked stub shrinks freedNow more ih =>
    simp only [clipFrom, shrinkable, unmarked, shrinks, Option.isSome_some, Bool.false_eq_true,
      if_false, if_true]
    rw [if_neg more]
    simp
  | case5 freed clipped messages other =>
    have nothing : shrinkable config messages = [] := by
      rw [shrinkable]
      exact other
    rw [nothing, clipFrom]
    · simp
    · exact other

theorem clipOverflowTail_eq_some : clipOverflowTail config messages target = some out ↔
    config.enabled = true ∧ config.minKeep < messages.length ∧ 0 < config.maxRemove ∧
      shrinkable config messages.reverse ≠ [] ∧
      out = (clipFrom config target 0 0 messages.reverse).1.reverse := by
  rw [← @clipFrom_changed config target 0 0]
  unfold clipOverflowTail
  split
  · simp_all
  · split
    · simp_all
      omega
    · rename_i enabled limits
      have on : config.enabled = true := by simpa using enabled
      have long : config.minKeep < messages.length := by omega
      have allowed : 0 < config.maxRemove := by omega
      dsimp only
      split
      · rename_i changed
        simp only [Option.some.injEq, on, long, allowed, changed, true_and]
        exact eq_comm
      · simp_all

theorem sameBut_self (message : Message) : SameBut message message := by
  cases message with
  | tool result => exact ⟨rfl, rfl⟩
  | _ => rfl

theorem sameBut_stub (message : ToolMessage) :
    SameBut (.tool message) (.tool (stubOf message)) := by
  constructor
  · rfl
  · unfold stubOf stubContent
    cases message.content with
    | text value => rfl
    | blocks items =>
      simp only [nonText, List.filter_cons, List.filter_filter, Bool.and_self]
      rfl

theorem carried_self (message : Message) : Carried message message := by
  cases message with
  | tool result => exact ⟨fun path member => member, fun cut => cut⟩
  | _ => trivial

/-- The clip relates a transcript to its output when it does so for every result it clips. -/
theorem clip_forall₂ {keeps : Message → Message → Prop} (same : ∀ message, keeps message message)
    (clips : clipOverflowTail config messages target = some out) :
    List.Forall₂ keeps messages out ↔ ∀ message, Taken config messages target message →
      keeps (.tool message) (.tool (stubOf message)) := by
  obtain ⟨on, long, allowed, -, rfl⟩ := clipOverflowTail_eq_some.mp clips
  have start : GoesOn config target 0 0 := ⟨allowed, fun positive => positive⟩
  rw [← List.forall₂_reverse_iff, List.reverse_reverse, clipFrom_forall₂ same start]
  simp only [zero_add, Taken, on, long, true_and]
  constructor
  · rintro every message ⟨newer, older, listed, room⟩
    exact every newer message older listed room
  · intro every newer message older listed room
    exact every message ⟨newer, older, listed, room⟩

theorem carried_stub {message : ToolMessage} : Carried (.tool message) (.tool (stubOf message)) ↔
    ∀ path ∈ pointers (contentJoined message.content),
      firstPointed (contentJoined message.content) = some path := by
  rw [Carried, contentJoined_stub, carries_stub]

theorem clips_of_taken {message : ToolMessage} (taken : Taken config messages target message) :
    ∃ out, clipOverflowTail config messages target = some out := by
  obtain ⟨on, long, newer, older, listed, room⟩ := taken
  have allowed : 0 < config.maxRemove := Nat.zero_lt_of_lt room.1
  exact ⟨_, clipOverflowTail_eq_some.mpr ⟨on, long, allowed, by simp [listed], rfl⟩⟩

/-- The clip is sound exactly when the first pointer line of every result it clips names every file
that the result points to. -/
theorem tail_clip_iff (config : ClipConfig) (messages : List Message) (target : Int) :
    (∀ out, clipOverflowTail config messages target = some out → Sound config messages out) ↔
      ∀ message, Taken config messages target message →
        ∀ path ∈ pointers (contentJoined message.content),
          firstPointed (contentJoined message.content) = some path := by
  constructor
  · intro sound message taken
    obtain ⟨out, clips⟩ := clips_of_taken taken
    exact carried_stub.mp ((clip_forall₂ carried_self clips).mp (sound out clips).carried message taken)
  · intro named out clips
    have whole := clipOverflowTail_eq_some.mp clips
    obtain ⟨on, long, allowed, some_result, output⟩ := whole
    constructor
    · exact (clip_forall₂ sameBut_self clips).mpr fun message _ => sameBut_stub message
    · rintro front message tail rfl other
      obtain ⟨newer, suffix⟩ := @clipFrom_suffix config target message other front.reverse
        tail.reverse 0 0
      refine ⟨newer.reverse, ?_⟩
      rw [output, List.reverse_append, List.reverse_cons, List.append_assoc, List.singleton_append,
        suffix]
      simp
    · intro target'
      have again : (clipFrom config target' 0 0 out.reverse).2 = false := by
        rw [output, List.reverse_reverse]
        exact clipFrom_again ((clipFrom_changed 0 0 _).mpr some_result)
      by_contra clipped
      obtain ⟨out', clips'⟩ := Option.ne_none_iff_exists'.mp clipped
      have changed := (@clipFrom_changed config target' 0 0 _).mpr
        (clipOverflowTail_eq_some.mp clips').2.2.2.1
      rw [again] at changed
      cases changed
    · exact (clip_forall₂ carried_self clips).mpr fun message taken =>
        carried_stub.mpr (named message taken)

/-! ## A pointer line without a path -/

def clipConfig : ClipConfig :=
  { enabled := true, minKeep := 5, maxRemove := 10, estimateText := estimateTextTokens
    str := Json.pyStr }

/-- A pointer line without a path and the pointer line of an evicted result. -/
def pointerHead : List Char := "[evicted to: ]\n[evicted to: /s/1]\n".toList

def pointedText (n : Nat) : String := String.ofList (pointerHead ++ List.replicate n 'a')

theorem mem_pointedText {n : Nat} {c : Char} (member : c ∈ (pointedText n).toList) :
    c ∈ pointerHead ∨ c = 'a' := by
  rw [pointedText, String.toList_ofList, List.mem_append] at member
  exact member.imp_right List.eq_of_mem_replicate

theorem pointedPaths (n : Nat) :
    (textLines (pointedText n).toList).filterMap pointedPath =
      "" :: "/s/1" :: (textLines (List.replicate n 'a')).filterMap pointedPath := by
  have spelled : pointerHead = "[evicted to: ]".toList ++ '\n' ::
      ("[evicted to: /s/1]".toList ++ ['\n']) := by decide
  have blank : pointedPath "[evicted to: ]".toList = some "" := by decide +kernel
  have named : pointedPath "[evicted to: /s/1]".toList = some "/s/1" := by decide +kernel
  rw [pointedText, String.toList_ofList, spelled]
  simp only [List.append_assoc, List.cons_append, List.nil_append]
  rw [textLines_newline (plain_of_all (by decide)), textLines_newline (plain_of_all (by decide)),
    List.filterMap_cons, blank, List.filterMap_cons, named]

theorem mem_pointers_pointedText (n : Nat) : "/s/1" ∈ pointers (pointedText n) := by
  rw [pointers, pointedPaths]
  simp

theorem firstPointed_pointedText (n : Nat) : firstPointed (pointedText n) = some "" := by
  rw [firstPointed, ← List.head?_filterMap, pointedPaths]
  rfl

theorem not_contains_pointedText {needle : String} {c : Char} (letter : c ∈ needle.toList)
    (absent : c ∉ 'a' :: pointerHead) (n : Nat) :
    PyText.contains needle (pointedText n) = false := by
  rw [Bool.eq_false_iff, ne_eq, contains_iff]
  intro inside
  rw [List.mem_cons, not_or] at absent
  cases mem_pointedText (inside.subset letter) with
  | inl front => exact absent.2 front
  | inr same => exact absent.1 same

theorem unmarked_pointedText (n : Nat) : PyText.contains clipMarker (pointedText n) = false := by
  have letter : 'w' ∈ clipMarker.toList := by decide
  exact not_contains_pointedText letter (by decide) n

theorem uncut_pointedText (n : Nat) :
    PyText.contains readFileSliceNotice (pointedText n) = false := by
  obtain ⟨rest, spelled⟩ := notice_spelled
  have letter : 'O' ∈ readFileSliceNotice.toList := by simp [spelled]
  exact not_contains_pointedText letter (by decide) n

theorem estimateTextTokens_le (text : String) : estimateTextTokens text ≤ text.toList.length := by
  have part : countCjk text ≤ text.toList.length := List.countP_le_length
  unfold estimateTextTokens charsPerTokenCjk charsPerToken
  omega

theorem estimateTextTokens_pointedText (n : Nat) :
    estimateTextTokens (pointedText n) = (pointerHead.length + n) / charsPerToken := by
  have plain : countCjk (pointedText n) = 0 := by
    rw [countCjk, List.countP_eq_zero]
    intro c member
    cases mem_pointedText member with
    | inl front =>
      have all : pointerHead.all (fun c => !isCjkCodepoint c.toNat) = true := by decide
      simpa using List.all_eq_true.mp all c front
    | inr same => subst same; decide
  rw [estimateTextTokens, plain, pointedText, String.toList_ofList, List.length_append,
    List.length_replicate]
  simp

theorem stub_pointedText (n : Nat) :
    buildStubText (pointedText n) = stubHead (pointerHead.length + n) := by
  have nothing : evictedPath (pointedText n) = none := by
    have first := firstPointed_pointedText n
    unfold firstPointed at first
    unfold evictedPath
    rw [first]
    rfl
  rw [buildStubText, nothing, if_neg (by simp [uncut_pointedText]), pointedText,
    String.toList_ofList, List.length_append, List.length_replicate]
  simp

theorem length_stubHead : (stubHead 1000).toList.length < 200 := by
  have sized : ∀ letters : List Char, (String.ofList letters).toList.length = letters.length :=
    fun letters => congrArg List.length String.toList_ofList
  have digits : (toString 1000).toList.length = 4 := by decide
  unfold stubHead
  simp only [String.toList_append, List.length_append, digits]
  have marker : clipMarker.toList.length = 15 := sized _
  have front : " tool result shrunk from ".toList.length = 25 := sized _
  have back : "use message_search to retrieve it.".toList.length = 34 := sized _
  rw [marker, front, back]
  refine lt_of_eq_of_lt (congrArg (fun middle => 15 + 25 + 4 + middle + 34) (sized _)) ?_
  decide

def pointedResult (n : Nat) : ToolMessage := { content := .text (pointedText n), toolCallId := "a" }

theorem stubbed_pointed {n : Nat} (whole : pointerHead.length + n = 1000) :
    (stubbed clipConfig (pointedResult n)).isSome = true := by
  have stub := estimateTextTokens_le (stubHead 1000)
  have short := length_stubHead
  have less : toolTokens clipConfig (stubOf (pointedResult n)) <
      toolTokens clipConfig (pointedResult n) := by
    have before : toolTokens clipConfig (pointedResult n) =
        estimateTextTokens (pointedText n) + estimateTextTokens "a" := rfl
    have after : toolTokens clipConfig (stubOf (pointedResult n)) =
        estimateTextTokens (buildStubText (pointedText n)) + estimateTextTokens "a" := rfl
    rw [before, after, stub_pointedText, estimateTextTokens_pointedText, whole]
    unfold charsPerToken
    omega
  rw [stubbed, if_neg (Nat.not_le.mpr less)]
  rfl

def pointedMessages (n : Nat) : List Message :=
  List.replicate 5 (.ai { content := .text "" }) ++ [.tool (pointedResult n)]

theorem taken_pointed {n : Nat} (whole : pointerHead.length + n = 1000) :
    Taken clipConfig (pointedMessages n) 0 (pointedResult n) := by
  have listed : shrinkable clipConfig (pointedMessages n).reverse = [pointedResult n] := by
    change shrinkable clipConfig (.tool (pointedResult n) :: _) = _
    have unmarked : PyText.contains clipMarker (contentJoined (pointedResult n).content) = false :=
      unmarked_pointedText n
    simp only [shrinkable, unmarked, stubbed_pointed whole, Bool.false_eq_true, if_false, if_true]
  have long : clipConfig.minKeep < (pointedMessages n).length := by
    simp [pointedMessages, clipConfig]
  have first : GoesOn clipConfig 0 (freedTokens clipConfig []) 0 := by
    unfold GoesOn
    decide
  exact ⟨rfl, long, [], [], listed.trans rfl, first⟩

/-- The stub points to no file. -/
theorem blank_pointer_hides : ¬∀ out,
    clipOverflowTail clipConfig (pointedMessages 966) 0 = some out →
      Sound clipConfig (pointedMessages 966) out := by
  intro sound
  have taken := @taken_pointed 966 (by decide)
  obtain ⟨out, clips⟩ := clips_of_taken taken
  have named := carried_stub.mp ((clip_forall₂ carried_self clips).mp (sound out clips).carried _ taken)
  have same := named "/s/1" (mem_pointers_pointedText 966)
  change firstPointed (pointedText 966) = some "/s/1" at same
  rw [firstPointed_pointedText] at same
  exact absurd same (by decide)

end SherryAgent.Guarantees.TailClip
