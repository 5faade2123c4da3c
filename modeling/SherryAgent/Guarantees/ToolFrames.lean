import SherryAgent.Source.Server.StreamDispatch

/-!
# Tool frames and their calls

A streamed turn keeps one current tool, by name and by id, and reads the first call of a chunk.

* `attributed_iff` — the streams whose starts and results are attributed to the right calls.
* `sequential_attributed_iff` — calls that stream one after the other: they have to be calls of
  one tool.
* `second_tool_named` — two calls of different tools.
-/

namespace SherryAgent.Guarantees.ToolFrames

open SherryAgent.Source SherryAgent.Source.Server

/-- A call of the model, with its complete arguments. -/
structure Call where
  id : String
  name : String
  args : List (String × Json)

/-- Ids and names are not blank, and a chunk names no other ones. -/
structure Emitted (calls : List Call) (chunks : List MessageChunk) : Prop where
  ids : ∀ call ∈ calls, PyText.strip call.id ≠ ""
  names : ∀ call ∈ calls, PyText.strip call.name ≠ ""
  entryIds : ∀ chunk ∈ chunks, ∀ entry ∈ chunk, ∀ id ∈ entry.id, id = "" ∨
    ∃ call ∈ calls, call.id = id
  entryNames : ∀ chunk ∈ chunks, ∀ entry ∈ chunk, ∀ name ∈ entry.name, name = "" ∨
    ∃ call ∈ calls, call.name = name

def starts (id : String) : Frame → Bool
  | .toolStart toolId _ _ => toolId == id
  | _ => false

/-- One start for each call, and every result under its call's name and arguments. -/
structure Attributed (calls : List Call) (frames : List Frame) : Prop where
  started : ∀ call ∈ calls, frames.countP (starts call.id) = 1
  only : ∀ id content args, .toolStart id content args ∈ frames → ∃ call ∈ calls, call.id = id
  returned : ∀ content id name args error, .toolResult content id name args error ∈ frames →
    ∀ call ∈ calls, call.id = id → name = call.name ∧ args = call.args

/-! ## What is read of a chunk -/

section Reading

variable (readers : Readers)

/-- The id of the chunk's first call. -/
def openedId (chunk : MessageChunk) : Option String :=
  ((chunk.calls readers).head?.bind (·.id)).filter (· != "")

/-- The name of the chunk's first call. -/
def namedTool (chunk : MessageChunk) : Option String :=
  ((chunk.calls readers).head?.bind (·.name)).filter (· != "")

/-- The last name the chunks' first calls carry. -/
def lastName (current : Option String) (chunks : List MessageChunk) : Option String :=
  chunks.foldl (fun current chunk => (namedTool readers chunk).or current) current

/-- The fragments taken for a call: those of the first entry of each chunk that opens it, and
of each later one until another call is opened. -/
def taken (id : String) : Option String → List MessageChunk → List String
  | _, [] => []
  | current, chunk :: rest =>
    let opened := openedId readers chunk
    let effective := opened.getD (PyText.strip (current.getD ""))
    (if effective = id then (chunk.head?.bind (·.args)).toList else []) ++
      taken id (opened.or current) rest

/-- One more fragment for the arguments and the text that is still open. -/
def feed (bag : List (String × Json) × List String) (fragment : String) :
    List (String × Json) × List String :=
  match readers.loadsDict (String.join (bag.2 ++ [fragment])) with
  | some items => (items, [])
  | none => (bag.1, bag.2 ++ [fragment])

/-- The arguments that the fragments accumulate to. -/
def accumulated (fragments : List String) : List (String × Json) :=
  (fragments.foldl (feed readers) ([], [])).1

end Reading

/-! ## One chunk -/

variable {readers : Readers}

/-- What is pending for a call. -/
def pending (turn : StreamTurn) (id : String) : List (String × Json) × List String :=
  ((turn.pendingArgs.lookup id).getD [], (turn.pendingRaw.lookup id).getD [])

theorem pending_accumulate (turn : StreamTurn) (toolId fragment : Option String) (id : String) :
    pending (accumulatePendingArgs readers turn toolId fragment) id =
      if toolId = some id then fragment.toList.foldl (feed readers) (pending turn id)
      else pending turn id := by
  cases toolId with
  | none => rfl
  | some toolId =>
    by_cases same : toolId = id
    · subst same
      rw [if_pos rfl]
      cases fragment with
      | none => simp [accumulatePendingArgs, pending]
      | some fragment =>
        simp only [accumulatePendingArgs, Option.toList_some, List.foldl_cons, List.foldl_nil, feed,
          pending]
        cases readers.loadsDict
          (String.join ((turn.pendingRaw.lookup toolId).getD [] ++ [fragment])) <;> simp
    · rw [if_neg (by simpa using same)]
      have other : id ≠ toolId := fun eq => same eq.symm
      cases fragment with
      | none => simp [accumulatePendingArgs, pending, AList.lookup_insert_ne other]
      | some fragment =>
        simp only [accumulatePendingArgs, pending]
        cases readers.loadsDict
          (String.join ((turn.pendingRaw.lookup toolId).getD [] ++ [fragment])) <;>
          simp [AList.lookup_insert_ne other]

/-- The state of a tool call that the notes about it leave alone. -/
structure SamePending (before after : StreamTurn) : Prop where
  args : after.pendingArgs = before.pendingArgs
  raw : after.pendingRaw = before.pendingRaw

theorem notePartial_keeps (turn : StreamTurn) (calls : List CallHead) :
    SamePending turn (turn.notePartial calls) ∧
      (turn.notePartial calls).currentToolName = turn.currentToolName ∧
      (turn.notePartial calls).currentToolId = turn.currentToolId := by
  unfold StreamTurn.notePartial
  generalize begins : ({ turn with hasToolCalls := true } : StreamTurn) = start
  have kept : SamePending turn start ∧ start.currentToolName = turn.currentToolName ∧
      start.currentToolId = turn.currentToolId := by
    subst begins
    exact ⟨⟨rfl, rfl⟩, rfl, rfl⟩
  clear begins
  induction calls generalizing start with
  | nil => exact kept
  | cons head rest ih =>
    rw [List.foldl_cons]
    apply ih
    split
    · exact kept
    split
    · exact kept
    dsimp only
    split
    · exact kept
    · exact ⟨⟨kept.1.args, kept.1.raw⟩, kept.2⟩

theorem SamePending.pending {before after : StreamTurn} (same : SamePending before after)
    (id : String) : pending after id = pending before id := by
  rw [ToolFrames.pending, same.args, same.raw]
  rfl

theorem accumulate_keeps (turn : StreamTurn) (toolId fragment : Option String) :
    (accumulatePendingArgs readers turn toolId fragment).currentToolName = turn.currentToolName ∧
      (accumulatePendingArgs readers turn toolId fragment).currentToolId = turn.currentToolId := by
  unfold accumulatePendingArgs
  cases toolId with
  | none => exact ⟨rfl, rfl⟩
  | some toolId =>
    cases fragment with
    | none => exact ⟨rfl, rfl⟩
    | some fragment =>
      dsimp only
      split <;> exact ⟨rfl, rfl⟩

/-- A first call whose id and name are not blank. -/
structure Legible (head : CallHead) : Prop where
  id : ∀ id ∈ head.id, id = "" ∨ PyText.strip id ≠ ""
  name : ∀ name ∈ head.name, name = "" ∨ PyText.strip name ≠ ""

theorem noteName_spec {turn : StreamTurn} {head : CallHead} (legible : Legible head) :
    turn.noteName head =
      { turn with currentToolName := (head.name.filter (· != "")).or turn.currentToolName } := by
  unfold StreamTurn.noteName
  cases named : head.name with
  | none => rfl
  | some name =>
    rcases legible.name name named with rfl | inked
    · simp [Option.filter]
    · have filled : name ≠ "" := by
        rintro rfl
        exact inked (by decide)
      simp [Option.filter, replaces, filled, inked]

theorem noteId_spec {turn : StreamTurn} {head : CallHead} (legible : Legible head) :
    turn.noteId head =
      ({ turn with currentToolId := (head.id.filter (· != "")).or turn.currentToolId },
        head.id.filter (· != ""), (head.id.filter (· != "")).isSome) := by
  unfold StreamTurn.noteId
  cases opened : head.id with
  | none => rfl
  | some id =>
    rcases legible.id id opened with rfl | inked
    · simp [Option.filter]
    · have filled : id ≠ "" := by
        rintro rfl
        exact inked (by decide)
      simp [Option.filter, replaces, filled, inked]

/-- What the first of a chunk's calls does, and what it reads as the chunk's call. -/
theorem noteCalls_spec {turn : StreamTurn} {chunk : MessageChunk}
    (legible : ∀ head ∈ chunk.calls readers, Legible head) :
    ∃ after, turn.noteCalls (chunk.calls readers) =
        (after, openedId readers chunk, (openedId readers chunk).isSome) ∧
      SamePending turn after ∧
      after.currentToolName = (namedTool readers chunk).or turn.currentToolName ∧
      after.currentToolId = (openedId readers chunk).or turn.currentToolId := by
  unfold openedId namedTool
  cases calls : chunk.calls readers with
  | nil => exact ⟨turn, rfl, ⟨rfl, rfl⟩, rfl, rfl⟩
  | cons head rest =>
    have first := legible head (by simp [calls])
    obtain ⟨same, name, id⟩ := notePartial_keeps turn (head :: rest)
    have noted : turn.noteCalls (head :: rest) =
        ({ turn.notePartial (head :: rest) with
            currentToolName := (head.name.filter (· != "")).or
              (turn.notePartial (head :: rest)).currentToolName
            currentToolId := (head.id.filter (· != "")).or
              (turn.notePartial (head :: rest)).currentToolId },
          head.id.filter (· != ""), (head.id.filter (· != "")).isSome) := by
      unfold StreamTurn.noteCalls
      dsimp only
      rw [noteName_spec first, noteId_spec first]
    rw [name, id] at noted
    exact ⟨_, noted, ⟨same.args, same.raw⟩, rfl, rfl⟩

theorem strippedId_eq_some {turn : StreamTurn} {id : String} (filled : id ≠ "") :
    turn.strippedId = some id ↔ PyText.strip (turn.currentToolId.getD "") = id := by
  unfold StreamTurn.strippedId
  dsimp only
  by_cases empty : PyText.strip (turn.currentToolId.getD "") = ""
  · simp [empty, filled.symm]
  · simp [empty]

/-- What one chunk of the model does. -/
structure Read (readers : Readers) (chunk : MessageChunk) (before after : StreamTurn)
    (frames : List Frame) : Prop where
  name : after.currentToolName = (namedTool readers chunk).or before.currentToolName
  id : after.currentToolId = (openedId readers chunk).or before.currentToolId
  pending : ∀ id, id ≠ "" → pending after id =
    if (openedId readers chunk).getD (PyText.strip (before.currentToolId.getD "")) = id then
      (chunk.head?.bind (·.args)).toList.foldl (feed readers) (pending before id)
    else pending before id
  frames : ∃ content args,
    frames = (openedId readers chunk).toList.map fun id => .toolStart id content args

theorem messagesFrames_read {turn : StreamTurn} {chunk : MessageChunk}
    (legible : ∀ head ∈ chunk.calls readers, Legible head) :
    Read readers chunk turn (messagesFrames readers turn chunk).1
      (messagesFrames readers turn chunk).2 := by
  obtain ⟨after, noted, same, name, id⟩ := @noteCalls_spec readers turn chunk legible
  unfold messagesFrames
  dsimp only
  split
  · rw [toolCallFrames, noted]
    dsimp only
    have effective : ∀ other, other ≠ "" → ((openedId readers chunk).or after.strippedId = some other ↔
        (openedId readers chunk).getD (PyText.strip (turn.currentToolId.getD "")) = other) := by
      intro other filled
      cases opened : openedId readers chunk with
      | some id => simp
      | none =>
        rw [opened, Option.none_or] at id
        rw [Option.none_or, strippedId_eq_some filled, id]
        rfl
    generalize gathering : accumulatePendingArgs readers after
      ((openedId readers chunk).or after.strippedId) (chunk.head?.bind (·.args)) = gathered
    have gathers : gathered.currentToolName = after.currentToolName ∧
        gathered.currentToolId = after.currentToolId := by
      subst gathering
      exact accumulate_keeps after _ _
    have read : ∀ frames, (∃ content args, frames =
        (openedId readers chunk).toList.map fun id => Frame.toolStart id content args) →
        Read readers chunk turn gathered frames := by
      intro frames shape
      refine ⟨gathers.1.trans name, gathers.2.trans id, fun other filled => ?_, shape⟩
      rw [← gathering, pending_accumulate, same.pending]
      simp only [effective other filled]
    cases opened : openedId readers chunk with
    | none =>
      simp only [Option.isSome_none, Bool.false_eq_true, if_false]
      exact read [] ⟨"", [], by rw [opened]; rfl⟩
    | some id =>
      simp only [Option.isSome_some, if_true]
      exact read _ ⟨_, _, by rw [opened]; rfl⟩
  · rename_i idle
    simp only [Bool.or_eq_true, Bool.not_eq_true', not_or, Bool.not_eq_true,
      Bool.not_eq_false, List.isEmpty_iff, Option.isSome_eq_false_iff, Option.isNone_iff_eq_none] at idle
    obtain ⟨no_calls, no_id⟩ := idle
    have unopened : openedId readers chunk = none := by simp [openedId, no_calls]
    have unnamed : namedTool readers chunk = none := by simp [namedTool, no_calls]
    refine ⟨by rw [unnamed]; rfl, by rw [unopened]; rfl, fun other filled => ?_,
      "", [], by rw [unopened]; rfl⟩
    rw [if_neg]
    rw [unopened, Option.getD_none, ← strippedId_eq_some filled, no_id]
    exact nofun

/-! ## The chunks -/

/-- What all the chunks of the model do. -/
structure ReadAll (readers : Readers) (chunks : List MessageChunk) (before after : StreamTurn)
    (frames : List Frame) : Prop where
  name : after.currentToolName = lastName readers before.currentToolName chunks
  pending : ∀ id, id ≠ "" → pending after id =
    (taken readers id before.currentToolId chunks).foldl (feed readers) (pending before id)
  frames : List.Forall₂ (fun id frame => ∃ content args, frame = .toolStart id content args)
    (chunks.filterMap (openedId readers)) frames

theorem streamFrames_append (turn : StreamTurn) (first rest : List StreamChunk) :
    streamFrames readers turn (first ++ rest) =
      ((streamFrames readers (streamFrames readers turn first).1 rest).1,
        (streamFrames readers turn first).2 ++
          (streamFrames readers (streamFrames readers turn first).1 rest).2) := by
  induction first generalizing turn with
  | nil => rfl
  | cons chunk first ih => cases chunk <;> simp [streamFrames, ih]

theorem streamFrames_readAll {chunks : List MessageChunk}
    (legible : ∀ chunk ∈ chunks, ∀ head ∈ chunk.calls readers, Legible head) (turn : StreamTurn) :
    ReadAll readers chunks turn (streamFrames readers turn (chunks.map .messages)).1
      (streamFrames readers turn (chunks.map .messages)).2 := by
  induction chunks generalizing turn with
  | nil => exact ⟨rfl, fun _ _ => rfl, .nil⟩
  | cons chunk rest ih =>
    have read := @messagesFrames_read readers turn chunk (legible chunk List.mem_cons_self)
    rw [List.map_cons, streamFrames]
    generalize messagesFrames readers turn chunk = step at read ⊢
    obtain ⟨next, frames⟩ := step
    dsimp only at read ⊢
    have later := ih (fun other member => legible other (List.mem_cons_of_mem _ member)) next
    generalize streamFrames readers next (rest.map .messages) = final at later ⊢
    obtain ⟨after, more⟩ := final
    dsimp only at later ⊢
    refine ⟨?_, fun id filled => ?_, ?_⟩
    · rw [later.name, read.name]
      rfl
    · rw [later.pending id filled, read.pending id filled, read.id, taken, List.foldl_append]
      split
      · rfl
      · rfl
    · obtain ⟨content, args, rfl⟩ := read.frames
      cases opened : openedId readers chunk with
      | none =>
        rw [List.filterMap_cons_none opened]
        exact later.frames
      | some id =>
        rw [List.filterMap_cons_some opened]
        exact .cons ⟨content, args, rfl⟩ later.frames

/-! ## The results -/

def resultFrame (turn : StreamTurn) (message : StreamToolMessage) : Frame :=
  .toolResult (normalizeText message.content) message.toolCallId (turn.currentToolName.getD "")
    (pending turn message.toolCallId).1 (message.status == "error")

theorem mem_updatesFrames {turn : StreamTurn} {results : List StreamToolMessage}
    (distinct : (results.map (·.toolCallId)).Nodup) {frame : Frame} :
    frame ∈ (updatesFrames turn results).2 ↔
      ∃ message ∈ results, frame = resultFrame turn message ∨
        frame = .toolEnd (turn.currentToolName.getD "") := by
  induction results generalizing turn with
  | nil => simp [updatesFrames]
  | cons message rest ih =>
    rw [List.map_cons, List.nodup_cons] at distinct
    have others : ∀ other ∈ rest, other.toolCallId ≠ message.toolCallId := by
      intro other member same
      exact distinct.1 (same ▸ List.mem_map_of_mem member)
    rw [updatesFrames, toolResultFrames, popPendingArgs]
    dsimp only
    rw [List.mem_append, ih distinct.2]
    constructor
    · rintro (now | ⟨other, member, which⟩)
      · refine ⟨message, List.mem_cons_self, ?_⟩
        simpa [resultFrame, pending] using now
      · refine ⟨other, List.mem_cons_of_mem _ member, ?_⟩
        simpa [resultFrame, pending, AList.lookup_erase_ne (others other member)] using which
    · rintro ⟨other, member, which⟩
      rcases List.mem_cons.mp member with rfl | later
      · left
        simpa [resultFrame, pending] using which
      · right
        refine ⟨other, later, ?_⟩
        simpa [resultFrame, pending, AList.lookup_erase_ne (others other later)] using which

theorem updatesFrames_append (turn : StreamTurn) (first rest : List StreamToolMessage) :
    updatesFrames turn (first ++ rest) =
      ((updatesFrames (updatesFrames turn first).1 rest).1,
        (updatesFrames turn first).2 ++ (updatesFrames (updatesFrames turn first).1 rest).2) := by
  induction first generalizing turn with
  | nil => rfl
  | cons message first ih => simp [updatesFrames, ih]

/-- How the results are grouped does not matter. -/
theorem streamFrames_updates (turn : StreamTurn) (groups : List (List StreamToolMessage)) :
    streamFrames readers turn (groups.map .updates) = updatesFrames turn groups.flatten := by
  induction groups generalizing turn with
  | nil => rfl
  | cons group rest ih =>
    rw [List.map_cons, streamFrames, List.flatten_cons, updatesFrames_append]
    simp only [ih]

/-! ## A turn -/

theorem head_of_entry {chunk : MessageChunk} {head : CallHead} (member : head ∈ chunk.calls readers) :
    ∃ entry ∈ chunk, head.id = entry.id ∧ head.name.getD "" = entry.name.getD "" := by
  unfold MessageChunk.calls at member
  dsimp only at member
  split at member
  · obtain ⟨entry, inside, rfl⟩ := List.mem_map.mp member
    exact ⟨entry, inside, rfl, rfl⟩
  · obtain ⟨entry, inside, parsed⟩ := List.mem_filterMap.mp member
    refine ⟨entry, inside, ?_⟩
    dsimp only at parsed
    split at parsed
    · cases parsed
      exact ⟨rfl, rfl⟩
    split at parsed
    · cases parsed
      exact ⟨rfl, rfl⟩
    split at parsed
    · cases parsed
      exact ⟨rfl, rfl⟩
    · cases parsed

theorem Emitted.legible {calls : List Call} {chunks : List MessageChunk}
    (emitted : Emitted calls chunks) {chunk : MessageChunk} (member : chunk ∈ chunks)
    {head : CallHead} (first : head ∈ chunk.calls readers) : Legible head := by
  obtain ⟨entry, inside, id, name⟩ := head_of_entry first
  constructor
  · intro text carried
    rw [id] at carried
    rcases emitted.entryIds chunk member entry inside text carried with empty | ⟨call, made, rfl⟩
    · exact .inl empty
    · exact .inr (emitted.ids call made)
  · intro text carried
    have carried : head.name = some text := carried
    rw [carried, Option.getD_some] at name
    cases written : entry.name with
    | none =>
      rw [written] at name
      exact .inl name
    | some other =>
      rw [written] at name
      obtain rfl : text = other := name
      rcases emitted.entryNames chunk member entry inside text written with empty | ⟨call, made, rfl⟩
      · exact .inl empty
      · exact .inr (emitted.names call made)

theorem Emitted.opened {calls : List Call} {chunks : List MessageChunk}
    (emitted : Emitted calls chunks) {id : String} (opens : id ∈ chunks.filterMap (openedId readers)) :
    ∃ call ∈ calls, call.id = id := by
  obtain ⟨chunk, member, opened⟩ := List.mem_filterMap.mp opens
  obtain ⟨carried, filled⟩ := Option.filter_eq_some_iff.mp opened
  obtain ⟨head, first, carries⟩ := Option.bind_eq_some_iff.mp carried
  obtain ⟨entry, inside, same, -⟩ := head_of_entry (List.mem_of_mem_head? first)
  rcases emitted.entryIds chunk member entry inside id (same ▸ carries) with rfl | made
  · simp at filled
  · exact made

theorem forall₂_right {α β : Type} {R : α → β → Prop} {l : List α} {m : List β}
    (related : List.Forall₂ R l m) {b : β} (member : b ∈ m) : ∃ a ∈ l, R a b := by
  induction related with
  | nil => cases member
  | cons first _ ih =>
    rcases List.mem_cons.mp member with rfl | later
    · exact ⟨_, List.mem_cons_self, first⟩
    · obtain ⟨a, inside, holds⟩ := ih later
      exact ⟨a, List.mem_cons_of_mem _ inside, holds⟩

theorem countP_starts {ids : List String} {frames : List Frame}
    (opened : List.Forall₂ (fun id frame => ∃ content args, frame = .toolStart id content args) ids
      frames) (id : String) : frames.countP (starts id) = ids.count id := by
  induction opened with
  | nil => rfl
  | cons first _ ih =>
    obtain ⟨content, args, rfl⟩ := first
    rw [List.countP_cons, List.count_cons, ih]
    rfl

/-- The chunks of the model's calls, and then their results. -/
def roundStream (chunks : List MessageChunk) (groups : List (List StreamToolMessage)) : List StreamChunk :=
  chunks.map .messages ++ groups.map .updates

section Turn

variable {calls : List Call} {chunks : List MessageChunk} {groups : List (List StreamToolMessage)}
  {turn : StreamTurn}

/-- The frames of a turn: the starts of the chunks, and the results. -/
theorem roundStream_frames (emitted : Emitted calls chunks)
    (distinct : (groups.flatten.map (·.toolCallId)).Nodup) :
    ∃ after started, ReadAll readers chunks turn after started ∧
      ∃ returned, (streamFrames readers turn (roundStream chunks groups)).2 = started ++ returned ∧
        ∀ frame, frame ∈ returned ↔ ∃ message ∈ groups.flatten,
          frame = resultFrame after message ∨ frame = .toolEnd (after.currentToolName.getD "") := by
  have legible : ∀ chunk ∈ chunks, ∀ head ∈ chunk.calls readers, Legible head :=
    fun chunk member head first => emitted.legible member first
  have read := streamFrames_readAll legible turn
  refine ⟨_, _, read, _, ?_, fun frame => mem_updatesFrames distinct⟩
  rw [roundStream, streamFrames_append, streamFrames_updates]

/-- A turn in which nothing is pending for the calls attributes its frames to the right calls
exactly when the id of each call is that of the first call of one chunk, each call has the name
the chunks' first calls carried last, and the fragments taken for each call accumulate to its
arguments. -/
theorem attributed_iff (emitted : Emitted calls chunks)
    (idle : ∀ call ∈ calls, pending turn call.id = ([], []))
    (distinct : (calls.map (·.id)).Nodup)
    (answered : (groups.flatten.map (·.toolCallId)).Perm (calls.map (·.id))) :
    Attributed calls (streamFrames readers turn (roundStream chunks groups)).2 ↔
      (∀ call ∈ calls, (chunks.filterMap (openedId readers)).count call.id = 1) ∧
      (∀ call ∈ calls, lastName readers turn.currentToolName chunks = some call.name) ∧
      ∀ call ∈ calls, accumulated readers (taken readers call.id turn.currentToolId chunks) =
        call.args := by
  obtain ⟨after, started, read, returned, frames, results⟩ :=
    @roundStream_frames readers calls chunks groups turn emitted (answered.nodup_iff.mpr distinct)
  rw [frames]
  have starting : ∀ frame ∈ started, ∃ id content args, id ∈ chunks.filterMap (openedId readers) ∧
      frame = .toolStart id content args := by
    intro frame member
    obtain ⟨id, opens, content, args, shape⟩ := forall₂_right read.frames member
    exact ⟨id, content, args, opens, shape⟩
  have unstarted : ∀ id, returned.countP (starts id) = 0 := by
    intro id
    rw [List.countP_eq_zero]
    intro frame member
    obtain ⟨message, -, rfl | rfl⟩ := (results frame).mp member <;> exact Bool.false_ne_true
  have filled : ∀ call ∈ calls, call.id ≠ "" ∧ call.name ≠ "" := by
    intro call member
    refine ⟨fun empty => emitted.ids call member ?_, fun empty => emitted.names call member ?_⟩
    · rw [empty]
      decide
    · rw [empty]
      decide
  have arguments : ∀ call ∈ calls, (pending after call.id).1 =
      accumulated readers (taken readers call.id turn.currentToolId chunks) := by
    intro call member
    rw [read.pending call.id (filled call member).1, idle call member]
    rfl
  have named : ∀ call ∈ calls, (after.currentToolName.getD "" = call.name ↔
      lastName readers turn.currentToolName chunks = some call.name) := by
    intro call member
    rw [read.name]
    cases lastName readers turn.currentToolName chunks with
    | none => simp [(filled call member).2.symm]
    | some name => simp
  constructor
  · intro attributed
    refine ⟨fun call member => ?_, fun call member => ?_, fun call member => ?_⟩
    · have once := attributed.started call member
      rwa [List.countP_append, unstarted, Nat.add_zero, countP_starts read.frames] at once
    all_goals
      have answer := answered.mem_iff.mpr (List.mem_map_of_mem member)
      obtain ⟨message, inside, same⟩ := List.mem_map.mp answer
      have frame := (results (resultFrame after message)).mpr ⟨message, inside, .inl rfl⟩
      obtain ⟨name, args⟩ := attributed.returned _ _ _ _ _ (List.mem_append_right _ frame) call
        member same.symm
    · exact (named call member).mp name
    · rw [← arguments call member, ← same]
      exact args
  · rintro ⟨opened, names, args⟩
    refine ⟨fun call member => ?_, fun id content arguments member => ?_, ?_⟩
    · rw [List.countP_append, unstarted, Nat.add_zero, countP_starts read.frames]
      exact opened call member
    · rcases List.mem_append.mp member with start | result
      · obtain ⟨other, _, _, opens, same⟩ := starting _ start
        cases same
        exact emitted.opened opens
      · obtain ⟨message, -, same | same⟩ := (results _).mp result <;> cases same
    · intro content id name received error member call made same
      rcases List.mem_append.mp member with start | result
      · obtain ⟨other, _, _, -, differs⟩ := starting _ start
        cases differs
      · obtain ⟨message, -, shape | shape⟩ := (results _).mp result
        · cases shape
          rw [← same, arguments call made]
          exact ⟨(named call made).mpr (names call made), args call made⟩
        · cases shape

end Turn

/-! ## Calls one after the other -/

def Blank (text : String) : Prop := ∀ c ∈ text.toList, PyText.isSpace c = true

/-- What `json.loads` makes of a text that goes on after a dict, and of blanks. -/
structure ReadsJson (readers : Readers) : Prop where
  complete : ∀ text more items value, readers.loads text = some (.obj items) →
    readers.loads (text ++ more) = some value → value = .obj items ∧ Blank more
  blank : ∀ text, Blank text → readers.loads text = none

/-- The text of a call's arguments; a call without arguments may come without a text. -/
def ReadsAs (readers : Readers) (text : String) (args : List (String × Json)) : Prop :=
  readers.loads text = some (.obj args) ∨ Blank text ∧ args = []

/-- The fragments of the chunks' first entries. -/
def fragments (chunks : List MessageChunk) : List String :=
  chunks.flatMap fun chunk => (chunk.head?.bind (·.args)).toList

/-- A chunk with one fragment and nothing else. -/
def Continues (chunk : MessageChunk) : Prop :=
  ∃ entry, chunk = [entry] ∧ entry.id.getD "" = "" ∧ entry.name.getD "" = ""

/-- The chunks of one call: the first one carries its id and name. -/
structure Streams (readers : Readers) (call : Call) (chunks : List MessageChunk) : Prop where
  shape : ∃ opening rest, chunks = [opening] :: rest ∧ opening.id = some call.id ∧
    opening.name = some call.name ∧ ∀ chunk ∈ rest, Continues chunk
  trimmed : PyText.strip call.id = call.id
  id : call.id ≠ ""
  name : PyText.strip call.name ≠ ""
  args : ReadsAs readers (String.join (fragments chunks)) call.args

theorem join_append (first rest : List String) :
    String.join (first ++ rest) = String.join first ++ String.join rest := by
  apply String.toList_inj.mp
  simp

theorem Blank.of_append {first rest : String} (blank : Blank (first ++ rest)) : Blank first := by
  intro c member
  apply blank
  simp [member]

/-- After some of the fragments: nothing is read yet, or the arguments are and a blank text is
left over. -/
def Reading (readers : Readers) (args : List (String × Json)) (read : List String)
    (bag : List (String × Json) × List String) : Prop :=
  bag = ([], read) ∧ readers.loadsDict (String.join read) = none ∨
    ∃ before after, read = before ++ after ∧ readers.loads (String.join before) = some (.obj args) ∧
      bag = (args, after)

theorem Reading.feed (json : ReadsJson readers) {args : List (String × Json)} {read rest : List String}
    {fragment : String} {bag : List (String × Json) × List String}
    (whole : ReadsAs readers (String.join (read ++ fragment :: rest)) args)
    (reading : Reading readers args read bag) :
    Reading readers args (read ++ [fragment]) (feed readers bag fragment) := by
  have split : read ++ fragment :: rest = (read ++ [fragment]) ++ rest := by simp
  rcases reading with ⟨rfl, -⟩ | ⟨before, after, rfl, loaded, rfl⟩
  · rw [ToolFrames.feed]
    cases now : readers.loadsDict (String.join (read ++ [fragment])) with
    | none => exact .inl ⟨rfl, now⟩
    | some items =>
      refine .inr ⟨read ++ [fragment], [], by simp, ?_, ?_⟩
      all_goals
        have loaded : readers.loads (String.join (read ++ [fragment])) = some (.obj items) := by
          unfold Readers.loadsDict at now
          split at now
          · rename_i found same
            split at now
            · cases now
            · cases now
              exact same
          · cases now
        have same : items = args := by
          rw [split, join_append] at whole
          rcases whole with parsed | ⟨blank, -⟩
          · have result := (json.complete _ _ _ _ loaded parsed).1
            exact (Json.obj.inj result).symm
          · rw [json.blank _ blank.of_append] at loaded
            cases loaded
      · exact same ▸ loaded
      · rw [same]
  · have left : Blank (String.join (after ++ [fragment])) := by
      have shape : before ++ after ++ fragment :: rest = before ++ (after ++ [fragment] ++ rest) := by
        simp
      rw [shape, join_append] at whole
      rcases whole with parsed | ⟨blank, -⟩
      · have more := (json.complete _ _ _ _ loaded parsed).2
        rw [join_append] at more
        exact more.of_append
      · rw [json.blank _ blank.of_append] at loaded
        cases loaded
    have unread : readers.loadsDict (String.join (after ++ [fragment])) = none := by
      rw [Readers.loadsDict, json.blank _ left]
    rw [ToolFrames.feed]
    dsimp only
    rw [unread]
    exact .inr ⟨before, after ++ [fragment], by simp, loaded, rfl⟩

/-- All of a call's fragments accumulate to its arguments. -/
theorem accumulated_of_readsAs (json : ReadsJson readers) {args : List (String × Json)}
    {fragments : List String} (whole : ReadsAs readers (String.join fragments) args) :
    accumulated readers fragments = args := by
  have reading : ∀ rest read bag, read ++ rest = fragments → Reading readers args read bag →
      Reading readers args fragments (rest.foldl (feed readers) bag) := by
    intro rest
    induction rest with
    | nil =>
      intro read bag shape reading
      rw [List.append_nil] at shape
      exact shape ▸ reading
    | cons fragment rest ih =>
      intro read bag shape reading
      have text : ReadsAs readers (String.join (read ++ fragment :: rest)) args := shape ▸ whole
      exact ih (read ++ [fragment]) _ (by simpa using shape) (reading.feed json text)
  have begins : Reading readers args [] ([], []) := by
    refine .inl ⟨rfl, ?_⟩
    rw [Readers.loadsDict, json.blank _ (by simp [Blank])]
  rcases reading fragments [] ([], []) rfl begins with ⟨ended, unread⟩ | ⟨_, _, _, _, ended⟩
  · rw [accumulated, ended]
    rcases whole with parsed | ⟨-, empty⟩
    · rw [Readers.loadsDict, parsed] at unread
      dsimp only at unread
      split at unread
      · rename_i none_left
        exact (List.isEmpty_iff.mp none_left).symm
      · cases unread
    · exact empty.symm
  · rw [accumulated, ended]

/-- A chunk with one entry opens what the entry carries. -/
theorem single_opened (entry : ToolCallChunk) :
    openedId readers [entry] = entry.id.filter (· != "") ∧
      namedTool readers [entry] = entry.name.filter (· != "") := by
  have single : ∃ head, MessageChunk.calls readers [entry] = [head] ∧ head.id = entry.id ∧
      head.name.getD "" = entry.name.getD "" := by
    have some_head : ∃ head, MessageChunk.calls readers [entry] = [head] := by
      unfold MessageChunk.calls
      dsimp only
      split
      · exact ⟨_, rfl⟩
      · rename_i parsed
        unfold MessageChunk.toolCalls at parsed ⊢
        rw [List.filterMap_cons] at parsed ⊢
        split at parsed
        · exact absurd rfl parsed
        · exact ⟨_, rfl⟩
    obtain ⟨head, calls⟩ := some_head
    refine ⟨head, calls, ?_⟩
    have member : head ∈ MessageChunk.calls readers [entry] := by simp [calls]
    obtain ⟨source, inside, same⟩ := head_of_entry member
    obtain rfl := List.mem_singleton.mp inside
    exact same
  obtain ⟨head, calls, id, name⟩ := single
  unfold openedId namedTool
  rw [calls]
  refine ⟨by simp [id], ?_⟩
  simp only [List.head?_cons, Option.bind_some]
  cases first : head.name <;> cases second : entry.name <;> simp_all [Option.filter]

theorem Continues.opens {chunk : MessageChunk} (continues : Continues chunk) :
    openedId readers chunk = none ∧ namedTool readers chunk = none := by
  obtain ⟨entry, rfl, id, name⟩ := continues
  obtain ⟨opened, named⟩ := @single_opened readers entry
  rw [opened, named]
  constructor
  · cases carried : entry.id with
    | none => rfl
    | some text =>
      rw [carried] at id
      simpa using id
  · cases carried : entry.name with
    | none => rfl
    | some text =>
      rw [carried] at name
      simpa using name

/-- The chunks of a call are its first one, which opens it, and fragments. -/
theorem Streams.opens {call : Call} {chunks : List MessageChunk}
    (streams : Streams readers call chunks) :
    ∃ opening rest, chunks = opening :: rest ∧ openedId readers opening = some call.id ∧
      namedTool readers opening = some call.name ∧ ∀ chunk ∈ rest, Continues chunk := by
  obtain ⟨opening, rest, shape, id, name, continues⟩ := streams.shape
  obtain ⟨opened, named⟩ := @single_opened readers opening
  refine ⟨[opening], rest, shape, ?_, ?_, continues⟩
  · simp [opened, id, streams.id]
  · have filled : call.name ≠ "" := by
      intro empty
      exact streams.name (by rw [empty]; decide)
    simp [named, name, filled]

theorem taken_continues {id current : String} (trimmed : PyText.strip current = current)
    {chunks rest : List MessageChunk} (continues : ∀ chunk ∈ chunks, Continues chunk) :
    taken readers id (some current) (chunks ++ rest) =
      (if current = id then fragments chunks else []) ++ taken readers id (some current) rest := by
  induction chunks with
  | nil => simp [fragments]
  | cons chunk chunks ih =>
    have nothing := @Continues.opens readers _ (continues chunk List.mem_cons_self)
    rw [List.cons_append, taken, nothing.1]
    simp only [Option.getD_none, Option.getD_some, Option.none_or, trimmed]
    rw [ih fun other member => continues other (List.mem_cons_of_mem _ member)]
    split <;> simp [fragments]

/-- The chunks of a call give their fragments to it alone. -/
theorem Streams.taken {call : Call} {chunks : List MessageChunk}
    (streams : Streams readers call chunks) (id : String) (current : Option String)
    (rest : List MessageChunk) :
    taken readers id current (chunks ++ rest) =
      (if call.id = id then fragments chunks else []) ++ taken readers id (some call.id) rest := by
  obtain ⟨opening, later, rfl, opened, -, continues⟩ := streams.opens
  rw [List.cons_append, ToolFrames.taken, opened]
  dsimp only [Option.getD_some, Option.some_or]
  rw [taken_continues streams.trimmed continues]
  split <;> simp [fragments]

theorem lastName_append (current : Option String) (first rest : List MessageChunk) :
    lastName readers current (first ++ rest) = lastName readers (lastName readers current first) rest :=
  List.foldl_append

theorem Streams.lastName {call : Call} {chunks : List MessageChunk}
    (streams : Streams readers call chunks) (current : Option String) :
    lastName readers current chunks = some call.name := by
  obtain ⟨opening, later, rfl, -, named, continues⟩ := streams.opens
  have unnamed : ∀ rest : List MessageChunk, (∀ chunk ∈ rest, Continues chunk) → ∀ name,
      ToolFrames.lastName readers name rest = name := by
    intro rest
    induction rest with
    | nil => exact fun _ _ => rfl
    | cons chunk rest ih =>
      intro nameless name
      have nothing := @Continues.opens readers _ (nameless chunk List.mem_cons_self)
      have same : ToolFrames.lastName readers name (chunk :: rest) =
          ToolFrames.lastName readers ((namedTool readers chunk).or name) rest := rfl
      rw [same, nothing.2]
      exact ih (fun other member => nameless other (List.mem_cons_of_mem _ member)) name
  have same : ToolFrames.lastName readers current (opening :: later) =
      ToolFrames.lastName readers ((namedTool readers opening).or current) later := rfl
  rw [same, named]
  exact unnamed later continues _

theorem Streams.filterMap_opened {call : Call} {chunks : List MessageChunk}
    (streams : Streams readers call chunks) :
    chunks.filterMap (openedId readers) = [call.id] := by
  obtain ⟨opening, later, rfl, opened, -, continues⟩ := streams.opens
  rw [List.filterMap_cons_some opened, List.cons.injEq]
  refine ⟨rfl, List.filterMap_eq_nil_iff.mpr fun chunk member => ?_⟩
  exact (@Continues.opens readers _ (continues chunk member)).1

section Sequential

variable {calls : List Call} {streams : List (List MessageChunk)}

theorem sequential_opened (each : List.Forall₂ (Streams readers) calls streams) :
    streams.flatten.filterMap (openedId readers) = calls.map (·.id) := by
  induction each with
  | nil => rfl
  | cons first _ ih =>
    rw [List.flatten_cons, List.filterMap_append, first.filterMap_opened, ih]
    rfl

theorem sequential_lastName (each : List.Forall₂ (Streams readers) calls streams)
    (current : Option String) :
    lastName readers current streams.flatten = (calls.getLast?.map (·.name)).or current := by
  induction each generalizing current with
  | nil => rfl
  | cons first _ ih =>
    rw [List.flatten_cons, lastName_append, first.lastName, ih, List.getLast?_cons]
    rename_i rest _ _
    cases rest.getLast? <;> rfl

theorem sequential_taken_other (each : List.Forall₂ (Streams readers) calls streams) {id : String}
    (other : id ∉ calls.map (·.id)) (current : Option String) :
    taken readers id current streams.flatten = [] := by
  induction each generalizing current with
  | nil => rfl
  | cons first _ ih =>
    rw [List.map_cons, List.mem_cons, not_or] at other
    rw [List.flatten_cons, first.taken, if_neg (fun same => other.1 same.symm), ih other.2]
    rfl

theorem sequential_taken (json : ReadsJson readers)
    (each : List.Forall₂ (Streams readers) calls streams) (distinct : (calls.map (·.id)).Nodup)
    {call : Call} (member : call ∈ calls) (current : Option String) :
    accumulated readers (taken readers call.id current streams.flatten) = call.args := by
  induction each generalizing current with
  | nil => cases member
  | cons first rest ih =>
    rw [List.map_cons, List.nodup_cons] at distinct
    rw [List.flatten_cons, first.taken]
    rcases List.mem_cons.mp member with rfl | later
    · rw [if_pos rfl, sequential_taken_other rest distinct.1, List.append_nil]
      exact accumulated_of_readsAs json first.args
    · rw [if_neg, List.nil_append]
      · exact ih distinct.2 later _
      · intro same
        rw [same] at distinct
        exact distinct.1 (List.mem_map_of_mem later)

theorem sequential_emitted (each : List.Forall₂ (Streams readers) calls streams) :
    Emitted calls streams.flatten := by
  have entries : ∀ chunk ∈ streams.flatten, ∀ entry ∈ chunk,
      (entry.id.getD "" = "" ∨ ∃ call ∈ calls, entry.id = some call.id) ∧
        (entry.name.getD "" = "" ∨ ∃ call ∈ calls, entry.name = some call.name) := by
    intro chunk member entry inside
    obtain ⟨chunks, streamed, within⟩ := List.mem_flatten.mp member
    obtain ⟨call, made, first⟩ := forall₂_right each streamed
    obtain ⟨opening, rest, rfl, id, name, continues⟩ := first.shape
    rcases List.mem_cons.mp within with rfl | later
    · obtain rfl := List.mem_singleton.mp inside
      exact ⟨.inr ⟨call, made, id⟩, .inr ⟨call, made, name⟩⟩
    · obtain ⟨only, rfl, id, name⟩ := continues chunk later
      obtain rfl := List.mem_singleton.mp inside
      exact ⟨.inl id, .inl name⟩
  have streamed : ∀ call ∈ calls, ∃ chunks, Streams readers call chunks := by
    intro call made
    obtain ⟨chunks, -, first⟩ := forall₂_right each.flip made
    exact ⟨chunks, first⟩
  refine ⟨fun call made => ?_, fun call made => ?_, fun chunk member entry inside id carried => ?_,
    fun chunk member entry inside name carried => ?_⟩
  · obtain ⟨chunks, first⟩ := streamed call made
    rw [first.trimmed]
    exact first.id
  · obtain ⟨chunks, first⟩ := streamed call made
    exact first.name
  · rw [Option.mem_def] at carried
    rcases (entries chunk member entry inside).1 with empty | ⟨call, made, same⟩
    · rw [carried] at empty
      exact .inl empty
    · rw [carried] at same
      exact .inr ⟨call, made, (Option.some.inj same).symm⟩
  · rw [Option.mem_def] at carried
    rcases (entries chunk member entry inside).2 with empty | ⟨call, made, same⟩
    · rw [carried] at empty
      exact .inl empty
    · rw [carried] at same
      exact .inr ⟨call, made, (Option.some.inj same).symm⟩

/-- Calls whose chunks come one call after the other, each id on the call's first chunk: the
frames are attributed to the right calls exactly when all are calls of one tool. -/
theorem sequential_attributed_iff (json : ReadsJson readers)
    (each : List.Forall₂ (Streams readers) calls streams) (distinct : (calls.map (·.id)).Nodup)
    {groups : List (List StreamToolMessage)}
    (answered : (groups.flatten.map (·.toolCallId)).Perm (calls.map (·.id))) {turn : StreamTurn}
    (idle : ∀ call ∈ calls, pending turn call.id = ([], [])) :
    Attributed calls (streamFrames readers turn (roundStream streams.flatten groups)).2 ↔
      ∀ call ∈ calls, ∀ other ∈ calls, call.name = other.name := by
  rw [attributed_iff (sequential_emitted each) idle distinct answered, sequential_opened each,
    sequential_lastName each]
  constructor
  · rintro ⟨-, named, -⟩ call made other made'
    exact Option.some.inj ((named call made).symm.trans (named other made'))
  · intro same
    refine ⟨fun call made => ?_, fun call made => ?_, fun call made => ?_⟩
    · exact List.count_eq_one_of_mem distinct (List.mem_map_of_mem made)
    · cases last : calls.getLast? with
      | none =>
        rw [List.getLast?_eq_none_iff.mp last] at made
        cases made
      | some final =>
        have closing := same final (List.mem_of_getLast? last) call made
        simp [closing]
    · exact sequential_taken json each distinct made _

end Sequential

/-! ## Two tools -/

/-- Reads one text, and nothing else. -/
def oneText : Readers where
  loads text := if text == "\x7b\"path\": \"a\"\x7d" then some (.obj [("path", .str "a")]) else none
  parsePartialJson _ := none

def readCall : Call := ⟨"t1", "read_file", [("path", .str "a")]⟩

/-- The chunks of a call, its arguments in two fragments. -/
def twoFragments (id name : String) : List MessageChunk :=
  [[{ name := some name, args := some "", id := some id }],
    [{ args := some "\x7b\"path\":" }], [{ args := some " \"a\"\x7d" }]]

def misnames (id name : String) : Frame → Bool
  | .toolResult _ toolId toolName _ _ => toolId == id && toolName != name
  | _ => false

/-- The first result comes under the name of the second call. -/
theorem second_tool_named : ¬Attributed [readCall, ⟨"t2", "list_dir", [("path", .str "a")]⟩]
    (streamFrames oneText {} (roundStream (twoFragments "t1" "read_file" ++ twoFragments "t2" "list_dir")
      [[⟨.str "text", "t1", "success"⟩], [⟨.str "entries", "t2", "success"⟩]])).2 := by
  intro attributed
  have wrong : ((streamFrames oneText {} (roundStream
      (twoFragments "t1" "read_file" ++ twoFragments "t2" "list_dir")
      [[⟨.str "text", "t1", "success"⟩], [⟨.str "entries", "t2", "success"⟩]])).2).any
        (misnames "t1" "read_file") = true := by
    decide +kernel
  obtain ⟨frame, member, wrong⟩ := List.any_eq_true.mp wrong
  unfold misnames at wrong
  split at wrong
  · rename_i content id name args error
    simp only [Bool.and_eq_true, beq_iff_eq, bne_iff_ne] at wrong
    exact wrong.2 (attributed.returned _ _ _ _ _ member readCall List.mem_cons_self wrong.1.symm).1
  · cases wrong

/-- Two calls of one tool, the second result first. -/
theorem same_tool_attributed : Attributed [readCall, { readCall with id := "t2" }]
    (streamFrames oneText {} (roundStream
      (twoFragments "t1" "read_file" ++ twoFragments "t2" "read_file")
      [[⟨.str "text", "t2", "success"⟩, ⟨.str "text", "t1", "success"⟩]])).2 := by
  refine (@attributed_iff oneText _ _ _ _ ?_ ?_ (by decide) (by decide)).mpr ⟨?_, ?_, ?_⟩
  · constructor <;> decide +kernel
  · exact List.forall_mem_cons.mpr ⟨rfl, List.forall_mem_cons.mpr ⟨rfl, List.forall_mem_nil _⟩⟩
  · decide +kernel
  · decide +kernel
  · exact List.forall_mem_cons.mpr ⟨rfl, List.forall_mem_cons.mpr ⟨rfl, List.forall_mem_nil _⟩⟩

end SherryAgent.Guarantees.ToolFrames
