import SherryAgent.Contracts.Agent.Healing
import SherryAgent.Contracts.Agent.Truncation
import SherryAgent.Library.KeyedList
import SherryAgent.Library.Machine

/-!
# An interrupted turn and its marker

The id of a marker is made from the number of human messages in the checkpoint. As long
as every marker in the checkpoint keeps the number of human messages before it, a
healing that finds the marker in place has found the one of its own turn.

* `own_marker` — in every run that keeps the markers' numbers, an interrupted turn has
  its own marker in the checkpoint, with the calls before it answered.
* `marker_of_another_turn` — a compaction between two interruptions: the second finds
  the first one's marker, and its call stays open.
-/

namespace SherryAgent.Guarantees.InterruptMarker

open SherryAgent.Contracts.Agent SherryAgent.Contracts.Transcript SherryAgent.Library.KeyedList
  SherryAgent.Library.Machine SherryAgent.Source.Agent SherryAgent.Source.Transcript

/-- The turn that wrote the marker last. -/
def lastWriter (marker : String) (writes : List (String × Nat)) : Option Nat :=
  (findLast? (·.1 == marker) writes).map (·.2)

/-- The messages after the last human one. -/
def sinceHuman (messages : List Message) : List Message :=
  messages.reverse.takeWhile fun message => !isHuman message

/-- The operation leaves the number of human messages before each marker it keeps as it
is, and an interruption of a turn whose input has not arrived finds no marker of the
turn before. -/
def KeepsNumbers (thread : String) (s : Session) : SessionOp → Prop
  | .remind transient _ => s.messages.Pairwise fun message later =>
      isTransientReminder transient message = true → isHuman message = true →
        ∀ n, ¬IsMarker thread n later
  | .normalize _ => (turns s.messages).2.Pairwise (Spares thread)
  | .compact cutoff _ => (∃ message ∈ s.messages.drop cutoff, ∃ n, IsMarker thread n message) →
      humanCount (s.messages.take cutoff) = 1
  | .interrupt .. => s.phase = .begun →
      ∀ message ∈ sinceHuman s.messages, ∀ n, ¬IsMarker thread n message
  | _ => True

structure Sound (thread : String) (s : Session) : Prop where
  named : ∀ message ∈ s.messages, bearsId message = true
  coherent : Coherent thread (s.phase ≠ .running) 0 s.messages
  healed : s.phase = .healed →
    hasId (markerId thread (humanCount s.messages)) s.messages = true →
      lastWriter (markerId thread (humanCount s.messages)) s.writes = some s.turn ∧
        ClosedAt thread (humanCount s.messages) s.messages
  breakpoint : ∀ breakpoint, s.breakpoint = some breakpoint →
    ∃ n, breakpoint.markerId = markerId thread n

variable {thread : String} {s s' : Session}

/-! ## The operations -/

/-- The list of a running turn, written again. -/
theorem Sound.of_running {messages : List Message} {nextId turn : Nat} {writes : List (String × Nat)}
    {saved : Option Breakpoint} (coherent : Coherent thread False 0 messages)
    (breakpoint : ∀ breakpoint, saved = some breakpoint → ∃ n, breakpoint.markerId = markerId thread n) :
    Sound thread
      { messages := assignIds nextId messages, nextId := nextId + messages.length
        phase := .running, breakpoint := saved, turn, writes } where
  named := named_assignIds _ _
  coherent := (coherent.congr (alike_assignIds _ _ _)).mono False.elim
  healed := fun phase => by cases phase
  breakpoint := breakpoint

theorem Sound.running (sound : Sound thread s) (phase : s.phase = .running) :
    Coherent thread False 0 s.messages :=
  sound.coherent.mono fun other => other phase

theorem Sound.rewrite (sound : Sound thread s) {messages : List Message}
    (phase : s.phase = .running) (coherent : Coherent thread False 0 messages) :
    Sound thread (s.rewrite messages) := by
  rw [Session.rewrite, phase]
  exact .of_running coherent sound.breakpoint

theorem sound_work (sound : Sound thread s) (phase : s.phase = .running) (messages : List Message) :
    Sound thread (s.append messages) :=
  sound.rewrite phase ((sound.running phase).append
    (coherent_of_ordinary (ordinary_withoutIds messages)) False.elim)

/-- Behind a human message no marker is the last of its number. -/
theorem unmarked_of_quiet {messages : List Message} {before : Nat}
    (coherent : Coherent thread False before messages) (quiet : humanCount messages = 0) :
    ∀ message ∈ messages, ∀ n, ¬IsMarker thread n message := by
  intro message member n marker
  have least := coherent.le member marker
  have bound := coherent.lt member marker
  omega

theorem sound_input (sound : Sound thread s) {messages : List Message} (nonempty : messages ≠ [])
    (inputs : messages.all isInput = true) :
    Sound thread { s.append messages with phase := .running } := by
  have all_inputs : ∀ message ∈ withoutIds messages, isInput message = true := by
    have same := (isInput_withoutIds messages).1
    intro message member
    have inside := List.mem_map_of_mem (f := isInput) member
    rw [same] at inside
    obtain ⟨old, present, equal⟩ := List.mem_map.mp inside
    exact equal.symm.trans (List.all_eq_true.mp inputs old present)
  have noAi : nextAi (withoutIds messages) = none := nextAi_eq_none.mpr fun message member => by
    have input := all_inputs message member
    cases message with
    | ai message => cases input
    | _ => rfl
  refine .of_running (sound.coherent.append
    (coherent_of_ordinary (ordinary_withoutIds messages)) fun _ => .inl ?_) sound.breakpoint
  rw [opening_of_nextAi noAi]
  obtain ⟨message, present⟩ := List.exists_mem_of_ne_nil _ nonempty
  exact ⟨_, List.mem_map_of_mem present, all_inputs _ (List.mem_map_of_mem present)⟩

theorem sound_announce (sound : Sound thread s) (phase : s.phase = .running)
    (notices : List (NoticeOrigin × String)) :
    Sound thread (s.rewrite (insertBeforeLastHuman s.messages
      (notices.map fun (origin, text) => notice origin text))) := by
  have coherent := sound.running phase
  have ordinary : ∀ message ∈ notices.map fun (origin, text) => notice origin text,
      Ordinary thread message := by
    intro message member
    obtain ⟨⟨origin, text⟩, -, rfl⟩ := List.mem_map.mp member
    exact ordinary_of_unnamed rfl
  have spec := insertBeforeLast_spec (notices.map fun (origin, text) => notice origin text) s.messages
  refine sound.rewrite phase ?_
  rw [insertBeforeLastHuman]
  split at spec
  · rename_i out inserted
    obtain ⟨first, human, rest, whole, is_human, quiet, rfl⟩ := spec
    rw [whole] at coherent
    rw [inserted, Option.getD_some]
    refine coherent.insert (fun message member n marker => ?_) ordinary
      (nextAi_eq_none.mpr fun message member => ?_)
    · rcases List.mem_cons.mp member with rfl | later
      · obtain ⟨-, assistant, rfl, -⟩ := coherent.at.callless n marker
        cases is_human
      · exact unmarked_of_quiet coherent.right.2 quiet message later n marker
    · obtain ⟨⟨origin, text⟩, -, rfl⟩ := List.mem_map.mp member
      rfl
  · rename_i inserted
    rw [inserted, Option.getD_none]
    exact coherent.append (coherent_of_ordinary ordinary) False.elim

theorem sound_remind (sound : Sound thread s) (phase : s.phase = .running)
    {transient : List String} {injections : List Injection} {out : List Message}
    (injected : injectReminders transient injections s.messages = some out)
    (spared : s.messages.Pairwise fun message later =>
      isTransientReminder transient message = true → isHuman message = true →
        ∀ n, ¬IsMarker thread n later) : Sound thread (s.rewrite out) := by
  obtain ⟨first, final, whole, human, unprompted, rfl⟩ := injectReminders_spec injected
  have coherent := sound.running phase
  have kept : ∀ message ∈ s.messages, isInput message = true ∨ (∃ n, IsMarker thread n message) →
      (!isTransientReminder transient message) = true := by
    intro message member cause
    have unprompted : isSystemReminder message = false := by
      rcases cause with input | ⟨n, marker⟩
      · rw [isInput, Bool.and_eq_true] at input
        simpa using input.2
      · obtain ⟨before, after, same⟩ := List.append_of_mem member
        exact ((same ▸ coherent).at.callless n marker).1
    rw [isTransientReminder, unprompted, Bool.false_and, Bool.not_false]
  have filtered := coherent.filter kept
    (spared.imp fun {_ _} spares gone human => spares (by simpa using gone) human)
  have stays : [final].filter (fun message => !isTransientReminder transient message) = [final] := by
    simp [isTransientReminder, unprompted]
  rw [whole, List.filter_append, stays] at filtered
  have noAi : nextAi (injections.map Injection.reminder) = none :=
    nextAi_eq_none.mpr fun message member => by
      obtain ⟨injection, -, rfl⟩ := List.mem_map.mp member
      rfl
  refine sound.rewrite phase ?_
  rw [List.append_assoc]
  refine filtered.insert (fun message member n marker => ?_) (fun message member => ?_) noAi
  · rw [List.mem_singleton.mp member] at marker
    rw [whole] at coherent
    obtain ⟨-, assistant, rfl, -⟩ := coherent.at.callless n marker
    cases human
  · obtain ⟨injection, -, rfl⟩ := List.mem_map.mp member
    exact ordinary_of_unnamed rfl

theorem sound_edit (sound : Sound thread s) {turnNum : Int}
    (found : 0 ≤ (truncateMessagesAfterTurn turnNum s.messages).1) :
    Sound thread { s with
      messages := (truncateMessagesAfterTurn turnNum s.messages).2
      phase := .idle, breakpoint := none } := by
  unfold truncateMessagesAfterTurn at found ⊢
  split at found
  · cases found
  · rename_i cut at_cut
    obtain ⟨first, human, rest, whole, rfl, counts, -⟩ := cutIndex_eq_some.mp at_cut
    have bears := sound.named
    have coherent := sound.coherent
    rw [whole] at bears coherent
    have none_left : (human :: rest).filter (fun message => !bearsId message) = [] := by
      refine List.filter_eq_nil_iff.mpr fun message member => ?_
      simp [bears message (List.mem_append_right _ member)]
    dsimp only
    rw [whole]
    rw [List.take_left, List.drop_left, none_left, List.append_nil]
    exact ⟨fun message member => bears message (List.mem_append_left _ member),
      (coherent.cut (isHuman_of_counts counts)).mono fun _ running => (by cases running),
      fun healed => (by cases healed), fun _ saved => (by cases saved)⟩

theorem buildNewMessages_spec (thread summary : String) (nextId : Nat) :
    (∀ message ∈ buildNewMessages summary, Ordinary thread message) ∧
      humanCount (buildNewMessages summary) = 1 ∧
      ∃ assistant later, trailingAi (assignIds nextId (buildNewMessages summary)) =
        some (assistant, later) ∧ assistant.toolCalls = [] := by
  refine ⟨fun message member => ?_, rfl, _, _, rfl, rfl⟩
  simp only [buildNewMessages, List.mem_cons, List.not_mem_nil, or_false] at member
  rcases member with rfl | rfl <;> exact ordinary_of_unnamed rfl

/-- The calls stay answered when the messages before them give way to a summary. -/
theorem closed_compact {gone kept summary later : List Message} {assistant : AiMessage}
    (closed : Closed (gone ++ kept)) (summarized : trailingAi summary = some (assistant, later))
    (callless : assistant.toolCalls = []) : Closed (summary ++ kept) := by
  intro last after found call member
  rw [trailingAi_append] at found
  cases ended : trailingAi kept with
  | some pair =>
    rw [ended, Option.some_or] at found
    cases found
    refine closed last after ?_ call member
    rw [trailingAi_append, ended, Option.some_or]
  | none =>
    rw [ended, Option.none_or, summarized] at found
    cases found
    rw [callNames, callless] at member
    cases member

theorem sound_compact (sound : Sound thread s) {cutoff : Nat} {summary : String}
    (spared : (∃ message ∈ s.messages.drop cutoff, ∃ n, IsMarker thread n message) →
      humanCount (s.messages.take cutoff) = 1) :
    Sound thread (s.rewrite (buildNewMessages summary ++ s.messages.drop cutoff)) := by
  obtain ⟨ordinary, one, assistant, later, summarized, callless⟩ :=
    buildNewMessages_spec thread summary s.nextId
  have whole : s.messages.take cutoff ++ s.messages.drop cutoff = s.messages :=
    List.take_append_drop _ _
  have coherent := sound.coherent
  rw [← whole] at coherent
  have renumbered : Coherent thread (s.phase ≠ .running)
      (0 + humanCount (buildNewMessages summary)) (s.messages.drop cutoff) :=
    coherent.right.renumber fun marked => by rw [spared marked, one]
  have summary_coherent : Coherent thread False 0 (buildNewMessages summary) :=
    coherent_of_ordinary ordinary
  have compacted := summary_coherent.append renumbered False.elim
  have kept_named : ∀ message ∈ s.messages.drop cutoff, bearsId message = true :=
    fun message member => sound.named message (List.mem_of_mem_drop member)
  have assigned := assignIds_append_named s.nextId (buildNewMessages summary) kept_named
  have alike := alike_assignIds thread s.nextId
    (buildNewMessages summary ++ s.messages.drop cutoff)
  refine ⟨named_assignIds _ _, compacted.congr alike, ?_, sound.breakpoint⟩
  rw [Session.rewrite]
  dsimp only
  rw [humanCount_alike alike, humanCount_append, one, assigned]
  intro phase present
  have summary_ordinary := ordinary_assignIds s.nextId ordinary
  have in_kept : ∀ message n, message ∈ assignIds s.nextId (buildNewMessages summary) ++
      s.messages.drop cutoff → IsMarker thread n message → message ∈ s.messages.drop cutoff :=
    fun message n member marker => (List.mem_append.mp member).resolve_left fun new =>
      (summary_ordinary message new n).1 marker
  obtain ⟨message, member, marker⟩ := hasId_iff.mp present
  have old := in_kept message _ member marker
  have total : 1 + humanCount (s.messages.drop cutoff) = humanCount s.messages := by
    conv_rhs => rw [← whole, humanCount_append, spared ⟨message, old, _, marker⟩]
  rw [total] at marker ⊢
  have before := sound.healed phase
    (hasId_iff.mpr ⟨message, List.mem_of_mem_drop old, marker⟩)
  refine ⟨before.1, ⟨message, member, marker⟩, ?_⟩
  intro first found rest split_here other
  rcases List.append_eq_append_iff.mp split_here with ⟨kept, rfl, same⟩ | ⟨left, taken, same⟩
  · have closed := before.2.2 (s.messages.take cutoff ++ kept) found rest
      (by rw [List.append_assoc, ← same, whole]) other
    exact closed_compact closed summarized callless
  · cases left with
    | nil =>
      rw [List.append_nil] at taken
      have closed := before.2.2 (s.messages.take cutoff) found rest (by rw [same]; exact whole.symm) other
      rw [← taken, ← List.append_nil (assignIds _ _)]
      rw [← List.append_nil (s.messages.take cutoff)] at closed
      exact closed_compact closed summarized callless
    | cons head left =>
      obtain ⟨rfl, -⟩ := List.cons.inj same
      have new : found ∈ assignIds s.nextId (buildNewMessages summary) :=
        taken ▸ List.mem_append_right _ List.mem_cons_self
      exact absurd other (summary_ordinary found new _).1

theorem sound_resume (sound : Sound thread s) (resumed : s.resume = some s') : Sound thread s' := by
  obtain ⟨saved, present, resumed⟩ := Option.bind_eq_some_iff.mp resumed
  split at resumed
  · obtain ⟨out, restored, resumed⟩ := Option.bind_eq_some_iff.mp resumed
    cases resumed
    obtain ⟨n, named⟩ := sound.breakpoint saved present
    rw [named] at restored
    obtain ⟨alike, bears⟩ := restore_alike sound.coherent restored
    exact ⟨bears sound.named, (sound.coherent.congr alike).mono fun _ => nofun, nofun, nofun⟩
  · cases resumed

/-- The number of the turn belongs to no marker that stands before a human message. -/
theorem unmarked_of_sinceHuman {messages : List Message} {tail : Prop}
    (coherent : Coherent thread tail 0 messages)
    (quiet : ∀ message ∈ sinceHuman messages, ∀ n, ¬IsMarker thread n message) :
    hasId (markerId thread (humanCount messages)) messages = false := by
  refine eq_false_of_ne_true fun present => ?_
  obtain ⟨message, member, marker⟩ := hasId_iff.mp present
  obtain ⟨first, rest, whole⟩ := List.append_of_mem member
  have number := (whole ▸ coherent).at.number _ marker
  have count := congrArg humanCount whole
  rw [humanCount_append, humanCount_cons] at count
  have not_human : isHuman message = false := by
    obtain ⟨-, assistant, rfl, -⟩ := (whole ▸ coherent).at.callless _ marker
    rfl
  have none_after : ∀ other ∈ rest.reverse ++ [message], (!isHuman other) = true := by
    have no_human : humanCount rest = 0 := by omega
    intro other inside
    rcases List.mem_append.mp inside with later | here
    · have other_human := List.countP_eq_zero.mp no_human other (List.mem_reverse.mp later)
      simpa using other_human
    · rw [List.mem_singleton.mp here, not_human, Bool.not_false]
  refine quiet message ?_ _ marker
  have reversed : messages.reverse = (rest.reverse ++ [message]) ++ first.reverse := by
    rw [whole]
    simp
  rw [sinceHuman, reversed, List.takeWhile_append_of_pos none_after]
  exact List.mem_append_left _ (List.mem_append_right _ (List.mem_singleton.mpr rfl))

/-- A turn that may be interrupted here finds no marker, or the one it has written. -/
theorem found_own (sound : Sound thread s) (active : s.phase ≠ .idle)
    (allowed : s.phase = .begun → ∀ message ∈ sinceHuman s.messages, ∀ n, ¬IsMarker thread n message)
    (present : hasId (markerId thread (humanCount s.messages)) s.messages = true) :
    lastWriter (markerId thread (humanCount s.messages)) s.writes = some s.turn ∧
      ClosedAt thread (humanCount s.messages) s.messages := by
  cases phase : s.phase with
  | idle => exact absurd phase active
  | begun =>
    rw [unmarked_of_sinceHuman sound.coherent (allowed phase)] at present
    cases present
  | running =>
    obtain ⟨message, member, marker⟩ := hasId_iff.mp present
    have bound := (sound.running phase).lt member marker
    omega
  | healed => exact sound.healed phase present

section Heal

variable {partialText : String} {reason : InterruptReason} {hasReasoning : Bool} {now : Int}

theorem closedAt_heal (partialText : String) (reason : InterruptReason) (now : Int)
    (absent : hasId (markerId thread (humanCount s.messages)) s.messages = false) :
    ClosedAt thread (humanCount s.messages) (s.messages ++
      ((healTrailingToolCalls s.messages (markerId thread (humanCount s.messages)) now).map .tool ++
        [.ai (interruptMarker (markerId thread (humanCount s.messages)) partialText reason)])) := by
  refine ⟨⟨_, List.mem_append_right _ (List.mem_append_right _ (List.mem_singleton.mpr rfl)), rfl⟩,
    fun first message rest whole marker => ?_⟩
  rw [← List.append_assoc] at whole
  rcases List.append_eq_append_iff.mp whole with ⟨kept, rfl, last⟩ | ⟨left, same, last⟩
  · cases kept with
    | nil =>
      rw [List.append_nil]
      exact closed_heal _ _ _
    | cons head kept => simp at last
  · cases left with
    | nil =>
      rw [List.append_nil] at same
      rw [← same]
      exact closed_heal _ _ _
    | cons head left =>
      obtain ⟨rfl, -⟩ := List.cons.inj last
      have inside : message ∈ s.messages ++
          (healTrailingToolCalls s.messages (markerId thread (humanCount s.messages)) now).map .tool :=
        same ▸ List.mem_append_right _ List.mem_cons_self
      rcases List.mem_append.mp inside with old | placeholder
      · rw [hasId_iff.mpr ⟨message, old, marker⟩] at absent
        cases absent
      · obtain ⟨result, made, rfl⟩ := List.mem_map.mp placeholder
        exact absurd marker (heal_placeholder made).not_marker

theorem lastWriter_append (marker : String) (writes : List (String × Nat)) (turn : Nat) :
    lastWriter marker (writes ++ [(marker, turn)]) = some turn := by
  induction writes with
  | nil => simp [lastWriter, findLast?]
  | cons write writes ih =>
    rw [lastWriter] at ih
    obtain ⟨found, last, writer⟩ := Option.map_eq_some_iff.mp ih
    rw [lastWriter, List.cons_append, findLast?, last, Option.some_or, Option.map_some, writer]

theorem heal_spec (sound : Sound thread s) (active : s.phase ≠ .idle)
    (allowed : s.phase = .begun → ∀ message ∈ sinceHuman s.messages, ∀ n, ¬IsMarker thread n message) :
    Sound thread (s.heal thread partialText reason hasReasoning now) ∧
      lastWriter (markerId thread (humanCount s.messages))
        (s.heal thread partialText reason hasReasoning now).writes = some s.turn ∧
      ClosedAt thread (humanCount s.messages)
        (s.heal thread partialText reason hasReasoning now).messages := by
  cases present : hasId (markerId thread (humanCount s.messages)) s.messages with
  | true =>
    have own := found_own sound active allowed present
    have unchanged : s.heal thread partialText reason hasReasoning now =
        { s with phase := .healed } := by
      simp [Session.heal, healWithGraph, present, isResumable]
    rw [unchanged]
    exact ⟨⟨sound.named, sound.coherent.mono fun _ => nofun, fun _ _ => own, sound.breakpoint⟩, own⟩
  | false =>
    have healed := heal_appends partialText reason now
      sound.coherent present
    have coherent := coherent_heal partialText reason now
      sound.coherent
    have closed := closedAt_heal partialText reason now present
    have count : humanCount (s.messages ++
        ((healTrailingToolCalls s.messages (markerId thread (humanCount s.messages)) now).map .tool ++
          [.ai (interruptMarker (markerId thread (humanCount s.messages)) partialText reason)])) =
        humanCount s.messages := by
      rw [humanCount_append, humanCount_append, humanCount_tools]
      rfl
    rw [Session.heal, healed]
    dsimp only
    refine ⟨⟨fun message member => ?_, coherent.mono fun _ => nofun, fun _ _ => ?_,
      fun saved => ?_⟩, ?_, closed⟩
    · rcases List.mem_append.mp member with old | new
      · exact sound.named message old
      · rcases List.mem_append.mp new with placeholder | marker
        · obtain ⟨result, made, rfl⟩ := List.mem_map.mp placeholder
          exact (heal_placeholder made).named
        · rw [List.mem_singleton.mp marker]
          exact bearsId_of_id rfl (markerId_ne_empty _ _)
    · rw [count]
      exact ⟨lastWriter_append _ _ _, closed⟩
    · split
      · intro same
        cases same
        exact ⟨_, rfl⟩
      · exact sound.breakpoint saved
    · exact lastWriter_append _ _ _

end Heal

theorem sound_step (sound : Sound thread s) {op : SessionOp} (allowed : KeepsNumbers thread s op)
    (stepped : Session.step thread s op = some s') : Sound thread s' := by
  cases op with
  | begin =>
    cases stepped
    exact ⟨sound.named, sound.coherent.mono fun _ => nofun, nofun, nofun⟩
  | input messages =>
    obtain ⟨⟨-, nonempty, inputs⟩, stepped⟩ := Option.ite_none_right_eq_some.mp stepped
    cases stepped
    exact sound_input sound nonempty inputs
  | announce notices =>
    obtain ⟨running, stepped⟩ := Option.ite_none_right_eq_some.mp stepped
    cases stepped
    exact sound_announce sound running notices
  | remind transient injections =>
    obtain ⟨running, stepped⟩ := Option.ite_none_right_eq_some.mp stepped
    obtain ⟨out, injected, rfl⟩ := Option.map_eq_some_iff.mp stepped
    exact sound_remind sound running injected allowed
  | normalize clock =>
    obtain ⟨running, stepped⟩ := Option.ite_none_right_eq_some.mp stepped
    cases stepped
    exact sound.rewrite running (coherent_sanitize clock (sound.running running) allowed)
  | work messages =>
    obtain ⟨running, stepped⟩ := Option.ite_none_right_eq_some.mp stepped
    cases stepped
    exact sound_work sound running messages
  | finish =>
    obtain ⟨running, stepped⟩ := Option.ite_none_right_eq_some.mp stepped
    cases stepped
    exact ⟨sound.named, sound.coherent.mono fun _ => nofun, nofun, sound.breakpoint⟩
  | interrupt partialText reason hasReasoning now =>
    obtain ⟨active, stepped⟩ := Option.ite_none_left_eq_some.mp stepped
    cases stepped
    exact (heal_spec sound active allowed).1
  | resume => exact sound_resume sound stepped
  | compact cutoff summary =>
    obtain ⟨-, stepped⟩ := Option.ite_none_right_eq_some.mp stepped
    cases stepped
    exact sound_compact sound allowed
  | edit turnNum =>
    obtain ⟨found, stepped⟩ := Option.ite_none_left_eq_some.mp stepped
    cases stepped
    exact sound_edit sound (Int.not_lt.mp found)

theorem sound_start (thread : String) (inherited : List Message) :
    Sound thread (.start inherited) :=
  ⟨named_assignIds _ _,
    coherent_of_ordinary (ordinary_assignIds 0 (ordinary_withoutIds inherited)), nofun, nofun⟩

/-- In every run whose steps keep the numbers of the markers, a turn that is interrupted
has its marker in the checkpoint, with every call before it answered; a marker that the
healing reports as already in the state was written by the same turn. -/
theorem own_marker {inherited : List Message} {partialText : String} {reason : InterruptReason}
    {hasReasoning : Bool} {now : Int}
    (run : Runs (Session.step thread) (KeepsNumbers thread) (.start inherited) s)
    (allowed : KeepsNumbers thread s (.interrupt partialText reason hasReasoning now))
    (interrupted : Session.step thread s (.interrupt partialText reason hasReasoning now) =
      some s') :
    ((healWithGraph thread partialText reason now s.messages).1.wroteCheckpointer = false →
        lastWriter (markerId thread (humanCount s.messages)) s.writes = some s.turn) ∧
      ClosedAt thread (humanCount s.messages) s'.messages := by
  have sound : Sound thread s := run.invariant (Sound thread) (sound_start thread inherited)
    fun _ _ _ sound allowed stepped => sound_step sound allowed stepped
  obtain ⟨active, interrupted⟩ := Option.ite_none_left_eq_some.mp interrupted
  cases interrupted
  refine ⟨fun found => ?_, (heal_spec sound active allowed).2.2⟩
  refine (found_own sound active allowed ?_).1
  unfold healWithGraph at found
  dsimp only at found
  split at found
  · assumption
  · cases found

/-! ## Runs -/

def said (text : String) : Message := .plain { role := .human, content := .text text }

def replied (text : String) : Message := .ai { content := .text text }

def calls (id : String) : Message :=
  .ai { toolCalls := [.obj [("type", .str "tool_call"), ("id", .str id), ("name", .str "terminal")]] }

def stop : SessionOp := .interrupt "" .cancelled false 0

/-- A check that `KeepsNumbers` follows from. -/
def keepsNumbersCheck (s : Session) : SessionOp → Bool
  | .compact cutoff _ => humanCount (s.messages.take cutoff) == 1
  | .interrupt .. => s.phase != .begun
  | .remind .. | .normalize _ => false
  | _ => true

theorem keepsNumbers_of_check (thread : String) {op : SessionOp} (checked : keepsNumbersCheck s op = true) :
    KeepsNumbers thread s op := by
  cases op with
  | compact cutoff summary => exact fun _ => eq_of_beq checked
  | interrupt partialText reason hasReasoning now =>
    intro begun
    simp [keepsNumbersCheck, begun] at checked
  | remind transient injections => cases checked
  | normalize clock => cases checked
  | _ => trivial

/-- A turn interrupted during a call, after a compaction that kept the marker of the turn
before; the healing is tried twice. -/
theorem own_marker_after_compaction : ∃ s s', Runs (Session.step "t") (KeepsNumbers "t") (.start []) s ∧
    Session.step "t" s stop = some s' ∧ humanCount s.messages = 2 ∧
    ((healWithGraph "t" "" .cancelled 0 s.messages).1.wroteCheckpointer = false →
      lastWriter (markerId "t" (humanCount s.messages)) s.writes = some s.turn) ∧
    ClosedAt "t" (humanCount s.messages) s'.messages := by
  have played : (play (Session.step "t") keepsNumbersCheck (.start [])
      [.begin, .input [said "a"], stop, .begin, .input [said "b"], .compact 1 "a", .work [calls "c"],
        stop]).any
      (fun s => s.phase == .healed && humanCount s.messages == 2) = true := by decide +kernel
  obtain ⟨s, run, reached⟩ := Runs.exists_of_play played
  obtain ⟨healed, count⟩ := (Bool.and_eq_true _ _).mp reached
  have active : s.phase ≠ .idle := fun idle => by rw [idle] at healed; cases healed
  have allowed : KeepsNumbers "t" s stop := fun begun => by rw [begun] at healed; cases healed
  have stepped : Session.step "t" s stop = some (s.heal "t" "" .cancelled false 0) := if_neg active
  have run' := run.mono fun _ _ checked => keepsNumbers_of_check "t" checked
  exact ⟨s, _, run', stepped, eq_of_beq count, own_marker run' allowed stepped⟩

/-- The last assistant's calls have an answer each. -/
def answeredAll (messages : List Message) : Bool :=
  (trailingAi messages).all fun (assistant, later) =>
    (callNames assistant).all fun call => later.any (answers call.1)

/-- The third of three turns is interrupted. The first two are then replaced by a summary,
so the fourth turn is again the third human message; when it is interrupted in its turn,
the marker of the third is taken for its own, and its call stays without an answer. -/
theorem marker_of_another_turn : ∃ s s', Runs (Session.step "t") (fun _ _ => True) (.start []) s ∧
    Session.step "t" s stop = some s' ∧
    (healWithGraph "t" "" .cancelled 0 s.messages).1.wroteCheckpointer = false ∧
    lastWriter (markerId "t" (humanCount s.messages)) s.writes ≠ some s.turn ∧
    answeredAll s'.messages = false := by
  have played : (play (Session.step "t") (fun _ _ => true) (.start [])
      [.begin, .input [said "a"], .work [replied "b"], .finish,
        .begin, .input [said "c"], .work [replied "d"], .finish,
        .begin, .input [said "e"], stop,
        .begin, .input [said "f"], .compact 4 "a c", .work [calls "g"]]).any
      (fun s => (Session.step "t" s stop).any fun s' =>
        !(healWithGraph "t" "" .cancelled 0 s.messages).1.wroteCheckpointer &&
          (lastWriter (markerId "t" (humanCount s.messages)) s.writes != some s.turn &&
            !answeredAll s'.messages)) = true := by decide +kernel
  obtain ⟨s, run, reached⟩ := Runs.exists_of_play played
  obtain ⟨s', stepped, test⟩ := (Option.any_eq_true _ _).mp reached
  rw [Bool.and_eq_true, Bool.and_eq_true, Bool.not_eq_true', Bool.not_eq_true', bne_iff_ne] at test
  exact ⟨s, s', run.mono fun _ _ _ => trivial, stepped, test⟩

end SherryAgent.Guarantees.InterruptMarker
