import SherryAgent.Contracts.Agent.Counting
import SherryAgent.Library.Machine
import SherryAgent.Source.Server.EditMessage

/-!
# An edit cuts at the message it names

* `cuts_exactly`: in every run without a compaction, in which what is put into the
  checkpoint is counted by both stores or by neither, the repair drops no stored user
  message, and an edit takes the first user row of its turn, the ordinal of every user row
  cuts the checkpoint at that row's message; a compaction ends this for the first user row.
* `cuts_after_compaction`: a compaction between a turn and its edit.
-/

namespace SherryAgent.Guarantees.EditOrdinal

open SherryAgent.Library.Machine SherryAgent.Source SherryAgent.Source.Agent
  SherryAgent.Source.ContextEngine SherryAgent.Source.Persistence SherryAgent.Source.Server
  SherryAgent.Source.Transcript SherryAgent.Contracts.Agent SherryAgent.Contracts.ContextEngine

variable {thread : String} {w w' : Conversation} {s s' : Session} {row : TurnRow}

/-- The list cut at the message with the id, and how many messages that removes; -1 where
there is none. -/
def rewind (source : Option String) (messages : List Message) : Int × List Message :=
  match messages.findIdx? (messageId · == source) with
  | some place => ((messages.drop place).length, messages.take place)
  | none => (-1, messages)

/-- The ordinal of the user row an edit chooses cuts the checkpoint at the row's message. -/
def CutsExactly (w : Conversation) (turnNum : Nat) (rowId : Option Nat) : Prop :=
  ∀ row, cutRow w.rows turnNum rowId = some row → isUserRow row = true →
    ∃ ordinal, findUserTurnCut w.rows turnNum rowId = some (ordinal, row.turnNum) ∧
      truncateMessagesAfterTurn ordinal w.session.messages = rewind row.message w.session.messages

def isStored (w : Conversation) (message : Message) : Bool :=
  (messageId message).any w.stored.contains

/-- Both stores count what the step adds, it takes no stored user message out, and an edit
takes the first user row of its turn. -/
def KeepsOrdinals (w : Conversation) : ConversationOp → Prop
  | .session (.input messages) | .session (.work messages) => ∀ message ∈ messages, Balanced message
  | .session (.remind _ injections) => ∀ injection ∈ injections, Balanced injection.reminder
  | .session (.normalize clock) => ∀ message ∈ w.session.messages, countsAsTurn message = true →
      isStored w message = true → message ∈ sanitizeToolUseResultPairing clock w.session.messages
  | .session (.compact ..) => False
  | .edit turnNum rowId => ∀ row, cutRow w.rows turnNum rowId = some row → isUserRow row = true ∧
      ∀ other ∈ w.rows, isUserRow other = true → other.turnNum = row.turnNum → row.id ≤ other.id
  | _ => True

/-! ## What a step does to the checkpoint -/

structure SessionCounts (thread : String) (s : Session) : Prop where
  countable : Countable s.nextId s.messages
  breakpoint : ∀ saved, s.breakpoint = some saved → ∃ n, saved.markerId = markerId thread n

/-- Of the counted messages those in `kept` are left, with new ones behind them. -/
structure Carried (s s' : Session) (kept : List Message) : Prop where
  spared : kept.Sublist (counted s.messages)
  assigned : ∃ new, counted s'.messages = kept ++ new ∧
    ∀ message ∈ new, ∃ k, s.nextId ≤ k ∧ messageId message = some (uuid k)
  later : s.nextId ≤ s'.nextId

theorem Carried.of_same (same : counted s'.messages = counted s.messages)
    (later : s.nextId ≤ s'.nextId) : Carried s s' (counted s.messages) :=
  ⟨.refl _, ⟨[], by rw [same, List.append_nil], nofun⟩, later⟩

theorem counts_rewrite {out kept : List Message} (counts : SessionCounts thread s)
    (rewrites : Rewrites s.messages kept out) :
    SessionCounts thread (s.rewrite out) ∧ Carried s (s.rewrite out) kept := by
  obtain ⟨countable, assigned⟩ := counts.countable.rewrite rewrites
  exact ⟨⟨countable, counts.breakpoint⟩, rewrites.spared, assigned, Nat.le_add_right _ _⟩

theorem extra_marker {n : Nat} {message : AiMessage} (marker : message.id = some (markerId thread n)) :
    Extra (.ai message) where
  other := rfl
  named := IsMarker.named (show IsMarker thread n (.ai message) from marker)
  foreign _ same := uuid_ne_markerId (Option.some.inj (same.symm.trans marker))

theorem extra_placeholder {n : Nat} {result : ToolMessage}
    (placeholder : IsPlaceholder thread n (.tool result)) : Extra (.tool result) where
  other := rfl
  named := placeholder.named
  foreign _ same := by
    obtain ⟨call, named⟩ := placeholder
    exact uuid_ne_healId (Option.some.inj (same.symm.trans named))

theorem healWithGraph_markerId (thread partialText : String) (reason : InterruptReason) (now : Int)
    (messages : List Message) :
    (healWithGraph thread partialText reason now messages).1.markerId =
      markerId thread (humanCount messages) := by
  unfold healWithGraph
  dsimp only
  split <;> rfl

theorem counts_heal (counts : SessionCounts thread s) (partialText : String)
    (reason : InterruptReason) (hasReasoning : Bool) (now : Int) :
    SessionCounts thread (s.heal thread partialText reason hasReasoning now) ∧
      Carried s (s.heal thread partialText reason hasReasoning now) (counted s.messages) := by
  have healed : Countable s.nextId (healWithGraph thread partialText reason now s.messages).2 ∧
      counted (healWithGraph thread partialText reason now s.messages).2 = counted s.messages := by
    unfold healWithGraph
    dsimp only
    split
    · exact ⟨counts.countable, rfl⟩
    · refine countable_addMessages counts.countable fun message member => ?_
      rcases List.mem_append.mp member with placeholder | marker
      · obtain ⟨result, made, rfl⟩ := List.mem_map.mp placeholder
        exact extra_placeholder (heal_placeholder made)
      · rw [List.mem_singleton.mp marker]
        exact extra_marker rfl
  refine ⟨⟨healed.1, fun saved present => ?_⟩, .of_same healed.2 le_rfl⟩
  change (if _ then some _ else s.breakpoint) = some saved at present
  split at present
  · obtain rfl := Option.some.inj present
    exact ⟨humanCount s.messages, healWithGraph_markerId ..⟩
  · exact counts.breakpoint saved present

theorem counts_resume (counts : SessionCounts thread s) (resumed : s.resume = some s') :
    SessionCounts thread s' ∧ Carried s s' (counted s.messages) := by
  obtain ⟨saved, present, resumed⟩ := Option.bind_eq_some_iff.mp resumed
  split at resumed
  · obtain ⟨out, restored, resumed⟩ := Option.bind_eq_some_iff.mp resumed
    cases resumed
    obtain ⟨n, named⟩ := counts.breakpoint saved present
    unfold restoreInterruptMarker at restored
    split at restored
    · cases restored
      have extra : ∀ message ∈ [Message.ai
          { id := some saved.markerId, content := .text saved.partialText }], Extra message :=
        fun message member => List.mem_singleton.mp member ▸ extra_marker (congrArg some named)
      obtain ⟨countable, same⟩ := countable_addMessages counts.countable extra
      exact ⟨⟨countable, nofun⟩, .of_same same le_rfl⟩
    · cases restored
  · cases resumed

/-- A step on the checkpoint keeps the counted messages; the repair keeps the stored ones. -/
theorem counts_step (counts : SessionCounts thread w.session) {op : SessionOp}
    (allowed : KeepsOrdinals w (.session op)) (other : ∀ turnNum, op ≠ .edit turnNum)
    (stepped : w.session.step thread op = some s') :
    SessionCounts thread s' ∧ ∃ kept, Carried w.session s' kept ∧
      ∀ message ∈ counted w.session.messages, isStored w message = true → message ∈ kept := by
  cases op with
  | begin =>
    cases stepped
    exact ⟨⟨counts.countable, nofun⟩, _, .of_same rfl le_rfl, fun _ member _ => member⟩
  | input messages =>
    obtain ⟨-, stepped⟩ := Option.ite_none_right_eq_some.mp stepped
    cases stepped
    obtain ⟨kept_counts, carried⟩ :=
      counts_rewrite counts (rewrites_append counts.countable allowed)
    exact ⟨⟨kept_counts.countable, kept_counts.breakpoint⟩, _,
      ⟨carried.spared, carried.assigned, carried.later⟩, fun _ member _ => member⟩
  | announce notices =>
    obtain ⟨-, stepped⟩ := Option.ite_none_right_eq_some.mp stepped
    cases stepped
    obtain ⟨kept_counts, carried⟩ :=
      counts_rewrite counts (rewrites_announce counts.countable notices)
    exact ⟨kept_counts, _, carried, fun _ member _ => member⟩
  | remind transient injections =>
    obtain ⟨-, stepped⟩ := Option.ite_none_right_eq_some.mp stepped
    obtain ⟨out, injected, rfl⟩ := Option.map_eq_some_iff.mp stepped
    obtain ⟨kept_counts, carried⟩ :=
      counts_rewrite counts (rewrites_remind counts.countable injected allowed)
    exact ⟨kept_counts, _, carried, fun _ member _ => member⟩
  | normalize clock =>
    obtain ⟨-, stepped⟩ := Option.ite_none_right_eq_some.mp stepped
    cases stepped
    obtain ⟨kept_counts, carried⟩ :=
      counts_rewrite counts (rewrites_normalize counts.countable clock)
    refine ⟨kept_counts, _, carried, fun message member stored => ?_⟩
    obtain ⟨inside, turn⟩ := mem_counted.mp member
    exact mem_counted.mpr ⟨allowed message inside turn stored, turn⟩
  | work messages =>
    obtain ⟨-, stepped⟩ := Option.ite_none_right_eq_some.mp stepped
    cases stepped
    obtain ⟨kept_counts, carried⟩ :=
      counts_rewrite counts (rewrites_append counts.countable allowed)
    exact ⟨kept_counts, _, carried, fun _ member _ => member⟩
  | finish =>
    obtain ⟨-, stepped⟩ := Option.ite_none_right_eq_some.mp stepped
    cases stepped
    exact ⟨⟨counts.countable, counts.breakpoint⟩, _, .of_same rfl le_rfl, fun _ member _ => member⟩
  | interrupt partialText reason hasReasoning now =>
    obtain ⟨-, stepped⟩ := Option.ite_none_left_eq_some.mp stepped
    cases stepped
    obtain ⟨kept_counts, carried⟩ := counts_heal counts partialText reason hasReasoning now
    exact ⟨kept_counts, _, carried, fun _ member _ => member⟩
  | resume =>
    obtain ⟨kept_counts, carried⟩ := counts_resume counts stepped
    exact ⟨kept_counts, _, carried, fun _ member _ => member⟩
  | compact cutoff summary => exact allowed.elim
  | edit turnNum => exact absurd rfl (other turnNum)

/-! ## What the two stores agree on -/

/-- The user rows are made from the first of the counted messages; the others are not stored. -/
structure Agrees (thread : String) (w : Conversation) : Prop where
  counts : SessionCounts thread w.session
  spent : ∀ k, uuid k ∈ w.stored → k < w.session.nextId
  recorded : ∃ onRecord waiting, counted w.session.messages = onRecord ++ waiting ∧
    (w.rows.filter isUserRow).map (·.message) = onRecord.map messageId ∧
    (∀ message ∈ onRecord, isStored w message = true) ∧
    ∀ message ∈ waiting, isStored w message = false
  ordered : Ordered w.sequence w.rows

theorem isStored_of_uuid {k : Nat} {message : Message} (named : messageId message = some (uuid k)) :
    isStored w message = true ↔ uuid k ∈ w.stored := by
  rw [isStored, named, Option.any_some, List.contains_iff_mem]

theorem agrees_session {kept : List Message} (agrees : Agrees thread w)
    (counts : SessionCounts thread s') (carried : Carried w.session s' kept)
    (spared : ∀ message ∈ counted w.session.messages, isStored w message = true → message ∈ kept) :
    Agrees thread { w with session := s' } := by
  obtain ⟨onRecord, waiting, whole, rows, stored, unstored⟩ := agrees.recorded
  obtain ⟨new, assigned, fresh⟩ := carried.assigned
  obtain ⟨first, rest, rfl, from_record, from_waiting⟩ :=
    List.sublist_append_iff.mp (whole ▸ carried.spared)
  have same : first = onRecord := by
    refine from_record.eq_of_length_le (List.subperm_of_subset ?_ ?_).length_le
    · have distinct := agrees.counts.countable.distinct.of_map
      rw [whole] at distinct
      exact distinct.sublist (List.sublist_append_left _ _)
    · intro message member
      have known : message ∈ counted w.session.messages := whole ▸ List.mem_append_left _ member
      rcases List.mem_append.mp (spared message known (stored message member)) with here | later
      · exact here
      · have present := stored message member
        rw [unstored message (from_waiting.subset later)] at present
        cases present
  subst same
  refine ⟨counts, fun k member => (agrees.spent k member).trans_le carried.later,
    ⟨first, rest ++ new, by rw [assigned, List.append_assoc], rows, stored, fun message member => ?_⟩,
    agrees.ordered⟩
  rcases List.mem_append.mp member with old | added
  · exact unstored message (from_waiting.subset old)
  · obtain ⟨k, later, named⟩ := fresh message added
    refine eq_false_of_ne_true fun present => ?_
    have bound := agrees.spent k ((isStored_of_uuid (w := w) named).mp present)
    omega

/-- Where a user row's message is: the user rows before it are made from the counted
messages before it. -/
theorem place_of_row (agrees : Agrees thread w) (member : row ∈ w.rows)
    (user : isUserRow row = true) :
    ∃ before after first message rest, w.rows = before ++ row :: after ∧
      w.session.messages = first ++ message :: rest ∧ countsAsTurn message = true ∧
      messageId message = row.message ∧
      (before.filter isUserRow).map (·.message) = (counted first).map messageId ∧
      (∀ message ∈ counted first, isStored w message = true) := by
  obtain ⟨onRecord, waiting, whole, rows, stored, -⟩ := agrees.recorded
  obtain ⟨before, after, split_rows⟩ := List.append_of_mem member
  rw [split_rows, List.filter_append, List.filter_cons_of_pos user, List.map_append, List.map_cons,
    eq_comm, List.map_eq_append_iff] at rows
  obtain ⟨earlier, others, rfl, same, others_eq⟩ := rows
  obtain ⟨message, later, rfl, id, -⟩ := List.map_eq_cons_iff.mp others_eq
  rw [List.append_assoc, counted] at whole
  obtain ⟨first, others, messages, counted_first, split_others⟩ := List.filter_eq_append_iff.mp whole
  obtain ⟨gone, rest, rfl, uncounted, turn, -⟩ := List.filter_eq_cons_iff.mp split_others
  have same_first : counted (first ++ gone) = earlier := by
    have none_counted : counted gone = [] :=
      counted_eq_nil fun other inside => eq_false_of_ne_true (uncounted other inside)
    rw [counted_append, none_counted, List.append_nil]
    exact counted_first
  refine ⟨before, after, first ++ gone, message, rest, split_rows, by rw [messages]; simp, turn, id,
    by rw [same_first, same], fun other inside => ?_⟩
  exact stored other (List.mem_append_left _ (same_first ▸ inside))

/-- The list is cut before a counted message by its number, -/
theorem truncate_at {next : Nat} {messages first rest : List Message} {message : Message}
    (countable : Countable next messages) (whole : messages = first ++ message :: rest)
    (turn : countsAsTurn message = true) :
    truncateMessagesAfterTurn ((counted first).length + 1 : Nat) messages =
      (((message :: rest).length : Int), first) := by
  have cut : cutIndex ((counted first).length + 1 : Nat) 0 messages = some first.length := by
    refine cutIndex_eq_some.mpr ⟨first, message, rest, whole, rfl, turn, ?_⟩
    rw [counted, ← List.countP_eq_length_filter]
    omega
  have named : ∀ other ∈ message :: rest, bearsId other = true := fun other member =>
    countable.named other (whole ▸ List.mem_append_right _ member)
  have removed : (message :: rest).filter bearsId = message :: rest := List.filter_eq_self.mpr named
  have unnamed : (message :: rest).filter (fun other => !bearsId other) = [] :=
    List.filter_eq_nil_iff.mpr fun other member => by simp [named other member]
  unfold truncateMessagesAfterTurn
  rw [cut]
  dsimp only
  rw [whole, List.drop_left, List.take_left, removed, unnamed, List.append_nil]

/-- and so it is by the message's id. -/
theorem rewind_at {next : Nat} {messages first rest : List Message} {message : Message}
    (countable : Countable next messages) (whole : messages = first ++ message :: rest)
    (turn : countsAsTurn message = true) :
    rewind (messageId message) messages = (((message :: rest).length : Int), first) := by
  have inside : message ∈ counted messages :=
    mem_counted.mpr ⟨whole ▸ List.mem_append_right _ List.mem_cons_self, turn⟩
  have missed : ∀ other ∈ first, (messageId other == messageId message) = false := by
    intro other member
    rw [beq_eq_false_iff_ne]
    cases kind : countsAsTurn other with
    | false => exact countable.apart other (whole ▸ List.mem_append_left _ member) kind message inside
    | true =>
      have distinct := countable.distinct
      rw [whole, counted_append, List.map_append, List.nodup_append] at distinct
      refine distinct.2.2 _ (List.mem_map_of_mem (mem_counted.mpr ⟨member, kind⟩)) _
        (List.mem_map_of_mem (mem_counted.mpr ⟨List.mem_cons_self, turn⟩))
  have found : messages.findIdx? (messageId · == messageId message) = some first.length := by
    rw [whole, List.findIdx?_append, List.findIdx?_eq_none_iff.mpr missed, List.findIdx?_cons,
      beq_self_eq_true]
    simp
  unfold rewind
  rw [found]
  dsimp only
  rw [whole, List.drop_left, List.take_left]

/-- The ordinal of a user row cuts the checkpoint before the message of the row. -/
theorem cut_at_row (agrees : Agrees thread w) (member : row ∈ w.rows)
    (user : isUserRow row = true) :
    ∃ before after first message rest, w.rows = before ++ row :: after ∧
      w.session.messages = first ++ message :: rest ∧
      truncateMessagesAfterTurn (userOrdinal w.rows row) w.session.messages =
        (((message :: rest).length : Int), first) ∧
      rewind row.message w.session.messages = (((message :: rest).length : Int), first) ∧
      (before.filter isUserRow).map (·.message) = (counted first).map messageId ∧
      (∀ message ∈ counted first, isStored w message = true) := by
  obtain ⟨before, after, first, message, rest, rows, whole, turn, id, same, stored⟩ :=
    place_of_row agrees member user
  have ordered := agrees.ordered
  rw [rows] at ordered
  have number : userOrdinal w.rows row = (counted first).length + 1 := by
    have length := congrArg List.length same
    rw [List.length_map, List.length_map] at length
    rw [rows, userOrdinal_eq ordered user, length]
  refine ⟨before, after, first, message, rest, rows, whole, ?_, ?_, same, stored⟩
  · rw [number]
    exact truncate_at agrees.counts.countable whole turn
  · rw [← id]
    exact rewind_at agrees.counts.countable whole turn

theorem findUserTurnCut_of_cutRow {rows : List TurnRow} {turnNum : Nat} {rowId : Option Nat}
    (chosen : cutRow rows turnNum rowId = some row) :
    findUserTurnCut rows turnNum rowId = some (userOrdinal rows row, row.turnNum) := by
  rw [findUserTurnCut, chosen, Option.map_some]

theorem cutsExactly_of_agrees (agrees : Agrees thread w) (turnNum : Nat) (rowId : Option Nat) :
    CutsExactly w turnNum rowId := by
  intro row chosen user
  obtain ⟨_, _, _, _, _, -, -, cut, same, -, -⟩ := cut_at_row agrees (mem_of_cutRow chosen) user
  exact ⟨_, findUserTurnCut_of_cutRow chosen, cut.trans same.symm⟩

/-! ## Flushes and edits -/

theorem isUserMessage_tool (message : ToolMessage) : isUserMessage (.tool message) = false := by
  simp [isUserMessage, buildRow]

theorem dedup_spec (seen : List String) (batch : List Message) :
    (dedupToolResults seen batch).filter isUserMessage = batch.filter isUserMessage ∧
      ∀ message ∈ dedupToolResults seen batch, message ∈ batch := by
  have step : ∀ (message : Message) (rest out : List Message),
      out.filter isUserMessage = rest.filter isUserMessage ∧ (∀ other ∈ out, other ∈ rest) →
      ((message :: out).filter isUserMessage = (message :: rest).filter isUserMessage ∧
        ∀ other ∈ message :: out, other ∈ message :: rest) := by
    intro message rest out ⟨same, old⟩
    refine ⟨by rw [List.filter_cons, List.filter_cons, same], fun other member => ?_⟩
    exact (List.mem_cons.mp member).elim (fun here => here ▸ List.mem_cons_self)
      fun later => List.mem_cons_of_mem _ (old other later)
  fun_induction dedupToolResults seen batch with
  | case1 seen => exact ⟨rfl, fun _ member => member⟩
  | case2 seen message rest empty ih | case4 seen message rest full named known ih =>
    refine ⟨?_, fun other member => List.mem_cons_of_mem _ (ih.2 other member)⟩
    rw [ih.1, List.filter_cons_of_neg (Bool.eq_false_iff.mp (isUserMessage_tool message))]
  | case3 seen message rest full unnamed ih => exact step _ _ _ ih
  | case5 seen message rest full named fresh ih => exact step _ _ _ ih
  | case6 seen message rest other ih => exact step _ _ _ ih

/-- What is pending holds the counted messages that are not stored. -/
theorem pending_user (agrees : Agrees thread w) :
    w.pending.filter isUserMessage =
      (counted w.session.messages).filter fun message => !isStored w message := by
  rw [Conversation.pending, counted, List.filter_filter, List.filter_filter]
  refine List.filter_congr fun message member => ?_
  have balanced : countsAsTurn message = isUserMessage message :=
    agrees.counts.countable.balanced message member
  rw [balanced, isUserMessage, isStored]
  cases isPersistable message <;> simp [Bool.and_comm]

theorem agrees_flush (agrees : Agrees thread w) (count : Nat) : Agrees thread (w.flush count) := by
  obtain ⟨onRecord, waiting, whole, rows, stored, unstored⟩ := agrees.recorded
  have waits : w.pending.filter isUserMessage = waiting := by
    have none_left : onRecord.filter (fun message => !isStored w message) = [] :=
      List.filter_eq_nil_iff.mpr fun message member => by simp [stored message member]
    have all_left : waiting.filter (fun message => !isStored w message) = waiting :=
      List.filter_eq_self.mpr fun message member => by simp [unstored message member]
    rw [pending_user agrees, whole, List.filter_append, none_left, all_left, List.nil_append]
  unfold Conversation.flush
  dsimp only
  generalize taken : w.pending.take count = batch
  have batch_old : ∀ message ∈ batch, message ∈ w.session.messages ∧ isPersistable message = true := by
    intro message member
    obtain ⟨inside, persists⟩ := List.mem_filter.mp (List.mem_of_mem_take (taken ▸ member))
    exact ⟨inside, ((Bool.and_eq_true _ _).mp persists).1⟩
  obtain ⟨user, old⟩ := dedup_spec [] batch
  split
  · exact agrees
  · -- the user messages of the batch are the first that wait
    have parted : waiting = batch.filter isUserMessage ++
        (w.pending.drop count).filter isUserMessage := by
      rw [← waits, ← List.filter_append, ← taken, List.take_append_drop]
    generalize (w.pending.drop count).filter isUserMessage = left at parted
    subst parted
    have distinct := agrees.counts.countable.distinct
    rw [whole, ← List.append_assoc] at distinct
    refine ⟨agrees.counts, fun k member => ?_, ⟨onRecord ++ batch.filter isUserMessage, left,
      by rw [whole, List.append_assoc], ?_, fun message member => ?_, fun message member => ?_⟩,
      agrees.ordered.append_batch _⟩
    · rcases List.mem_append.mp member with before | new
      · exact agrees.spent k before
      · obtain ⟨message, inside, named⟩ := List.mem_filterMap.mp new
        exact agrees.counts.countable.fresh message (batch_old message inside).1 k named
    · rw [List.filter_append, List.map_append, rows, List.map_append,
        userRows_batchRows fun message member => (batch_old message (old message member)).2, user]
    · have counts : message ∈ counted w.session.messages := by
        rw [whole, ← List.append_assoc]
        exact List.mem_append_left _ member
      obtain ⟨k, named⟩ := agrees.counts.countable.generated message counts
      refine (isStored_of_uuid named).mpr ?_
      rcases List.mem_append.mp member with before | new
      · exact List.mem_append_left _ ((isStored_of_uuid named).mp (stored message before))
      · exact List.mem_append_right _
          (List.mem_filterMap.mpr ⟨message, List.mem_of_mem_filter new, named⟩)
    · have waits_still : message ∈ batch.filter isUserMessage ++ left :=
        List.mem_append_right _ member
      have counts : message ∈ counted w.session.messages :=
        whole ▸ List.mem_append_right _ waits_still
      obtain ⟨k, named⟩ := agrees.counts.countable.generated message counts
      refine eq_false_of_ne_true fun present => ?_
      rcases List.mem_append.mp ((isStored_of_uuid named).mp present) with before | new
      · have absent := unstored message waits_still
        rw [(isStored_of_uuid named).mpr before] at absent
        cases absent
      · obtain ⟨other, inside, same⟩ := List.mem_filterMap.mp new
        obtain ⟨present, -⟩ := batch_old other inside
        cases kind : countsAsTurn other with
        | false =>
          exact agrees.counts.countable.apart other present kind message counts
            (same.trans named.symm)
        | true =>
          have is_user : isUserMessage other = true :=
            (agrees.counts.countable.balanced other present).symm.trans kind
          have earlier : other ∈ onRecord ++ batch.filter isUserMessage :=
            List.mem_append_right _ (List.mem_filter.mpr ⟨inside, is_user⟩)
          rw [List.map_append, List.nodup_append] at distinct
          exact distinct.2.2 _ (List.mem_map_of_mem earlier) _ (List.mem_map_of_mem member)
            (same.trans named.symm)

theorem agrees_record (agrees : Agrees thread w) (origin : Option String) :
    Agrees thread (w.record origin) := by
  obtain ⟨onRecord, waiting, whole, rows, stored⟩ := agrees.recorded
  refine ⟨agrees.counts, agrees.spent, ⟨onRecord, waiting, whole, ?_, stored⟩, ?_⟩
  · rw [Conversation.record, List.filter_append, List.map_append, rows]
    exact List.append_nil _
  · refine agrees.ordered.append (List.pairwise_singleton _ _) (fun row member => ?_)
      (Nat.le_succ _)
    rw [List.mem_singleton.mp member]
    exact ⟨Nat.lt_succ_self _, Nat.lt_succ_self _, le_rfl⟩

theorem agrees_edit {turnNum : Nat} {rowId : Option Nat} (agrees : Agrees thread w)
    (allowed : KeepsOrdinals w (.edit turnNum rowId)) (edited : w.edit thread turnNum rowId = some w') :
    Agrees thread w' := by
  unfold Conversation.edit at edited
  obtain ⟨⟨ordinal, cutTurn⟩, found, edited⟩ := Option.bind_eq_some_iff.mp edited
  obtain ⟨row, chosen, same⟩ := Option.map_eq_some_iff.mp found
  cases same
  obtain ⟨user, leads⟩ := allowed row chosen
  obtain ⟨before, after, first, message, rest, rows, whole, cut, -, user_rows, stored⟩ :=
    cut_at_row agrees (mem_of_cutRow chosen) user
  dsimp only at edited
  split at edited
  · cases edited
  · obtain ⟨s', stepped, edited⟩ := Option.bind_eq_some_iff.mp edited
    cases edited
    rw [Session.step, cut] at stepped
    obtain ⟨-, stepped⟩ := Option.ite_none_left_eq_some.mp stepped
    cases stepped
    have ordered := agrees.ordered
    rw [rows] at ordered
    refine ⟨⟨agrees.counts.countable.sublist (whole ▸ List.sublist_append_left _ _), nofun⟩,
      agrees.spent, ⟨counted first, [], (List.append_nil _).symm, ?_, stored, nofun⟩, ?_⟩
    · rw [← user_rows, rows, userRows_deleteFromTurn ordered fun other member is_user same => ?_]
      have later := leads other (rows ▸ List.mem_append_left _ member) is_user same
      have earlier := (ordered.around.1 other member).2
      omega
    · exact agrees.ordered.filter _

theorem agrees_step (agrees : Agrees thread w) {op : ConversationOp} (allowed : KeepsOrdinals w op)
    (stepped : w.step thread op = some w') : Agrees thread w' := by
  cases op with
  | session op =>
    have other : ∀ turnNum, op ≠ .edit turnNum := by
      rintro turnNum rfl
      cases stepped
    have mapped : (w.session.step thread op).map (fun session => { w with session }) = some w' := by
      cases op with
      | edit turnNum => exact absurd rfl (other turnNum)
      | _ => exact stepped
    obtain ⟨s', done, rfl⟩ := Option.map_eq_some_iff.mp mapped
    obtain ⟨counts, kept, carried, spared⟩ := counts_step agrees.counts allowed other done
    exact agrees_session agrees counts carried spared
  | flush count =>
    cases stepped
    exact agrees_flush agrees count
  | record origin =>
    cases stepped
    exact agrees_record agrees origin
  | edit turnNum rowId => exact agrees_edit agrees allowed stepped

theorem agrees_start {inherited : List Message} (forked : ∀ message ∈ inherited, Balanced message) :
    Agrees thread (.start inherited) := by
  have empty : Countable 0 [] := ⟨nofun, nofun, nofun, nofun, .nil, nofun⟩
  obtain ⟨countable, -⟩ := empty.rewrite (rewrites_append empty forked)
  have length : (withoutIds inherited).length = inherited.length := List.length_map _
  rw [List.nil_append, Nat.zero_add, length] at countable
  refine ⟨⟨countable, nofun⟩, nofun, ⟨[], _, rfl, rfl, nofun, fun message _ => ?_⟩,
    ordered_nil 0⟩
  cases named : messageId message with
  | none => rw [isStored, named, Option.any_none]
  | some id => rw [isStored, named]; rfl

theorem truncate_first {rest : List Message} {head : Message}
    (named : ∀ message ∈ head :: rest, bearsId message = true) (turn : countsAsTurn head = true) :
    (truncateMessagesAfterTurn 1 (head :: rest)).2 = [] := by
  have cut : cutIndex 1 0 (head :: rest) = some 0 :=
    cutIndex_eq_some.mpr ⟨[], head, rest, rfl, rfl, turn, rfl⟩
  unfold truncateMessagesAfterTurn
  rw [cut]
  exact List.filter_eq_nil_iff.mpr fun message member => by simp [named message member]

theorem rewind_spares {rest : List Message} {head : Message} {source : Option String}
    (other : messageId head ≠ source) : (rewind source (head :: rest)).2 ≠ [] := by
  unfold rewind
  rw [List.findIdx?_cons, beq_eq_false_iff_ne.mpr other]
  cases List.findIdx? (messageId · == source) rest with
  | none => exact List.cons_ne_nil _ _
  | some place => exact List.cons_ne_nil _ _

/-- After a compaction the first user row's ordinal hits the summary. -/
theorem cut_of_compact {cutoff : Nat} {summary : String} (agrees : Agrees thread w)
    (compacted : w.step thread (.session (.compact cutoff summary)) = some w')
    (recorded : ∃ row ∈ w.rows, isUserRow row = true) :
    ∃ row ∈ w'.rows, isUserRow row = true ∧ ∀ turnNum, ¬CutsExactly w' turnNum (some row.id) := by
  obtain ⟨s', stepped, rfl⟩ := Option.map_eq_some_iff.mp compacted
  obtain ⟨-, stepped⟩ := Option.ite_none_right_eq_some.mp stepped
  cases stepped
  -- the first user row
  obtain ⟨row, found⟩ := Option.isSome_iff_exists.mp (List.find?_isSome.mpr recorded)
  obtain ⟨user, before, after, rows, none_before⟩ := List.find?_eq_some_iff_append.mp found
  have member : row ∈ w.rows := rows ▸ List.mem_append_right _ List.mem_cons_self
  have ordered := agrees.ordered
  rw [rows] at ordered
  have none_user : before.filter isUserRow = [] := List.filter_eq_nil_iff.mpr fun other inside => by
    simpa using none_before other inside
  have number : userOrdinal w.rows row = 1 := by
    rw [rows, userOrdinal_eq ordered user, none_user]
    rfl
  obtain ⟨_, _, first, message, rest, -, whole, turn, id, -⟩ := place_of_row agrees member user
  have counts : message ∈ counted w.session.messages :=
    mem_counted.mpr ⟨whole ▸ List.mem_append_right _ List.mem_cons_self, turn⟩
  obtain ⟨k, named⟩ := agrees.counts.countable.generated message counts
  have earlier := agrees.counts.countable.fresh message (mem_counted.mp counts).1 k named
  refine ⟨row, member, user, fun turnNum exact_cut => ?_⟩
  obtain ⟨ordinal, cut, same⟩ := exact_cut row (cutRow_of_id agrees.ordered member user) user
  rw [findUserTurnCut_of_cutRow (cutRow_of_id agrees.ordered member user), number] at cut
  cases cut
  have named_all := named_assignIds w.session.nextId
    (buildNewMessages summary ++ w.session.messages.drop cutoff)
  refine rewind_spares ?_ ((congrArg Prod.snd same).symm.trans (truncate_first named_all rfl))
  rw [← id, named]
  exact fun same => earlier.ne (uuid_inj.mp (Option.some.inj same)).symm

/-- In every run whose steps keep the ordinals, every user row cuts the checkpoint at its
message, or not at all when the message is gone; from such a state a compaction makes the
first user row cut at the summary. -/
theorem cuts_exactly {inherited : List Message} (forked : ∀ message ∈ inherited, Balanced message)
    (run : Runs (Conversation.step thread) KeepsOrdinals (.start inherited) w) :
    (∀ turnNum rowId, CutsExactly w turnNum rowId) ∧
      ∀ cutoff summary w', w.step thread (.session (.compact cutoff summary)) = some w' →
        (∃ row ∈ w.rows, isUserRow row = true) →
          ∃ row ∈ w'.rows, isUserRow row = true ∧
            ∀ turnNum, ¬CutsExactly w' turnNum (some row.id) := by
  have agrees : Agrees thread w := run.invariant (Agrees thread) (agrees_start forked)
    fun _ _ _ agrees allowed stepped => agrees_step agrees allowed stepped
  exact ⟨fun turnNum rowId => cutsExactly_of_agrees agrees turnNum rowId,
    fun _ _ _ compacted recorded => cut_of_compact agrees compacted recorded⟩

/-! ## Runs -/

def said (text : String) : Message := .plain { role := .human, content := .text text }

def replied (text : String) : Message := .ai { content := .text text }

/-- A check that `KeepsOrdinals` follows from. -/
def keepsOrdinalsCheck (w : Conversation) : ConversationOp → Bool
  | .session (.input messages) | .session (.work messages) => messages.all fun message =>
      decide (Balanced message)
  | .edit turnNum rowId => (cutRow w.rows turnNum rowId).all fun row => isUserRow row &&
      w.rows.all fun other => !isUserRow other || other.turnNum != row.turnNum ||
        decide (row.id ≤ other.id)
  | .session (.remind ..) | .session (.normalize _) | .session (.compact ..) => false
  | _ => true

theorem keepsOrdinals_of_check {op : ConversationOp} (checked : keepsOrdinalsCheck w op = true) :
    KeepsOrdinals w op := by
  cases op with
  | session op =>
    cases op with
    | input messages | work messages =>
      exact fun message member => of_decide_eq_true (List.all_eq_true.mp checked message member)
    | remind transient injections | normalize clock | compact cutoff summary => cases checked
    | _ => trivial
  | edit turnNum rowId =>
    intro row chosen
    obtain ⟨user, leads⟩ := (Bool.and_eq_true _ _).mp (Option.all_eq_true _ _ |>.mp checked row chosen)
    refine ⟨user, fun other member is_user same => ?_⟩
    have lead := List.all_eq_true.mp leads other member
    simpa [is_user, same] using lead
  | _ => trivial

/-- A turn whose reply is stored after an edit of the turn before it. -/
theorem cuts_exactly_after_edit : ∃ w, Runs (Conversation.step "t") KeepsOrdinals (.start []) w ∧
    (∃ row ∈ w.rows, isUserRow row = true) ∧
    (∀ turnNum rowId, CutsExactly w turnNum rowId) ∧
      ∀ cutoff summary w', w.step "t" (.session (.compact cutoff summary)) = some w' →
        (∃ row ∈ w.rows, isUserRow row = true) →
          ∃ row ∈ w'.rows, isUserRow row = true ∧
            ∀ turnNum, ¬CutsExactly w' turnNum (some row.id) := by
  have played : (play (Conversation.step "t") keepsOrdinalsCheck (.start [])
      [.session .begin, .session (.input [said "a"]), .flush 1, .session (.work [replied "b"]),
        .flush 1, .session .finish, .edit 1 (some 1), .session .begin,
        .session (.input [said "c"]), .flush 1, .session (.work [replied "d"]), .flush 1]).any
      (fun w => w.rows.any isUserRow) = true := by decide +kernel
  obtain ⟨w, run, reached⟩ := Runs.exists_of_play played
  have run' := run.mono fun _ _ checked => keepsOrdinals_of_check checked
  exact ⟨w, run', List.any_eq_true.mp reached, cuts_exactly (fun _ member => absurd member List.not_mem_nil) run'⟩

/-- The row's ordinal removes another number of messages than its message asks for. -/
def cutsElsewhere (w : Conversation) (rowId : Nat) : Bool :=
  (cutRow w.rows 0 (some rowId)).any fun row => isUserRow row &&
    (truncateMessagesAfterTurn (userOrdinal w.rows row) w.session.messages).1 !=
      (rewind row.message w.session.messages).1

theorem not_cutsExactly {rowId : Nat} (elsewhere : cutsElsewhere w rowId = true) :
    ¬CutsExactly w 0 (some rowId) := by
  intro exact_cut
  obtain ⟨row, chosen, differs⟩ := (Option.any_eq_true _ _).mp elsewhere
  obtain ⟨user, differs⟩ := (Bool.and_eq_true _ _).mp differs
  obtain ⟨ordinal, cut, same⟩ := exact_cut row chosen user
  rw [findUserTurnCut_of_cutRow chosen] at cut
  cases cut
  rw [same, bne_self_eq_false] at differs
  cases differs

/-- Two turns are stored and then replaced by their summary, and a third is stored. The first
row, whose message is gone, cuts at the summary; the third, whose message is there, at none. -/
theorem cuts_after_compaction : ∃ w, Runs (Conversation.step "t") (fun _ _ => True) (.start []) w ∧
    ¬CutsExactly w 0 (some 1) ∧ ¬CutsExactly w 0 (some 5) := by
  have played : (play (Conversation.step "t") (fun _ _ => true) (.start [])
      [.session .begin, .session (.input [said "a"]), .session (.work [replied "b"]), .flush 2,
        .session .finish, .session .begin, .session (.input [said "c"]),
        .session (.work [replied "d"]), .flush 2, .session .finish, .session (.compact 4 "a c"),
        .session .begin, .session (.input [said "e"]), .flush 1]).any
      (fun w => cutsElsewhere w 1 && cutsElsewhere w 5) = true := by decide +kernel
  obtain ⟨w, run, reached⟩ := Runs.exists_of_play played
  obtain ⟨first, third⟩ := (Bool.and_eq_true _ _).mp reached
  exact ⟨w, run.mono fun _ _ _ => trivial, not_cutsExactly first, not_cutsExactly third⟩

end SherryAgent.Guarantees.EditOrdinal
