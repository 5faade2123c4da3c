import SherryAgent.Contracts.Cutoff

/-!
# Tool calls and their results across the compression cutoff

- `pairs_kept_iff`: exactly when the cutoff leaves every tool result on the side of its call
- `every_budget_iff`: in which transcripts it does so under every estimate and budget
- `distinct_ids_kept`: without the clamp and with distinct call ids it always does
- `clamp_separates`: the clamp to the last user message cuts a pair that the repair had kept
-/

namespace SherryAgent.Guarantees.CutoffPairs

open SherryAgent.Source SherryAgent.Source.Transcript SherryAgent.Source.Summarization
open SherryAgent.Contracts.Cutoff

variable {messages : List Message} {id : String} {i j cut : Nat}

/-- The message at the index calls a tool under the id. -/
def CallsAt (messages : List Message) (i : Nat) (id : String) : Prop :=
  ∃ message, messages[i]? = some message ∧ callsId id message = true

/-- The message at the index is a tool result for the id. -/
def ResultAt (messages : List Message) (j : Nat) (id : String) : Prop :=
  ∃ result : ToolMessage, messages[j]? = some (.tool result) ∧ result.toolCallId = id

/-- A result answers the nearest call of its id before it. -/
structure Answers (messages : List Message) (id : String) (i j : Nat) : Prop where
  called : CallsAt messages i id
  result : ResultAt messages j id
  before : i < j
  nearest : ∀ k, i < k → k < j → ¬CallsAt messages k id

/-- Every tool result follows its assistant's call. -/
def Paired (messages : List Message) : Prop :=
  ∀ j id, ResultAt messages j id → ∃ i, i < j ∧ CallsAt messages i id

/-- The cut separates no result from its call. -/
structure Kept (messages : List Message) (cut : Nat) : Prop where
  results : ∀ id i j, Answers messages id i j → cut ≤ j → cut ≤ i
  calls : ∀ id i j, Answers messages id i j → i < cut → ∃ k, k < cut ∧ Answers messages id i k

/-- The clamp moves the cut back to the last user message. -/
structure Clamps (compressLastTurn : Bool) (messages : List Message) (cut lastUser : Nat) :
    Prop where
  preserving : compressLastTurn = false
  last : lastUserIdx messages = some lastUser
  behind : lastUser < cut

/-- The clamp moves the repaired cut. -/
abbrev ClampTaken (estimate : List Message → Nat) (budget : Int) (compressLastTurn : Bool)
    (messages : List Message) (lastUser : Nat) : Prop :=
  Clamps compressLastTurn messages (repairedCut estimate budget messages) lastUser

/-- After the cut a result comes before its id is called, and the repair does not see it: the id
is called again behind the result, or it is empty. -/
def Reused (messages : List Message) (cut : Nat) : Prop :=
  ∃ id j, cut ≤ j ∧ ResultAt messages j id ∧
    (∀ i, cut ≤ i → i < j → ¬CallsAt messages i id) ∧
    (id = "" ∨ ∃ i, j < i ∧ CallsAt messages i id)

/-- No id that is answered after the cut is called only before it. -/
def NoOrphan (messages : List Message) (cut : Nat) : Prop :=
  ∀ id j, id ≠ "" → cut ≤ j → ResultAt messages j id → ∃ i, cut ≤ i ∧ CallsAt messages i id

/-- What a cut without orphans needs: no call before the last user message is answered after it,
if the clamp is taken, and no reused id otherwise. -/
structure Unbroken (compressLastTurn : Bool) (messages : List Message) (cut : Nat) : Prop where
  clamped : ∀ lastUser, Clamps compressLastTurn messages cut lastUser →
    ∀ id i j, Answers messages id i j → i < lastUser → j < lastUser
  free : (∀ lastUser, ¬Clamps compressLastTurn messages cut lastUser) → ¬Reused messages cut

/-! ## Pairs -/

theorem exists_nearest {P : Nat → Prop} (n : Nat) (some_before : ∃ i, i < n ∧ P i) :
    ∃ i, i < n ∧ P i ∧ ∀ k, i < k → k < n → ¬P k := by
  induction n with
  | zero =>
    obtain ⟨i, before, -⟩ := some_before
    omega
  | succ n ih =>
    by_cases last : P n
    · exact ⟨n, by omega, last, fun k above below => by omega⟩
    · have earlier : ∃ i, i < n ∧ P i := by
        obtain ⟨i, before, holds⟩ := some_before
        have other : i ≠ n := fun same => last (same ▸ holds)
        exact ⟨i, by omega, holds⟩
      obtain ⟨i, before, holds, none_between⟩ := ih earlier
      refine ⟨i, by omega, holds, fun k above below => ?_⟩
      by_cases same : k = n
      · exact same ▸ last
      · exact none_between k above (by omega)

theorem exists_answers (paired : Paired messages) (result : ResultAt messages j id) :
    ∃ i, Answers messages id i j := by
  obtain ⟨i, before, called, none_between⟩ := exists_nearest j (paired j id result)
  exact ⟨i, called, result, before, none_between⟩

theorem not_calls_of_result (result : ResultAt messages j id) : ¬CallsAt messages j id := by
  obtain ⟨tool, stands, -⟩ := result
  rintro ⟨message, same, calls⟩
  rw [stands] at same
  cases same
  cases calls

/-- The second half of the claim on a cut follows from the first. -/
theorem kept_iff :
    Kept messages cut ↔ ∀ id i j, Answers messages id i j → i < cut → j < cut := by
  constructor
  · intro kept id i j answers inside
    by_cases later : cut ≤ j
    · have := kept.results id i j answers later
      omega
    · omega
  · intro apart
    constructor
    · intro id i j answers later
      by_cases inside : i < cut
      · have := apart id i j answers inside
        omega
      · omega
    · intro id i j answers inside
      exact ⟨j, apart id i j answers inside, answers⟩

/-! ## The orphan repair -/

theorem mem_answered : id ∈ (messages.drop cut).filterMap answeredId ↔
    id ≠ "" ∧ ∃ j, cut ≤ j ∧ ResultAt messages j id := by
  rw [List.mem_filterMap]
  constructor
  · rintro ⟨message, member, answered⟩
    obtain ⟨k, stands⟩ := List.mem_iff_getElem?.mp member
    rw [List.getElem?_drop] at stands
    cases message with
    | plain => cases answered
    | ai => cases answered
    | tool result =>
      simp only [answeredId] at answered
      by_cases empty : result.toolCallId = ""
      · simp [empty] at answered
      · rw [if_neg empty] at answered
        obtain rfl := Option.some.inj answered
        exact ⟨empty, cut + k, by omega, result, stands, rfl⟩
  · rintro ⟨nonempty, j, later, result, stands, rfl⟩
    refine ⟨.tool result, ?_, by simp [answeredId, nonempty]⟩
    rw [List.mem_iff_getElem?]
    refine ⟨j - cut, ?_⟩
    rw [List.getElem?_drop, Nat.add_sub_cancel' later, stands]

theorem any_calls : (messages.drop cut).any (callsId id) = true ↔
    ∃ i, cut ≤ i ∧ CallsAt messages i id := by
  rw [List.any_eq_true]
  constructor
  · rintro ⟨message, member, calls⟩
    obtain ⟨k, stands⟩ := List.mem_iff_getElem?.mp member
    rw [List.getElem?_drop] at stands
    exact ⟨cut + k, by omega, message, stands, calls⟩
  · rintro ⟨i, later, message, stands, calls⟩
    refine ⟨message, ?_, calls⟩
    rw [List.mem_iff_getElem?]
    refine ⟨i - cut, ?_⟩
    rw [List.getElem?_drop, Nat.add_sub_cancel' later, stands]

/-- An orphan id: answered after the cut and never called there. -/
theorem mem_orphanIds : id ∈ orphanIds messages cut ↔
    (id ≠ "" ∧ ∃ j, cut ≤ j ∧ ResultAt messages j id) ∧
      ∀ i, cut ≤ i → ¬CallsAt messages i id := by
  unfold orphanIds
  rw [List.mem_filter, mem_answered]
  simp only [Bool.not_eq_true', Bool.eq_false_iff, ne_eq, any_calls, not_exists, not_and]

/-- The calls of an orphan id stand before the cut, so a round finds one of them. -/
theorem earlierCut_of_orphan (paired : Paired messages) (orphan : id ∈ orphanIds messages cut) :
    ∃ earlier, earlierCut messages cut = some earlier := by
  obtain ⟨⟨-, j, -, result⟩, uncalled⟩ := mem_orphanIds.mp orphan
  obtain ⟨i, -, called⟩ := paired j id result
  have early : i < cut := by
    by_cases later : cut ≤ i
    · exact absurd called (uncalled i later)
    · omega
  obtain ⟨message, stands, calls⟩ := called
  unfold earlierCut
  split
  · rename_i earliest found
    exact ⟨earliest, rfl⟩
  · rename_i missing
    have member : message ∈ messages.take cut := by
      rw [List.mem_iff_getElem?]
      refine ⟨i, ?_⟩
      rw [List.getElem?_take, if_pos early, stands]
    have no_call := List.findIdx?_eq_none_iff.mp missing message member
    have some_call : ((orphanIds messages cut).any fun id => callsId id message) = true :=
      List.any_eq_true.mpr ⟨id, orphan, calls⟩
    rw [some_call] at no_call
    cases no_call

/-- The repair of a paired transcript stops at a cut without orphans. -/
theorem adjustRounds_settled (paired : Paired messages) (rounds adjusted : Nat)
    (enough : adjusted ≤ rounds) :
    orphanIds messages (adjustRounds messages rounds adjusted) = [] := by
  have start : orphanIds messages 0 = [] := by
    rw [List.eq_nil_iff_forall_not_mem]
    intro id orphan
    obtain ⟨⟨-, j, -, result⟩, uncalled⟩ := mem_orphanIds.mp orphan
    obtain ⟨i, -, called⟩ := paired j id result
    exact uncalled i (by omega) called
  induction rounds generalizing adjusted with
  | zero =>
    have zero : adjusted = 0 := by omega
    rw [adjustRounds, zero]
    exact start
  | succ rounds ih =>
    rw [adjustRounds]
    by_cases zero : adjusted = 0
    · rw [if_pos zero, zero]
      exact start
    · rw [if_neg zero]
      by_cases settled : orphanIds messages adjusted = []
      · rw [if_pos settled]
        exact settled
      · rw [if_neg settled]
        obtain ⟨id, orphan⟩ := List.exists_mem_of_ne_nil _ settled
        obtain ⟨earlier, moved⟩ := earlierCut_of_orphan paired orphan
        have bound := earlierCut_lt moved
        rw [moved]
        exact ih earlier (by omega)

theorem repairedCut_settled (estimate : List Message → Nat) (budget : Int)
    (paired : Paired messages) : orphanIds messages (repairedCut estimate budget messages) = [] :=
  adjustRounds_settled paired _ _ (by omega)

/-- Without orphans, only a reused id can be cut off from its call. -/
theorem kept_iff_not_reused (paired : Paired messages) (settled : orphanIds messages cut = []) :
    Kept messages cut ↔ ¬Reused messages cut := by
  rw [kept_iff]
  constructor
  · rintro apart ⟨id, j, later, result, uncalled, -⟩
    obtain ⟨i, answers⟩ := exists_answers paired result
    by_cases inside : i < cut
    · have := apart id i j answers inside
      omega
    · exact uncalled i (by omega) answers.before answers.called
  · intro single id i j answers inside
    by_cases later : cut ≤ j
    · have uncalled : ∀ k, cut ≤ k → k < j → ¬CallsAt messages k id :=
        fun k above below => answers.nearest k (by omega) below
      apply absurd _ single
      refine ⟨id, j, later, answers.result, uncalled, ?_⟩
      by_cases empty : id = ""
      · exact .inl empty
      · have known : id ∉ orphanIds messages cut := by simp [settled]
        rw [mem_orphanIds] at known
        simp only [not_and, not_forall, Classical.not_not] at known
        obtain ⟨k, after, called⟩ := known ⟨empty, j, later, answers.result⟩
        have other : k ≠ j := fun same =>
          not_calls_of_result answers.result (same ▸ called)
        have behind : ¬k < j := fun below => uncalled k after below called
        exact .inr ⟨k, by omega, called⟩
    · omega

/-! ## The cutoff -/

theorem determineCutoff_clamped {estimate : List Message → Nat} {budget : Int}
    {compressLastTurn : Bool} {lastUser : Nat}
    (taken : ClampTaken estimate budget compressLastTurn messages lastUser) :
    determineCutoff estimate budget compressLastTurn messages = lastUser := by
  simp [determineCutoff, taken.preserving, taken.last, taken.behind]

theorem determineCutoff_unclamped {estimate : List Message → Nat} {budget : Int}
    {compressLastTurn : Bool}
    (free : ∀ lastUser, ¬ClampTaken estimate budget compressLastTurn messages lastUser) :
    determineCutoff estimate budget compressLastTurn messages =
      repairedCut estimate budget messages := by
  unfold determineCutoff
  cases preserving : compressLastTurn with
  | true => simp
  | false =>
    cases last : lastUserIdx messages with
    | none => simp
    | some lastUser =>
      have ahead : ¬lastUser < repairedCut estimate budget messages :=
        fun behind => free lastUser ⟨preserving, last, behind⟩
      simp [ahead]

/-- The cutoff keeps the pairs exactly when the repaired cut is unbroken. -/
theorem kept_iff_unbroken (estimate : List Message → Nat) (budget : Int) (compressLastTurn : Bool)
    (paired : Paired messages) :
    Kept messages (determineCutoff estimate budget compressLastTurn messages) ↔
      Unbroken compressLastTurn messages (repairedCut estimate budget messages) := by
  by_cases clamped : ∃ lastUser, ClampTaken estimate budget compressLastTurn messages lastUser
  · obtain ⟨lastUser, taken⟩ := clamped
    rw [determineCutoff_clamped taken, kept_iff]
    constructor
    · intro apart
      constructor
      · intro other also
        have same : other = lastUser := Option.some.inj (also.last.symm.trans taken.last)
        rw [same]
        exact apart
      · intro free
        exact absurd taken (free lastUser)
    · intro holds
      exact holds.clamped lastUser taken
  · have free : ∀ lastUser, ¬ClampTaken estimate budget compressLastTurn messages lastUser :=
      fun lastUser taken => clamped ⟨lastUser, taken⟩
    rw [determineCutoff_unclamped free,
      kept_iff_not_reused paired (repairedCut_settled estimate budget paired)]
    constructor
    · intro single
      exact ⟨fun lastUser taken => absurd taken (free lastUser), fun _ => single⟩
    · intro holds
      exact holds.free free

/-- The pairs are kept exactly when no call made before the last user message is answered after
it where the clamp is taken, and the repair does not stop before a reused id where it is not. -/
theorem pairs_kept_iff (estimate : List Message → Nat) (budget : Int) (compressLastTurn : Bool)
    (messages : List Message) (paired : Paired messages) :
    Kept messages (determineCutoff estimate budget compressLastTurn messages) ↔
      (∀ lastUser, ClampTaken estimate budget compressLastTurn messages lastUser →
        ∀ id i j, Answers messages id i j → i < lastUser → j < lastUser) ∧
      ((∀ lastUser, ¬ClampTaken estimate budget compressLastTurn messages lastUser) →
        ¬Reused messages (repairedCut estimate budget messages)) := by
  rw [kept_iff_unbroken estimate budget compressLastTurn paired]
  constructor
  · intro unbroken
    exact ⟨unbroken.clamped, unbroken.free⟩
  · intro holds
    exact ⟨holds.1, holds.2⟩

theorem noOrphan_iff : NoOrphan messages cut ↔ orphanIds messages cut = [] := by
  rw [List.eq_nil_iff_forall_not_mem]
  constructor
  · intro none id orphan
    obtain ⟨⟨named, j, later, result⟩, uncalled⟩ := mem_orphanIds.mp orphan
    obtain ⟨i, behind, called⟩ := none id j named later result
    exact uncalled i behind called
  · intro none id j named later result
    by_contra uncalled
    apply none id
    rw [mem_orphanIds]
    exact ⟨⟨named, j, later, result⟩, fun i behind called => uncalled ⟨i, behind, called⟩⟩

/-- A cut without orphans is where some budget puts it. -/
theorem repairedCut_length (inside : cut < messages.length) (settled : NoOrphan messages cut) :
    repairedCut List.length (messages.length - cut) messages = cut := by
  rw [repairedCut, budgetCut_length inside, adjustForOrphanPairs]
  cases cut with
  | zero => rfl
  | succ cut => rw [adjustRounds, if_neg (by omega), if_pos (noOrphan_iff.mp settled)]

/-- The pairs are kept under every estimate and budget exactly when every cut without orphans leaves
them whole. -/
theorem every_budget_iff (compressLastTurn : Bool) (paired : Paired messages) :
    (∀ estimate budget,
        Kept messages (determineCutoff estimate budget compressLastTurn messages)) ↔
      ∀ cut, cut < messages.length → NoOrphan messages cut →
        Unbroken compressLastTurn messages cut := by
  constructor
  · intro kept cut inside settled
    have whole := (kept_iff_unbroken _ _ _ paired).mp (kept List.length (messages.length - cut))
    rw [repairedCut_length inside settled] at whole
    exact whole
  · intro unbroken estimate budget
    apply (kept_iff_unbroken estimate budget compressLastTurn paired).mpr
    by_cases nonempty : 0 < messages.length
    · have before := budgetCut_lt estimate budget nonempty
      have moved : repairedCut estimate budget messages ≤ budgetCut estimate budget messages :=
        adjustRounds_le messages _ _
      have settled := noOrphan_iff.mpr (repairedCut_settled estimate budget paired)
      exact unbroken _ (by omega) settled
    · obtain rfl := List.eq_nil_of_length_eq_zero (by omega : messages.length = 0)
      constructor
      · intro lastUser taken
        cases taken.last
      · rintro - ⟨id, j, -, ⟨tool, stands, -⟩, -⟩
        simp at stands

/-- No id is reused where every id is called by one message and no result has an empty id. -/
theorem not_reused (paired : Paired messages)
    (distinct : ∀ id i k, CallsAt messages i id → CallsAt messages k id → i = k)
    (named : ∀ j, ¬ResultAt messages j "") : ¬Reused messages cut := by
  rintro ⟨id, j, -, result, -, empty | ⟨k, behind, again⟩⟩
  · exact named j (empty ▸ result)
  · obtain ⟨i, before, called⟩ := paired j id result
    have := distinct id i k called again
    omega

/-- While the last turn is compressed, distinct call ids are enough. -/
theorem distinct_ids_kept (estimate : List Message → Nat) (budget : Int) (paired : Paired messages)
    (distinct : ∀ id i k, CallsAt messages i id → CallsAt messages k id → i = k)
    (named : ∀ j, ¬ResultAt messages j "") :
    Kept messages (determineCutoff estimate budget true messages) := by
  have free : ∀ lastUser, ¬ClampTaken estimate budget true messages lastUser :=
    fun lastUser taken => absurd taken.preserving (by decide)
  rw [determineCutoff_unclamped free,
    kept_iff_not_reused paired (repairedCut_settled estimate budget paired)]
  exact not_reused paired distinct named

/-! ## Two transcripts -/

def userMessage (text : String) : Message := .plain { role := .human, content := .text text }

def answer (text : String) : Message := .ai { content := .text text }

def call (id : String) : Message :=
  .ai { toolCalls := [.obj [("name", .str "search"), ("args", .obj []), ("id", .str id)]] }

def result (id : String) : Message := .tool { content := .text "found", toolCallId := id }

/-- Every message counts 1500 tokens. -/
def flatEstimate (tail : List Message) : Nat := 1500 * tail.length

/-- A call answered before the next user message. -/
def answered : List Message := [call "a", result "a", userMessage "more", answer "done"]

/-- A user message between a call and its result, and a long last turn. -/
def interrupted : List Message :=
  [call "a", userMessage "wait", result "a", answer "thinking", answer "done"]

theorem resultAt_answered (at_index : ResultAt answered j id) : j = 1 ∧ id = "a" := by
  obtain ⟨tool, stands, rfl⟩ := at_index
  unfold answered at stands
  rcases j with _ | _ | _ | _ | j
  · cases stands
  · cases stands
    exact ⟨rfl, rfl⟩
  · cases stands
  · cases stands
  · simp at stands

theorem resultAt_interrupted (at_index : ResultAt interrupted j id) : j = 2 ∧ id = "a" := by
  obtain ⟨tool, stands, rfl⟩ := at_index
  unfold interrupted at stands
  rcases j with _ | _ | _ | _ | _ | j
  · cases stands
  · cases stands
  · cases stands
    exact ⟨rfl, rfl⟩
  · cases stands
  · cases stands
  · simp at stands

theorem callsAt_head (rest : List Message) : CallsAt (call "a" :: rest) 0 "a" :=
  ⟨call "a", rfl, by decide⟩

/-- A call answered before the cut is kept. -/
theorem answered_kept : Kept answered (determineCutoff flatEstimate 4000 false answered) := by
  apply (pairs_kept_iff flatEstimate 4000 false answered _).mpr
  · have cut : repairedCut flatEstimate 4000 answered = 2 := by decide
    have last : lastUserIdx answered = some 2 := by decide
    constructor
    · intro lastUser taken
      have := taken.behind
      have same := Option.some.inj (taken.last.symm.trans last)
      omega
    · rintro - ⟨id, j, later, at_index, -⟩
      have := (resultAt_answered at_index).1
      omega
  · intro j id at_index
    obtain ⟨rfl, rfl⟩ := resultAt_answered at_index
    exact ⟨0, by decide, callsAt_head _⟩

/-- The repair leaves the interrupted call in one piece; the clamp to the user message that
interrupts it puts the call into the head and its result into the tail. -/
theorem clamp_separates :
    Paired interrupted ∧ Kept interrupted (repairedCut flatEstimate 2000 interrupted) ∧
      ¬Kept interrupted (determineCutoff flatEstimate 2000 false interrupted) := by
  have paired : Paired interrupted := by
    intro j id at_index
    obtain ⟨rfl, rfl⟩ := resultAt_interrupted at_index
    exact ⟨0, by decide, callsAt_head _⟩
  have repaired : repairedCut flatEstimate 2000 interrupted = 4 := by decide
  have clamped : determineCutoff flatEstimate 2000 false interrupted = 1 := by decide
  have at_index : ResultAt interrupted 2 "a" := ⟨_, rfl, rfl⟩
  obtain ⟨i, answers⟩ := exists_answers paired at_index
  have apart : i = 0 := by
    have before := answers.before
    have other : i ≠ 1 := by
      rintro rfl
      obtain ⟨message, stands, calls⟩ := answers.called
      cases stands
      cases calls
    omega
  refine ⟨paired, ?_, ?_⟩
  · rw [repaired, kept_iff]
    intro id i j answers _
    have := (resultAt_interrupted answers.result).1
    omega
  · rw [clamped, kept_iff]
    intro kept
    have := kept "a" i 2 answers (by omega)
    omega

end SherryAgent.Guarantees.CutoffPairs
