import Mathlib.Data.List.Induction
import SherryAgent.Source.Summarization.Cutoff
import SherryAgent.Source.Summarization.Estimate

/-!
# What the budget walk takes

The turns of a transcript cover it from end to end. The walk over them takes whole turns and then
a part of one more, so the tail is paid for turn by turn.

- `splitIntoTurns_covers`: the turns stand side by side from the first message to the last
- `budgetCut_paid`: the tail behind the cut is within the budget, and one message more is not
- `budgetCut_length`: under some estimate and budget the walk cuts anywhere before the end
- `determineCutoff_le`: the orphan repair and the clamp move a cut to an earlier message only
-/

namespace SherryAgent.Contracts.Cutoff

open SherryAgent.Source SherryAgent.Source.Transcript SherryAgent.Source.Summarization

variable {estimate : List Message → Nat} {budget : Int} {messages : List Message}
  {turns earlier later : List Turn} {start mid stop cut : Nat}

/-! ## Turns side by side -/

/-- The turns cover the messages from `start` to `stop`, none of them empty. -/
inductive Covers (messages : List Message) : Nat → List Turn → Nat → Prop
  | none (start : Nat) : Covers messages start [] start
  | turn {start mid stop : Nat} {rest : List Turn} (nonempty : start < mid)
      (covered : Covers messages mid rest stop) :
      Covers messages start (turnAt messages start mid :: rest) stop

theorem Covers.le (covers : Covers messages start turns stop) : start ≤ stop := by
  induction covers with
  | none => simp
  | turn nonempty covered ih => omega

/-- A cover splits where its list of turns does. -/
theorem Covers.split (covers : Covers messages start (earlier ++ later) stop) :
    ∃ mid, Covers messages start earlier mid ∧ Covers messages mid later stop := by
  induction earlier generalizing start with
  | nil => exact ⟨start, .none start, covers⟩
  | cons turn rest ih =>
    cases covers with
    | turn nonempty covered =>
      obtain ⟨mid, before, after⟩ := ih covered
      exact ⟨mid, .turn nonempty before, after⟩

theorem splitFrom_covers (rest : List Message) (turnStart i : Nat)
    (started : turnStart < i ∨ i = 0 ∧ turnStart = 0) (whole : i + rest.length = messages.length)
    (nonempty : 0 < messages.length) :
    Covers messages turnStart (splitFrom messages turnStart i rest) messages.length := by
  induction rest generalizing turnStart i with
  | nil =>
    rw [splitFrom]
    rw [List.length_nil] at whole
    exact .turn (by omega) (.none _)
  | cons message rest ih =>
    rw [splitFrom]
    rw [List.length_cons] at whole
    by_cases opens : (opensTurn message && decide (0 < i)) = true
    · rw [if_pos opens]
      have behind : 0 < i := by
        rw [Bool.and_eq_true, decide_eq_true_eq] at opens
        exact opens.2
      exact .turn (by omega) (ih i (i + 1) (by omega) (by omega))
    · rw [if_neg opens]
      exact ih turnStart (i + 1) (by omega) (by omega)

/-- `split_into_turns` loses no message and counts none twice. -/
theorem splitIntoTurns_covers (messages : List Message) :
    Covers messages 0 (splitIntoTurns messages) messages.length := by
  cases messages with
  | nil => exact .none 0
  | cons first rest =>
    exact splitFrom_covers (first :: rest) 0 0 (.inr ⟨rfl, rfl⟩) (by simp) (by simp)

/-! ## The cost of a tail -/

/-- What a turn adds to the cost of the tail behind the cut: its part behind the cut is estimated
by itself. -/
def turnCost (estimate : List Message → Nat) (cut : Nat) (turn : Turn) : Nat :=
  if turn.endIdx ≤ cut then 0 else estimate (turn.messages.drop (cut - turn.startIdx))

def costOver (estimate : List Message → Nat) (turns : List Turn) (cut : Nat) : Nat :=
  (turns.map (turnCost estimate cut)).sum

/-- The cost of the tail behind the cut. -/
def tailCost (estimate : List Message → Nat) (messages : List Message) (cut : Nat) : Nat :=
  costOver estimate (splitIntoTurns messages) cut

theorem costOver_append (earlier later : List Turn) (cut : Nat) :
    costOver estimate (earlier ++ later) cut =
      costOver estimate earlier cut + costOver estimate later cut := by
  simp [costOver]

theorem costOver_cons (turn : Turn) (later : List Turn) (cut : Nat) :
    costOver estimate (turn :: later) cut = turnCost estimate cut turn +
      costOver estimate later cut := by
  simp [costOver]

/-- A turn before the cut costs nothing. -/
theorem costOver_before (covers : Covers messages start turns stop) (before : stop ≤ cut) :
    costOver estimate turns cut = 0 := by
  induction covers with
  | none => rfl
  | turn nonempty covered ih =>
    have inside := covered.le
    rw [costOver_cons, ih before, turnCost, if_pos (by simp only [turnAt]; omega)]

/-- Behind the cut it does not matter where exactly the cut is. -/
theorem costOver_behind {cut other : Nat} (covers : Covers messages start turns stop)
    (behind : cut ≤ start) (also_behind : other ≤ start) :
    costOver estimate turns cut = costOver estimate turns other := by
  induction covers with
  | none => rfl
  | turn nonempty covered ih =>
    rename_i start mid stop rest
    have same : turnCost estimate cut (turnAt messages start mid) =
        turnCost estimate other (turnAt messages start mid) := by
      have first : cut - start = 0 := by omega
      have second : other - start = 0 := by omega
      simp only [turnCost, turnAt, first, second]
      rw [if_neg (by omega), if_neg (by omega)]
    rw [costOver_cons, costOver_cons, same, ih (by omega) (by omega)]

/-- A cut inside a turn pays for the rest of that turn and for the turns behind it. -/
theorem costOver_inside (before : Covers messages start earlier mid)
    (after : Covers messages stop later messages.length) (inside : mid ≤ cut ∧ cut < stop) :
    costOver estimate (earlier ++ turnAt messages mid stop :: later) cut =
      estimate ((turnAt messages mid stop).messages.drop (cut - mid)) +
        costOver estimate later stop := by
  have head : costOver estimate earlier cut = 0 := costOver_before before inside.1
  have part : turnCost estimate cut (turnAt messages mid stop) =
      estimate ((turnAt messages mid stop).messages.drop (cut - mid)) := by
    have reaches : ¬(turnAt messages mid stop).endIdx ≤ cut := by
      simp only [turnAt]
      omega
    rw [turnCost, if_neg reaches]
    rfl
  have rest : costOver estimate later cut = costOver estimate later stop :=
    costOver_behind after (by omega) (by omega)
  rw [costOver_append, costOver_cons, head, part, rest]
  omega

/-! ## The walk -/

/-- The cut is paid for: the tail is within the budget, unless the last message alone is not, and
one message more is not. A tail that is the budget exactly is not extended either. -/
structure Paid (estimate : List Message → Nat) (budget : Int) (messages : List Message)
    (cut : Nat) : Prop where
  fits : (tailCost estimate messages cut : Int) ≤ budget ∨
    cut = 0 ∧ budget < tailCost estimate messages (messages.length - 1)
  maximal : 0 < cut → budget < tailCost estimate messages (cut - 1) ∨
    (tailCost estimate messages cut : Int) = budget

/-- `split_turn` finds nothing in a turn whose last message is too long. -/
theorem splitTurn_none {turn : Turn} {remaining : Int} (nonempty : turn.startIdx < turn.endIdx)
    (positive : 0 < remaining) (too_long : remaining < estimate turn.messages)
    (found : splitTurn estimate turn remaining = none) :
    remaining < estimate (turn.messages.drop (turn.endIdx - 1 - turn.startIdx)) := by
  unfold splitTurn at found
  rw [if_neg (by omega)] at found
  by_cases single : turn.endIdx - turn.startIdx ≤ 1
  · have first : turn.endIdx - 1 - turn.startIdx = 0 := by omega
    rw [first]
    exact too_long
  · rw [if_neg single] at found
    have last : turn.endIdx - 1 ∈
        List.range' (turn.startIdx + 1) (turn.endIdx - (turn.startIdx + 1)) := by
      rw [List.mem_range'_1]
      omega
    have fails := List.find?_eq_none.mp found _ last
    rw [decide_eq_true_eq] at fails
    omega

/-- `split_turn` finds the first message from which on the turn is short enough. -/
theorem splitTurn_some {turn : Turn} {remaining : Int}
    (too_long : remaining < estimate turn.messages)
    (found : splitTurn estimate turn remaining = some cut) :
    (turn.startIdx < cut ∧ cut < turn.endIdx) ∧
      (estimate (turn.messages.drop (cut - turn.startIdx)) : Int) ≤ remaining ∧
      remaining < estimate (turn.messages.drop (cut - 1 - turn.startIdx)) := by
  unfold splitTurn at found
  by_cases spent : remaining ≤ 0
  · simp [spent] at found
  · rw [if_neg spent] at found
    by_cases single : turn.endIdx - turn.startIdx ≤ 1
    · simp [single] at found
    · rw [if_neg single, List.find?_range'_eq_some] at found
      obtain ⟨fits, member, before⟩ := found
      rw [List.mem_range'_1] at member
      rw [decide_eq_true_eq] at fits
      refine ⟨by omega, fits, ?_⟩
      by_cases next : cut = turn.startIdx + 1
      · have first : cut - 1 - turn.startIdx = 0 := by omega
        rw [first]
        exact too_long
      · have fails := before (cut - 1) (by omega) (by omega)
        rw [Bool.not_eq_true', decide_eq_false_iff_not] at fails
        omega

/-- The turn that is too long pays for the cut: a part of it, or the cut behind it. -/
theorem split_paid (positive : 0 < budget) (before : Covers messages 0 earlier mid)
    (nonempty : mid < stop) (after : Covers messages stop later messages.length)
    (turns : splitIntoTurns messages = earlier ++ turnAt messages mid stop :: later)
    (paid : (costOver estimate later stop : Int) ≤ budget)
    (cutoff : cut = stop ∨ later = [] ∧ cut = 0)
    (too_long : budget <
      costOver estimate later stop + estimate (turnAt messages mid stop).messages) :
    Paid estimate budget messages ((splitTurn estimate (turnAt messages mid stop)
      (budget - costOver estimate later stop)).getD cut) := by
  have inside (other : Nat) (bounds : mid ≤ other ∧ other < stop) :
      tailCost estimate messages other =
        estimate ((turnAt messages mid stop).messages.drop (other - mid)) +
          costOver estimate later stop := by
    rw [tailCost, turns]
    exact costOver_inside before after bounds
  have ends := after.le
  cases found : splitTurn estimate (turnAt messages mid stop)
      (budget - costOver estimate later stop) with
  | some split =>
    obtain ⟨bounds, fits, short⟩ := splitTurn_some (by omega) found
    simp only [turnAt] at bounds fits short
    constructor
    · left
      rw [Option.getD_some, inside split ⟨by omega, bounds.2⟩]
      simp only [turnAt]
      omega
    · intro _
      left
      rw [Option.getD_some, inside (split - 1) ⟨by omega, by omega⟩]
      simp only [turnAt]
      omega
  | none =>
    rw [Option.getD_none]
    have behind : tailCost estimate messages stop = costOver estimate later stop := by
      have head : costOver estimate earlier stop = 0 := costOver_before before (by omega)
      have all_before : turnCost estimate stop (turnAt messages mid stop) = 0 := by
        rw [turnCost, if_pos]
        simp [turnAt]
      rw [tailCost, turns, costOver_append, costOver_cons, head, all_before]
      omega
    by_cases spent : budget - costOver estimate later stop ≤ 0
    · have stays : cut = stop := by
        rcases cutoff with stays | ⟨none_taken, -⟩
        · exact stays
        · have free : costOver estimate later stop = 0 := by simp [costOver, none_taken]
          omega
      rw [stays]
      exact ⟨.inl (by omega), fun _ => .inr (by omega)⟩
    · have last := splitTurn_none (by simpa [turnAt] using nonempty) (by omega) (by omega) found
      have short : budget < tailCost estimate messages (stop - 1) := by
        rw [inside (stop - 1) ⟨by omega, by omega⟩]
        simp only [turnAt] at last ⊢
        omega
      rcases cutoff with rfl | ⟨rfl, rfl⟩
      · exact ⟨.inl (by omega), fun _ => .inl short⟩
      · cases after
        exact ⟨.inr ⟨rfl, short⟩, fun behind_first => absurd behind_first (by omega)⟩

/-- The walk, from any point of it on. -/
theorem walkTurns_paid (positive : 0 < budget) (before : Covers messages 0 earlier mid)
    (after : Covers messages mid later messages.length)
    (turns : splitIntoTurns messages = earlier ++ later)
    (paid : (costOver estimate later mid : Int) ≤ budget)
    (cutoff : cut = mid ∨ later = [] ∧ cut = 0) :
    Paid estimate budget messages
      (walkTurns estimate budget (costOver estimate later mid) cut earlier.reverse) := by
  induction earlier using List.reverseRecOn generalizing later mid cut with
  | nil =>
    cases before
    have first : cut = 0 := by omega
    have whole : tailCost estimate messages 0 = costOver estimate later 0 := by
      rw [tailCost, turns, List.nil_append]
    rw [List.reverse_nil, walkTurns, first]
    exact ⟨.inl (by omega), fun behind => absurd behind (by omega)⟩
  | append_singleton earlier turn ih =>
    obtain ⟨start, head, last⟩ := before.split
    cases last with
    | turn nonempty covered =>
      cases covered
      rw [List.append_assoc, List.singleton_append] at turns
      rw [List.reverse_append, List.reverse_singleton, List.singleton_append, walkTurns]
      by_cases fits : (costOver estimate later mid : Int) +
          estimate (turnAt messages start mid).messages ≤ budget
      · rw [if_pos fits]
        have taken : costOver estimate (turnAt messages start mid :: later) start =
            costOver estimate later mid + estimate (turnAt messages start mid).messages := by
          have whole : costOver estimate (turnAt messages start mid :: later) start =
              estimate ((turnAt messages start mid).messages.drop (start - start)) +
                costOver estimate later mid :=
            costOver_inside (.none start) after ⟨Nat.le_refl start, nonempty⟩
          rw [Nat.sub_self, List.drop_zero] at whole
          omega
        have next := ih head (.turn nonempty after) turns (by omega) (.inl rfl)
        rw [taken] at next
        exact next
      · rw [if_neg fits]
        exact split_paid positive head nonempty after turns paid cutoff (by omega)

/-- The cut that the budget gives is paid for. -/
theorem budgetCut_paid (estimate : List Message → Nat) (messages : List Message)
    (positive : 0 < budget) :
    Paid estimate budget messages (budgetCut estimate budget messages) := by
  have free : (costOver estimate [] messages.length : Int) ≤ budget := by
    simp only [costOver, List.map_nil, List.sum_nil]
    omega
  exact walkTurns_paid positive (splitIntoTurns_covers messages) (.none messages.length)
    (List.append_nil _).symm free (.inr ⟨rfl, rfl⟩)

/-! ## Within the transcript -/

theorem Covers.inside (covers : Covers messages start turns stop) :
    ∀ turn ∈ turns, turn.startIdx < stop ∧ turn.endIdx ≤ stop := by
  induction covers with
  | none => simp
  | turn nonempty covered ih =>
    have ends := covered.le
    intro turn member
    rcases List.mem_cons.mp member with rfl | later
    · simp only [turnAt]
      omega
    · exact ih turn later

theorem splitTurn_lt {turn : Turn} {remaining : Int}
    (found : splitTurn estimate turn remaining = some cut) : cut < turn.endIdx := by
  unfold splitTurn at found
  split_ifs at found
  have member := List.mem_of_find?_eq_some found
  rw [List.mem_range'_1] at member
  omega

theorem walkTurns_lt {bound : Nat} {total : Int}
    (inside : ∀ turn ∈ turns, turn.startIdx < bound ∧ turn.endIdx ≤ bound) (first : cut < bound) :
    walkTurns estimate budget total cut turns < bound := by
  induction turns generalizing total cut with
  | nil => exact first
  | cons turn earlier ih =>
    have here := inside turn List.mem_cons_self
    rw [walkTurns]
    split
    · exact ih (fun other member => inside other (List.mem_cons_of_mem _ member)) here.1
    · cases found : splitTurn estimate turn (budget - total) with
      | none => exact first
      | some split =>
        have := splitTurn_lt found
        rw [Option.getD_some]
        omega

/-- The tail is never empty. -/
theorem budgetCut_lt (estimate : List Message → Nat) (budget : Int)
    (nonempty : 0 < messages.length) : budgetCut estimate budget messages < messages.length := by
  apply walkTurns_lt _ nonempty
  intro turn member
  exact (splitIntoTurns_covers messages).inside turn (List.mem_reverse.mp member)

/-! ## Estimates of messages -/

theorem drop_take_append (messages : List Message) {cut mid stop : Nat} (before : cut ≤ mid)
    (ends : mid ≤ stop) (inside : mid ≤ messages.length) :
    (messages.take stop).drop cut =
      (messages.take mid).drop cut ++ (messages.take stop).drop mid := by
  have whole : messages.take stop = messages.take mid ++ (messages.take stop).drop mid := by
    have parts := List.take_append_drop mid (messages.take stop)
    rw [List.take_take, Nat.min_eq_left ends] at parts
    exact parts.symm
  have fits : cut ≤ (messages.take mid).length := by
    rw [List.length_take]
    omega
  conv_lhs => rw [whole]
  exact List.drop_append_of_le_length fits

theorem costOver_sum (weight : Message → Nat) (covers : Covers messages start turns stop)
    (inside : stop ≤ messages.length)
    (additive : ∀ part, (∀ message ∈ part, message ∈ messages) →
      estimate part = (part.map weight).sum) (cut : Nat) :
    costOver estimate turns cut =
      (((messages.take stop).drop (max start cut)).map weight).sum := by
  induction covers with
  | none start =>
    have empty : (messages.take start).drop (max start cut) = [] := by
      rw [List.drop_eq_nil_iff, List.length_take]
      omega
    rw [empty]
    rfl
  | turn nonempty covered ih =>
    rename_i start mid stop rest
    have ends := covered.le
    rw [costOver_cons, ih inside]
    by_cases before : mid ≤ cut
    · have first : turnCost estimate cut (turnAt messages start mid) = 0 := by
        rw [turnCost, if_pos]
        exact before
      rw [first, Nat.max_eq_right before, Nat.max_eq_right (by omega), Nat.zero_add]
    · have first : turnCost estimate cut (turnAt messages start mid) =
          (((messages.take mid).drop (max start cut)).map weight).sum := by
        have offset : start + (cut - start) = max start cut := by omega
        have part : (turnAt messages start mid).messages.drop (cut - start) =
            (messages.take mid).drop (max start cut) := by
          simp only [turnAt]
          rw [List.drop_drop, offset]
        have reaches : ¬(turnAt messages start mid).endIdx ≤ cut := before
        rw [turnCost, if_neg reaches]
        calc estimate ((turnAt messages start mid).messages.drop (cut - start))
            = estimate ((messages.take mid).drop (max start cut)) := by rw [part]
          _ = _ := additive _ fun message member =>
              List.mem_of_mem_take (List.mem_of_mem_drop member)
      have next : max mid cut = mid := by omega
      have reached : max start cut ≤ mid := by omega
      rw [first, next, drop_take_append messages reached ends (by omega), List.map_append,
        List.sum_append]

/-- Where the estimate is a sum over the messages, so is the cost of a tail. -/
theorem tailCost_sum (weight : Message → Nat)
    (additive : ∀ part, (∀ message ∈ part, message ∈ messages) →
      estimate part = (part.map weight).sum) (cut : Nat) :
    tailCost estimate messages cut = ((messages.drop cut).map weight).sum := by
  have whole := costOver_sum weight (splitIntoTurns_covers messages) (Nat.le_refl _) additive cut
  rw [List.take_length, Nat.max_eq_right (Nat.zero_le cut)] at whole
  exact whole

/-- A budget of so many messages cuts that many off. -/
theorem budgetCut_length (inside : cut < messages.length) :
    budgetCut List.length (messages.length - cut) messages = cut := by
  have cost (other : Nat) : tailCost List.length messages other = messages.length - other := by
    rw [tailCost_sum (fun _ => 1) (by simp)]
    simp
  have paid := @budgetCut_paid (messages.length - cut) List.length messages (by omega)
  generalize budgetCut List.length (messages.length - cut) messages = other at paid
  have fits := paid.fits
  have maximal := paid.maximal
  simp only [cost] at fits maximal
  omega

/-! ## The moves behind the walk -/

theorem lastUserIdx_lt {user : Nat} (last : lastUserIdx messages = some user) :
    user < messages.length := by
  have member := List.mem_of_find?_eq_some last
  simpa using member

/-- A round of the repair moves the cut to an earlier message. -/
theorem earlierCut_lt {earlier : Nat} (moved : earlierCut messages cut = some earlier) :
    earlier < cut := by
  have inside : earlier < (messages.take cut).length := by
    unfold earlierCut at moved
    split at moved
    · rename_i earliest found
      obtain rfl := Option.some.inj moved
      obtain ⟨bound, -⟩ := List.findIdx?_eq_some_iff_getElem.mp found
      exact bound
    · exact lastUserIdx_lt moved
  rw [List.length_take] at inside
  omega

theorem adjustRounds_le (messages : List Message) (rounds cut : Nat) :
    adjustRounds messages rounds cut ≤ cut := by
  induction rounds generalizing cut with
  | zero => simp [adjustRounds]
  | succ rounds ih =>
    rw [adjustRounds]
    split
    · simp
    · split
      · simp
      · split
        · rename_i earlier moved
          have := earlierCut_lt moved
          have := ih earlier
          omega
        · simp

/-- The orphan repair and the clamp only ever lengthen the tail. -/
theorem determineCutoff_le (estimate : List Message → Nat) (budget : Int)
    (compressLastTurn : Bool) (messages : List Message) :
    determineCutoff estimate budget compressLastTurn messages ≤
      budgetCut estimate budget messages := by
  have repaired : repairedCut estimate budget messages ≤ budgetCut estimate budget messages :=
    adjustRounds_le messages _ _
  unfold determineCutoff
  cases compressLastTurn with
  | true => simpa using repaired
  | false =>
    cases lastUserIdx messages with
    | none => simpa using repaired
    | some lastUser =>
      simp only [Bool.false_eq_true, if_false]
      split <;> omega

/-- A cut without orphans that is not behind the last user message stays. -/
theorem determineCutoff_stays {compressLastTurn : Bool}
    (settled : orphanIds messages (budgetCut estimate budget messages) = [])
    (ahead : ∀ lastUser, compressLastTurn = false → lastUserIdx messages = some lastUser →
      budgetCut estimate budget messages ≤ lastUser) :
    determineCutoff estimate budget compressLastTurn messages =
      budgetCut estimate budget messages := by
  have repaired : repairedCut estimate budget messages = budgetCut estimate budget messages := by
    unfold repairedCut adjustForOrphanPairs
    generalize budgetCut estimate budget messages = cut at settled
    cases cut with
    | zero => rfl
    | succ before => simp [adjustRounds, settled]
  unfold determineCutoff
  rw [repaired]
  cases preserving : compressLastTurn with
  | true => simp
  | false =>
    cases last : lastUserIdx messages with
    | none => simp
    | some lastUser =>
      have bound := ahead lastUser preserving last
      simp only [Bool.false_eq_true, if_false]
      rw [if_neg (by omega)]

end SherryAgent.Contracts.Cutoff
