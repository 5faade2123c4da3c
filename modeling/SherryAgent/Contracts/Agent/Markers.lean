import Mathlib.Data.List.Basic
import SherryAgent.Contracts.Transcript.Repair
import SherryAgent.Source.Agent.Session

/-!
# Where the interrupt markers of a checkpoint stand

A marker carries the number of human messages before it in its id. It is an assistant
without calls; behind it stands what the next turn put in, or the next marker. The
placeholders of a healing stand right before their marker.
-/

namespace SherryAgent.Contracts.Agent

open SherryAgent.Source.Agent SherryAgent.Source.Transcript SherryAgent.Contracts.Transcript

/-! ## Ids -/

section Ids

variable {thread : String} {m n : Nat} {call other : String}

theorem markerId_toList (thread : String) (n : Nat) : (markerId thread n).toList =
    "interrupted-".toList ++ thread.toList ++ "-".toList ++ Nat.toDigits 10 n := by
  simp only [markerId, String.toList_append, Nat.toString_eq_repr, Nat.toList_repr]

theorem digits_injective (same : Nat.toDigits 10 m = Nat.toDigits 10 n) : m = n := by
  rw [← Nat.ofDigitChars_ten_toDigits (n := m), same, Nat.ofDigitChars_ten_toDigits]

theorem dash_not_digit (n : Nat) : '-' ∉ Nat.toDigits 10 n := fun member =>
  absurd (Nat.isDigit_of_mem_toDigits (by decide) (by decide) member) (by decide)

/-- The digits in front of the first dash. -/
theorem digits_of_append_dash {first later : List Char}
    (same : Nat.toDigits 10 m ++ '-' :: first = Nat.toDigits 10 n ++ '-' :: later) : m = n := by
  have taken : ∀ (k : Nat) (rest : List Char),
      (Nat.toDigits 10 k ++ '-' :: rest).takeWhile (· != '-') = Nat.toDigits 10 k := by
    intro k rest
    rw [List.takeWhile_append_of_pos, List.takeWhile_cons_of_neg (by decide), List.append_nil]
    intro c member
    have different : c ≠ '-' := fun dash => dash_not_digit k (dash ▸ member)
    simpa using different
  exact digits_injective (by rw [← taken m first, same, taken])

theorem markerId_inj : markerId thread m = markerId thread n ↔ m = n := by
  refine ⟨fun same => digits_injective ?_, fun same => same ▸ rfl⟩
  have chars := congrArg String.toList same
  rwa [markerId_toList, markerId_toList, List.append_cancel_left_eq] at chars

theorem healId_toList (thread : String) (n : Nat) (call : String) :
    (healId (markerId thread n) call).toList =
      "interrupted-".toList ++ thread.toList ++ "-".toList ++
        (Nat.toDigits 10 n ++ '-' :: ("heal-".toList ++ call.toList)) := by
  simp only [healId, String.toList_append, markerId_toList, List.append_assoc,
    List.append_cancel_left_eq]
  rfl

theorem markerId_ne_healId : markerId thread m ≠ healId (markerId thread n) call := by
  intro same
  have chars := congrArg String.toList same
  rw [markerId_toList, healId_toList, List.append_cancel_left_eq] at chars
  exact dash_not_digit m (chars ▸ List.mem_append_right _ List.mem_cons_self)

theorem healId_marker (same : healId (markerId thread m) call = healId (markerId thread n) other) :
    m = n := by
  have chars := congrArg String.toList same
  rw [healId_toList, healId_toList, List.append_cancel_left_eq] at chars
  exact digits_of_append_dash chars

theorem healId_inj : healId (markerId thread n) call = healId (markerId thread n) other ↔
    call = other := by
  refine ⟨fun same => String.toList_inj.mp ?_, fun same => same ▸ rfl⟩
  have chars := congrArg String.toList same
  simp only [healId, String.toList_append] at chars
  exact List.append_cancel_left chars

theorem uuid_ne_markerId : uuid m ≠ markerId thread n := by
  intro same
  have chars := congrArg String.toList same
  rw [markerId_toList, uuid, String.toList_append] at chars
  cases (List.cons.inj chars).1

theorem uuid_ne_healId : uuid m ≠ healId (markerId thread n) call := by
  intro same
  have chars := congrArg String.toList same
  rw [healId_toList, uuid, String.toList_append] at chars
  cases (List.cons.inj chars).1

theorem markerId_ne_empty (thread : String) (n : Nat) : markerId thread n ≠ "" := by
  intro empty
  have chars := congrArg String.toList empty
  rw [markerId_toList] at chars
  cases chars

theorem healId_ne_empty (thread : String) (n : Nat) (call : String) :
    healId (markerId thread n) call ≠ "" := by
  intro empty
  have chars := congrArg String.toList empty
  rw [healId_toList] at chars
  cases chars

end Ids

/-! ## Spans -/

/-- The messages up to the next assistant. -/
def opening : List Message → List Message
  | [] => []
  | .ai _ :: _ => []
  | message :: rest => message :: opening rest

def nextAi : List Message → Option AiMessage
  | [] => none
  | .ai message :: _ => some message
  | _ :: rest => nextAi rest

section Spans

variable {first rest : List Message} {message : Message} {assistant : AiMessage}

theorem opening_cons (noAi : message.isAi = false) :
    opening (message :: rest) = message :: opening rest := by
  cases message with
  | ai message => cases noAi
  | _ => rfl

theorem nextAi_cons (noAi : message.isAi = false) : nextAi (message :: rest) = nextAi rest := by
  cases message with
  | ai message => cases noAi
  | _ => rfl

theorem opening_of_nextAi (ended : nextAi first = none) : opening first = first := by
  induction first with
  | nil => rfl
  | cons message first ih =>
    cases message with
    | ai message => cases ended
    | plain message | tool message => exact congrArg (_ :: ·) (ih ended)

theorem append_of_nextAi (rest : List Message) (ended : nextAi first = none) :
    opening (first ++ rest) = first ++ opening rest ∧ nextAi (first ++ rest) = nextAi rest := by
  induction first with
  | nil => exact ⟨rfl, rfl⟩
  | cons message first ih =>
    cases message with
    | ai message => cases ended
    | plain message | tool message =>
      exact ⟨congrArg (_ :: ·) (ih ended).1, (ih ended).2⟩

theorem append_of_nextAi_some (rest : List Message) (next : nextAi first = some assistant) :
    opening (first ++ rest) = opening first ∧ nextAi (first ++ rest) = some assistant := by
  induction first with
  | nil => cases next
  | cons message first ih =>
    cases message with
    | ai message => exact ⟨rfl, next⟩
    | plain message | tool message =>
      exact ⟨congrArg (_ :: ·) (ih next).1, (ih next).2⟩

theorem nextAi_mem (next : nextAi first = some assistant) : .ai assistant ∈ first := by
  induction first with
  | nil => cases next
  | cons message first ih =>
    cases message with
    | ai message =>
      cases next
      exact List.mem_cons_self
    | plain message | tool message => exact List.mem_cons_of_mem _ (ih next)

theorem nextAi_eq_none {span : List Message} :
    nextAi span = none ↔ ∀ message ∈ span, message.isAi = false := by
  induction span with
  | nil => simp [nextAi]
  | cons message span ih => cases message <;> simp [nextAi, Message.isAi, ih]

theorem opening_subset : ∀ message ∈ opening first, message ∈ first := by
  induction first with
  | nil => exact fun _ member => member
  | cons message first ih =>
    cases message with
    | ai message => exact fun _ member => absurd member List.not_mem_nil
    | plain message | tool message =>
      intro other member
      rcases List.mem_cons.mp member with rfl | later
      · exact List.mem_cons_self
      · exact List.mem_cons_of_mem _ (ih other later)

end Spans

@[simp] theorem humanCount_append (first rest : List Message) :
    humanCount (first ++ rest) = humanCount first + humanCount rest := List.countP_append

@[simp] theorem humanCount_nil : humanCount [] = 0 := rfl

theorem humanCount_cons (message : Message) (rest : List Message) :
    humanCount (message :: rest) = humanCount [message] + humanCount rest := by
  rw [← List.singleton_append, humanCount_append]

theorem humanCount_pos {messages : List Message} {message : Message} (member : message ∈ messages)
    (human : isHuman message = true) : 0 < humanCount messages :=
  List.countP_pos_iff.mpr ⟨message, member, human⟩

theorem hasId_iff {id : String} {messages : List Message} :
    hasId id messages = true ↔ ∃ message ∈ messages, messageId message = some id := by
  simp [hasId]

/-! ## Markers in their places -/

section Places

variable (thread : String)

def IsMarker (n : Nat) (message : Message) : Prop := messageId message = some (markerId thread n)

def IsPlaceholder (n : Nat) (message : Message) : Prop :=
  ∃ call, messageId message = some (healId (markerId thread n) call)

/-- No marker and no placeholder. -/
def Ordinary (message : Message) : Prop :=
  ∀ n, ¬IsMarker thread n message ∧ ¬IsPlaceholder thread n message

/-- What stands behind a marker: an input up to the next assistant, or the next marker;
at the end of the list there may be neither when `tail` holds. -/
def Followed (tail : Prop) (rest : List Message) : Prop :=
  (∃ message ∈ opening rest, isInput message = true) ∨
    match nextAi rest with
    | some next => ∃ n, IsMarker thread n (.ai next)
    | none => tail

/-- A message with `before` human messages before it, and `rest` after it. -/
structure Placed (tail : Prop) (before : Nat) (message : Message) (rest : List Message) : Prop where
  number : ∀ n, IsMarker thread n message → before = n
  callless : ∀ n, IsMarker thread n message → isSystemReminder message = false ∧
    ∃ ai, message = .ai ai ∧ ai.toolCalls = []
  followed : ∀ n, IsMarker thread n message → Followed thread tail rest
  tool : ∀ n, IsPlaceholder thread n message → message.isTool = true
  closing : ∀ n, IsPlaceholder thread n message → humanCount (opening rest) = 0 ∧
    ∃ next, nextAi rest = some next ∧ IsMarker thread n (.ai next)

def Coherent (tail : Prop) : (before : Nat) → List Message → Prop
  | _, [] => True
  | before, message :: rest =>
    Placed thread tail before message rest ∧ Coherent tail (before + humanCount [message]) rest

variable {thread} {tail tail' : Prop} {before : Nat} {first rest messages : List Message}
  {message : Message} {n : Nat}

theorem IsMarker.unique {m : Nat} (one : IsMarker thread m message) (two : IsMarker thread n message) :
    m = n :=
  markerId_inj.mp (Option.some.inj (one.symm.trans two))

theorem IsPlaceholder.not_marker {m : Nat} (placeholder : IsPlaceholder thread m message) :
    ¬IsMarker thread n message := by
  obtain ⟨call, same⟩ := placeholder
  exact fun marker => markerId_ne_healId (Option.some.inj (marker.symm.trans same))

theorem Ordinary.placed (ordinary : Ordinary thread message) :
    Placed thread tail before message rest where
  number n marker := absurd marker (ordinary n).1
  callless n marker := absurd marker (ordinary n).1
  followed n marker := absurd marker (ordinary n).1
  tool n placeholder := absurd placeholder (ordinary n).2
  closing n placeholder := absurd placeholder (ordinary n).2

theorem coherent_of_ordinary (ordinary : ∀ message ∈ messages, Ordinary thread message) :
    Coherent thread tail before messages := by
  induction messages generalizing before with
  | nil => trivial
  | cons message rest ih =>
    exact ⟨(ordinary message List.mem_cons_self).placed,
      ih fun other member => ordinary other (List.mem_cons_of_mem _ member)⟩

theorem Followed.mono (followed : Followed thread tail rest) (weaker : tail → tail') :
    Followed thread tail' rest := by
  refine followed.imp id fun next => ?_
  split at next
  · exact next
  · exact weaker next

theorem Coherent.mono (coherent : Coherent thread tail before messages) (weaker : tail → tail') :
    Coherent thread tail' before messages := by
  induction messages generalizing before with
  | nil => trivial
  | cons message rest ih =>
    exact ⟨{ coherent.1 with
      followed := fun n marker => (coherent.1.followed n marker).mono weaker }, ih coherent.2⟩

theorem Coherent.right (coherent : Coherent thread tail before (first ++ rest)) :
    Coherent thread tail (before + humanCount first) rest := by
  induction first generalizing before with
  | nil => exact coherent
  | cons message first ih =>
    rw [humanCount_cons, ← Nat.add_assoc]
    exact ih coherent.2

theorem Coherent.at (coherent : Coherent thread tail before (first ++ message :: rest)) :
    Placed thread tail (before + humanCount first) message rest := coherent.right.1

/-- Behind what follows a marker, more may be put. -/
theorem Followed.append (followed : Followed thread tail first)
    (joins : tail → Followed thread tail' rest) : Followed thread tail' (first ++ rest) := by
  cases next : nextAi first with
  | some assistant =>
    have same := append_of_nextAi_some rest next
    rw [Followed, next] at followed
    rw [Followed, same.1, same.2]
    exact followed
  | none =>
    have same := append_of_nextAi rest next
    rw [Followed, next, opening_of_nextAi next] at followed
    rw [Followed, same.1, same.2]
    rcases followed with ⟨input, member, asked⟩ | ended
    · exact .inl ⟨input, List.mem_append_left _ member, asked⟩
    · refine (joins ended).imp (fun ⟨input, member, asked⟩ => ?_) id
      exact ⟨input, List.mem_append_right _ member, asked⟩

theorem Placed.append (placed : Placed thread tail before message first)
    (joins : tail → Followed thread tail' rest) :
    Placed thread tail' before message (first ++ rest) where
  number := placed.number
  callless := placed.callless
  followed n marker := (placed.followed n marker).append joins
  tool := placed.tool
  closing n placeholder := by
    obtain ⟨none_between, next, found, marker⟩ := placed.closing n placeholder
    have same := append_of_nextAi_some rest found
    exact ⟨by rw [same.1, none_between], next, same.2, marker⟩

theorem Coherent.append (left : Coherent thread tail before first)
    (right : Coherent thread tail' (before + humanCount first) rest)
    (joins : tail → Followed thread tail' rest) :
    Coherent thread tail' before (first ++ rest) := by
  induction first generalizing before with
  | nil => exact right
  | cons message first ih =>
    rw [humanCount_cons, ← Nat.add_assoc] at right
    exact ⟨left.1.append joins, ih left.2 right⟩

/-- A placeholder stands before its marker. -/
theorem Coherent.ordinary (coherent : Coherent thread tail before messages)
    (unmarked : ∀ message ∈ messages, ∀ n, ¬IsMarker thread n message) :
    ∀ message ∈ messages, Ordinary thread message := by
  intro message member n
  refine ⟨unmarked message member n, fun placeholder => ?_⟩
  obtain ⟨first, rest, rfl⟩ := List.append_of_mem member
  obtain ⟨-, next, found, marker⟩ := coherent.at.closing n placeholder
  exact unmarked _ (List.mem_append_right _ (List.mem_cons_of_mem _ (nextAi_mem found))) n marker

theorem Coherent.renumber (coherent : Coherent thread tail before messages) {number : Nat}
    (same : (∃ message ∈ messages, ∃ n, IsMarker thread n message) → before = number) :
    Coherent thread tail number messages := by
  by_cases marked : ∃ message ∈ messages, ∃ n, IsMarker thread n message
  · exact same marked ▸ coherent
  · refine coherent_of_ordinary (coherent.ordinary fun message member n marker => ?_)
    exact marked ⟨message, member, n, marker⟩

theorem Coherent.le (coherent : Coherent thread tail before messages) (member : message ∈ messages)
    (marker : IsMarker thread n message) : before ≤ n ∧ n ≤ before + humanCount messages := by
  obtain ⟨first, rest, rfl⟩ := List.append_of_mem member
  have number := coherent.at.number n marker
  rw [humanCount_append]
  omega

/-- Where every marker is followed by an input, the next turn's number is free. -/
theorem Coherent.lt (coherent : Coherent thread False before messages) (member : message ∈ messages)
    (marker : IsMarker thread n message) : n < before + humanCount messages := by
  induction messages generalizing before message n with
  | nil => cases member
  | cons head rest ih =>
    rw [humanCount_cons, ← Nat.add_assoc]
    rcases List.mem_cons.mp member with rfl | later
    · have number := coherent.1.number n marker
      rcases coherent.1.followed n marker with ⟨input, inside, asked⟩ | next
      · rw [isInput, Bool.and_eq_true] at asked
        have human := humanCount_pos (opening_subset input inside) asked.1
        omega
      · split at next
        · rename_i ai found
          obtain ⟨k, other⟩ := next
          have bound := coherent.2.le (nextAi_mem found) other
          have strict := ih coherent.2 (nextAi_mem found) other
          omega
        · cases next
    · exact ih coherent.2 later marker

end Places

end SherryAgent.Contracts.Agent
