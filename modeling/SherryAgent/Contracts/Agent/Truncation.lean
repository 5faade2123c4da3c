import Mathlib.Data.List.Basic
import SherryAgent.Source.Agent.Session

/-!
# Where a list is cut, and where messages are put in

The truncation removes the user turn of a given number and everything behind it;
notices and reminders are put before a human message.
-/

namespace SherryAgent.Contracts.Agent

open SherryAgent.Source.Agent SherryAgent.Source.Transcript

variable {messages : List Message}

theorem isHuman_of_counts {message : Message} (counts : countsAsTurn message = true) :
    isHuman message = true := by
  rw [countsAsTurn, Bool.and_eq_true] at counts
  exact counts.1

/-- The cut is before the human message that is counted as the turn. -/
theorem cutIndex_eq_some {turnNum : Int} {seen cut : Nat} :
    cutIndex turnNum seen messages = some cut ↔
      ∃ first message rest, messages = first ++ message :: rest ∧ first.length = cut ∧
        countsAsTurn message = true ∧ (seen + first.countP countsAsTurn + 1 : Int) = turnNum := by
  induction messages generalizing seen cut with
  | nil => simp [cutIndex]
  | cons head tail ih =>
    have later : ∀ {number : Nat}, (∃ at', cutIndex turnNum number tail = some at' ∧ at' + 1 = cut) ↔
        ∃ first message rest, head :: tail = (head :: first) ++ message :: rest ∧
          (head :: first).length = cut ∧ countsAsTurn message = true ∧
            (number + first.countP countsAsTurn + 1 : Int) = turnNum := by
      intro number
      constructor
      · rintro ⟨at', found, rfl⟩
        obtain ⟨first, message, rest, rfl, length, counts, reached⟩ := ih.mp found
        exact ⟨first, message, rest, rfl, congrArg (· + 1) length, counts, reached⟩
      · rintro ⟨first, message, rest, same, length, counts, reached⟩
        exact ⟨first.length, ih.mpr ⟨first, message, rest, (List.cons.inj same).2, rfl, counts,
          reached⟩, length⟩
    rw [cutIndex]
    by_cases counts : countsAsTurn head = true
    · rw [if_pos counts]
      by_cases reached : (seen + 1 : Int) = turnNum
      · rw [if_pos reached]
        constructor
        · intro here
          cases here
          exact ⟨[], head, tail, rfl, rfl, counts, by simpa using reached⟩
        · rintro ⟨first, message, rest, same, length, -, total⟩
          cases first with
          | nil => rw [← length]; rfl
          | cons other first =>
            obtain ⟨rfl, -⟩ := List.cons.inj same
            rw [List.countP_cons_of_pos counts] at total
            omega
      · rw [if_neg reached, Option.map_eq_some_iff, later]
        constructor
        · rintro ⟨first, message, rest, same, length, counted, total⟩
          refine ⟨head :: first, message, rest, same, length, counted, ?_⟩
          rw [List.countP_cons_of_pos counts]
          omega
        · rintro ⟨first, message, rest, same, length, counted, total⟩
          cases first with
          | nil => exact absurd (by simpa using total) reached
          | cons other first =>
            obtain ⟨rfl, -⟩ := List.cons.inj same
            rw [List.countP_cons_of_pos counts] at total
            exact ⟨first, message, rest, same, length, counted, by omega⟩
    · rw [if_neg counts, Option.map_eq_some_iff, later]
      constructor
      · rintro ⟨first, message, rest, same, length, counted, total⟩
        refine ⟨head :: first, message, rest, same, length, counted, ?_⟩
        rw [List.countP_cons_of_neg counts]
        exact total
      · rintro ⟨first, message, rest, same, length, counted, total⟩
        cases first with
        | nil =>
          obtain ⟨rfl, -⟩ := List.cons.inj same
          exact absurd counted counts
        | cons other first =>
          obtain ⟨rfl, -⟩ := List.cons.inj same
          rw [List.countP_cons_of_neg counts] at total
          exact ⟨first, message, rest, same, length, counted, total⟩

theorem insertBeforeLast_spec (notices messages : List Message) :
    match insertBeforeLast notices messages with
    | some out => ∃ first human rest, messages = first ++ human :: rest ∧ isHuman human = true ∧
        humanCount rest = 0 ∧ out = first ++ (notices ++ human :: rest)
    | none => humanCount messages = 0 := by
  induction messages with
  | nil => rfl
  | cons message rest ih =>
    rw [insertBeforeLast]
    cases inserted : insertBeforeLast notices rest with
    | some out =>
      rw [inserted] at ih
      obtain ⟨first, human, after, rfl, is_human, quiet, rfl⟩ := ih
      exact ⟨message :: first, human, after, rfl, is_human, quiet, rfl⟩
    | none =>
      rw [inserted] at ih
      dsimp only at ih ⊢
      split
      · rename_i found
        split at found
        · rename_i human
          cases found
          exact ⟨[], message, rest, rfl, human, ih, rfl⟩
        · cases found
      · rename_i found
        split at found
        · cases found
        · rename_i other
          rw [humanCount, List.countP_cons_of_neg other]
          exact ih

/-- Reminders are put before the user's message, which is the last one. -/
theorem injectReminders_spec {transient : List String} {injections : List Injection}
    {out : List Message} (injected : injectReminders transient injections messages = some out) :
    ∃ first final, messages = first ++ [final] ∧ isHuman final = true ∧
      isSystemReminder final = false ∧
      out = (first.filter fun message => !isTransientReminder transient message) ++
        injections.map Injection.reminder ++ [final] := by
  unfold injectReminders at injected
  obtain ⟨final, last, injected⟩ := Option.bind_eq_some_iff.mp injected
  have whole := List.dropLast_append_getLast? final last
  split at injected
  · cases injected
  · rename_i own
    rw [Bool.or_eq_true, not_or] at own
    have human : isHuman final = true := by simpa using own.1
    have said : isInjected final = false := by simpa using own.2
    have unprompted : isSystemReminder final = false := by
      unfold isSystemReminder
      split
      · rename_i internal
        have marked : isInjected final = true := by
          unfold isInjected
          rw [internal]
          rfl
        rw [said] at marked
        cases marked
      · rfl
    dsimp only at injected
    split at injected
    · cases injected
    · split at injected
      · cases injected
      · cases injected
        exact ⟨messages.dropLast, final, whole.symm, human, unprompted, rfl⟩

end SherryAgent.Contracts.Agent
