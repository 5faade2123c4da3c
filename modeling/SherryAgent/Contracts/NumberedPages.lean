import Mathlib.Data.List.Count
import SherryAgent.Contracts.Pages

/-!
# Numbered pages

* `splitNewlinesFrom_numberLines` — a numbered text is split at its newlines into its numbered lines.
* `lines_newline` — a line of `splitlines` has a newline at most at its end.
-/

namespace SherryAgent.Contracts.FileTools

open SherryAgent.Source.FileTools

/-! ## Splits at newlines -/

theorem splitNewlinesFrom_append {front : List Char} (plain : '\n' ∉ front) (line rest : List Char) :
    splitNewlinesFrom line (front ++ rest) = splitNewlinesFrom (line ++ front) rest := by
  induction front generalizing line with
  | nil => rw [List.append_nil, List.nil_append]
  | cons c front ih =>
    rw [List.mem_cons, not_or] at plain
    rw [List.cons_append, splitNewlinesFrom, ih plain.2, List.append_assoc]
    · rfl
    · exact Ne.symm plain.1

theorem splitNewlinesFrom_plain {text : List Char} (plain : '\n' ∉ text) (line : List Char) :
    splitNewlinesFrom line text = [line ++ text] := by
  have whole := splitNewlinesFrom_append plain line []
  rw [List.append_nil] at whole
  rw [whole]
  rfl

theorem splitNewlinesFrom_line_end {front : List Char} (plain : '\n' ∉ front) (rest : List Char) :
    splitNewlinesFrom [] (front ++ '\n' :: rest) = front :: splitNewlinesFrom [] rest := by
  rw [splitNewlinesFrom_append plain, List.nil_append, splitNewlinesFrom]

theorem length_splitNewlinesFrom (line text : List Char) :
    (splitNewlinesFrom line text).length = text.count '\n' + 1 := by
  induction line, text using splitNewlinesFrom.induct with
  | case1 line => rfl
  | case2 line rest ih =>
    rw [splitNewlinesFrom, List.length_cons, ih, List.count_cons_self]
  | case3 line c rest other ih =>
    rw [splitNewlinesFrom, ih, List.count_cons_of_ne]
    · intro same
      exact other same
    · exact other

/-- The last line of a split. -/
theorem splitNewlinesFrom_last {back : List Char} (plain : '\n' ∉ back) (line front : List Char) :
    splitNewlinesFrom line (front ++ '\n' :: back) = splitNewlinesFrom line front ++ [back] := by
  induction line, front using splitNewlinesFrom.induct with
  | case1 line =>
    have ended : splitNewlinesFrom line ('\n' :: back) = line :: splitNewlinesFrom [] back := by
      rw [splitNewlinesFrom]
    rw [List.nil_append, ended, splitNewlinesFrom_plain plain]
    rfl
  | case2 line rest ih =>
    rw [List.cons_append, splitNewlinesFrom, splitNewlinesFrom, ih]
    rfl
  | case3 line c rest other ih =>
    rw [List.cons_append, splitNewlinesFrom, splitNewlinesFrom, ih]
    · exact other
    · exact other

theorem newline_not_mem_splitNewlinesFrom {line text found : List Char} (plain : '\n' ∉ line)
    (mem : found ∈ splitNewlinesFrom line text) : '\n' ∉ found := by
  induction line, text using splitNewlinesFrom.induct with
  | case1 line =>
    rw [splitNewlinesFrom, List.mem_singleton] at mem
    rwa [mem]
  | case2 line rest ih =>
    rw [splitNewlinesFrom, List.mem_cons] at mem
    cases mem with
    | inl same => rwa [same]
    | inr later => exact ih (by simp) later
  | case3 line c rest other ih =>
    rw [splitNewlinesFrom] at mem
    · apply ih _ mem
      rw [List.mem_append, not_or]
      exact ⟨plain, by simpa using fun same => other same.symm⟩
    · exact other

/-! ## Numbers -/

/-- A line under its number. -/
def numbered (number : Nat) (line : List Char) : List Char := (toString number).toList ++ '|' :: line

/-- The lines under their numbers, each for itself. -/
def underNumbers (number : Nat) : List (List Char) → List (List Char)
  | [] => []
  | line :: rest => numbered number line :: underNumbers (number + 1) rest

theorem digits_eq (number : Nat) : (toString number).toList = Nat.toDigits 10 number := by
  simp [toString]

theorem isDigit_of_mem_digits {number : Nat} {c : Char} (mem : c ∈ (toString number).toList) :
    c.isDigit = true := by
  rw [digits_eq] at mem
  exact Nat.isDigit_of_mem_toDigits (by decide) (by decide) mem

theorem digits_injective {first second : Nat}
    (same : (toString first).toList = (toString second).toList) : first = second := by
  rw [digits_eq, digits_eq] at same
  rw [← @Nat.ofDigitChars_toDigits 10 first (by decide) (by decide), same,
    Nat.ofDigitChars_toDigits (by decide) (by decide)]

/-- The digits of a number before something else. -/
theorem takeWhile_digits {c : Char} (number : Nat) (other : c.isDigit = false) (rest : List Char) :
    ((toString number).toList ++ c :: rest).takeWhile Char.isDigit = (toString number).toList := by
  rw [List.takeWhile_append_of_pos fun d mem => isDigit_of_mem_digits mem,
    List.takeWhile_cons_of_neg (by simp [other]), List.append_nil]

theorem numbered_injective {first second : Nat} {left right : List Char}
    (same : numbered first left = numbered second right) : first = second ∧ left = right := by
  unfold numbered at same
  have digits := congrArg (List.takeWhile Char.isDigit) same
  rw [takeWhile_digits first (by decide), takeWhile_digits second (by decide)] at digits
  have number := digits_injective digits
  subst number
  exact ⟨rfl, (List.cons.inj (List.append_cancel_left same)).2⟩

theorem newline_not_mem_digits (number : Nat) : '\n' ∉ (toString number).toList := by
  intro mem
  exact absurd (isDigit_of_mem_digits mem) (by decide)

theorem newline_not_mem_numbered {number : Nat} {line : List Char} (plain : '\n' ∉ line) :
    '\n' ∉ numbered number line := by
  unfold numbered
  rw [List.mem_append, List.mem_cons, not_or, not_or]
  exact ⟨newline_not_mem_digits number, by decide, plain⟩

/-- A numbered text has its numbered lines between the newlines. -/
theorem splitNewlinesFrom_numberLines {number : Nat} {lines : List (List Char)}
    (some_line : lines ≠ []) (plain : ∀ line ∈ lines, '\n' ∉ line) :
    splitNewlinesFrom [] (numberLines number lines) = underNumbers number lines := by
  induction lines generalizing number with
  | nil => exact absurd rfl some_line
  | cons line rest ih =>
    have first := @newline_not_mem_numbered number line (plain line List.mem_cons_self)
    cases rest with
    | nil =>
      have whole := splitNewlinesFrom_plain first []
      rwa [List.nil_append] at whole
    | cons next rest =>
      have later := @ih (number + 1) (List.cons_ne_nil _ _)
        fun line mem => plain line (List.mem_cons_of_mem _ mem)
      have shape : numberLines number (line :: next :: rest) =
          numbered number line ++ '\n' :: numberLines (number + 1) (next :: rest) := rfl
      rw [shape, splitNewlinesFrom_line_end first, later]
      rfl

theorem numberLines_ne_nil {number : Nat} {lines : List (List Char)} (some_line : lines ≠ []) :
    numberLines number lines ≠ [] := by
  intro empty
  cases lines with
  | nil => exact some_line rfl
  | cons line rest =>
    cases rest with
    | nil => simp [numberLines] at empty
    | cons next rest => simp [numberLines] at empty

/-- Where numbered lines begin like a numbering, they are its first lines, and the rest is the rest. -/
theorem underNumbers_append {number : Nat} {lines all : List (List Char)} {rest : List (List Char)}
    (same : underNumbers number lines ++ rest = underNumbers number all) :
    ∃ later, all = lines ++ later ∧ rest = underNumbers (number + lines.length) later := by
  induction lines generalizing number all with
  | nil => exact ⟨all, rfl, same⟩
  | cons line lines ih =>
    cases all with
    | nil => cases same
    | cons first all =>
      rw [underNumbers, underNumbers, List.cons_append, List.cons.injEq] at same
      obtain ⟨later, shape, back⟩ := ih same.2
      refine ⟨later, ?_, ?_⟩
      · rw [(numbered_injective same.1).2, shape]
        rfl
      · rw [back, List.length_cons, Nat.add_right_comm, Nat.add_assoc]

theorem underNumbers_append_eq (number : Nat) (lines later : List (List Char)) :
    underNumbers number (lines ++ later) =
      underNumbers number lines ++ underNumbers (number + lines.length) later := by
  induction lines generalizing number with
  | nil => rfl
  | cons line lines ih =>
    rw [List.cons_append, underNumbers, underNumbers, ih, List.length_cons, Nat.add_right_comm,
      Nat.add_assoc]
    rfl

/-! ## The lines of a file -/

/-- No line is empty, and a newline stands only at the end of one. -/
theorem splitLinesFrom_newline {line text found : List Char} (plain : '\n' ∉ line)
    (mem : found ∈ splitLinesFrom line text) : found ≠ [] ∧ '\n' ∉ found.dropLast := by
  induction line, text using splitLinesFrom.induct with
  | case1 line empty =>
    rw [splitLinesFrom, if_pos empty] at mem
    cases mem
  | case2 line filled =>
    rw [splitLinesFrom, if_neg filled, List.mem_singleton] at mem
    rw [mem]
    exact ⟨by simpa using filled, fun inside => plain (List.mem_of_mem_dropLast inside)⟩
  | case3 line rest ih =>
    rw [splitLinesFrom, List.mem_cons] at mem
    cases mem with
    | inl same =>
      rw [same]
      have front : (line ++ ['\r', '\n']).dropLast = line ++ ['\r'] := by simp
      rw [front]
      exact ⟨by simp, by simp [plain]⟩
    | inr later => exact ih (by simp) later
  | case4 line c rest single breaks ih =>
    rw [splitLinesFrom, if_pos breaks, List.mem_cons] at mem
    · cases mem with
      | inl same =>
        rw [same, List.dropLast_concat]
        exact ⟨by simp, plain⟩
      | inr later => exact ih (by simp) later
    · exact single
  | case5 line c rest single goes_on ih =>
    rw [splitLinesFrom, if_neg goes_on] at mem
    · apply ih _ mem
      rw [List.mem_append, not_or, List.mem_singleton]
      refine ⟨plain, ?_⟩
      intro same
      subst same
      exact goes_on (by decide)
    · exact single

theorem lines_newline {text line : List Char} (mem : line ∈ splitLines text) :
    line ≠ [] ∧ '\n' ∉ line.dropLast :=
  splitLinesFrom_newline (by simp) mem

end SherryAgent.Contracts.FileTools
