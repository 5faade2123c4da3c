import Mathlib.Data.List.DropRight
import Mathlib.Data.List.Infix
import SherryAgent.Source.FileTools.ReadFile
import SherryAgent.Source.PyText

/-!
# Stripped texts and lines

- `strip_strip`: a stripped text stays as it is
- `splitLinesFrom_newline`: the text up to its first line break is its first line
-/

namespace SherryAgent.Contracts.Texts

open SherryAgent.Source SherryAgent.Source.FileTools

variable {text line : List Char}

/-! ## Stripped texts -/

theorem strip_strip (text : String) : PyText.strip (PyText.strip text) = PyText.strip text := by
  have inner : ∀ chars : List Char, PyText.stripChars PyText.isSpace chars =
      (chars.dropWhile PyText.isSpace).rdropWhile PyText.isSpace := fun chars => rfl
  have front : ∀ chars : List Char,
      ((chars.dropWhile PyText.isSpace).rdropWhile PyText.isSpace).dropWhile PyText.isSpace =
        (chars.dropWhile PyText.isSpace).rdropWhile PyText.isSpace := by
    intro chars
    obtain ⟨rest, whole⟩ := List.rdropWhile_prefix PyText.isSpace (chars.dropWhile PyText.isSpace)
    cases kept : (chars.dropWhile PyText.isSpace).rdropWhile PyText.isSpace with
    | nil => rfl
    | cons first later =>
      rw [kept] at whole
      have same := List.dropWhile_idempotent PyText.isSpace chars
      rw [← whole, List.cons_append] at same
      by_cases blank : PyText.isSpace first = true
      · rw [List.dropWhile_cons_of_pos blank] at same
        have shorter := (List.dropWhile_suffix PyText.isSpace (l := later ++ rest)).length_le
        have sized := congrArg List.length same
        simp only [List.length_cons] at sized
        omega
      · exact List.dropWhile_cons_of_neg blank
  unfold PyText.strip
  rw [String.toList_ofList, inner, inner, front, List.rdropWhile_idempotent]

theorem mem_strip {c : Char} {text : String} (member : c ∈ (PyText.strip text).toList) :
    c ∈ text.toList := by
  simp only [PyText.strip, String.toList_ofList, PyText.stripChars, List.mem_reverse] at member
  have back := (List.dropWhile_suffix PyText.isSpace).subset member
  rw [List.mem_reverse] at back
  exact (List.dropWhile_suffix PyText.isSpace).subset back

theorem contains_iff {needle text : String} :
    PyText.contains needle text = true ↔ needle.toList <:+: text.toList := by
  unfold PyText.contains
  simp only [List.any_eq_true, List.mem_tails, List.isPrefixOf_iff_prefix]
  constructor
  · rintro ⟨suffix, ⟨front, whole⟩, back, starts⟩
    exact ⟨front, back, by rw [List.append_assoc, starts, whole]⟩
  · rintro ⟨front, back, whole⟩
    exact ⟨needle.toList ++ back, ⟨front, by rw [← whole, List.append_assoc]⟩, back, rfl⟩

/-! ## Lines -/

/-- A text without a line break. -/
def Plain (text : List Char) : Prop := ∀ c ∈ text, isLineBreak c = false

instance : Decidable (Plain text) := inferInstanceAs (Decidable (∀ c ∈ text, _))

theorem Plain.append {first second : List Char} (plain : Plain first) (plain' : Plain second) :
    Plain (first ++ second) := by
  intro c member
  rcases List.mem_append.mp member with inside | inside
  · exact plain c inside
  · exact plain' c inside

theorem plain_of_all (plain : text.all (fun c => !isLineBreak c) = true) : Plain text := by
  intro c member
  simpa using List.all_eq_true.mp plain c member

/-- A literal is plain when its letters are. -/
theorem plain_ofList (plain : text.all (fun c => !isLineBreak c) = true) :
    Plain (String.ofList text).toList := by
  rw [String.toList_ofList]
  exact plain_of_all plain

theorem plain_of_isDigit {c : Char} (digit : c.isDigit = true) : isLineBreak c = false := by
  rw [Char.isDigit, Bool.and_eq_true, decide_eq_true_eq, decide_eq_true_eq] at digit
  have low : 48 ≤ c.toNat := digit.1
  have high : c.toNat ≤ 57 := digit.2
  simp only [isLineBreak, List.contains_eq_mem, decide_eq_false_iff_not, List.mem_cons,
    List.not_mem_nil, or_false]
  omega

theorem plain_digits (n : Nat) : Plain (toString n).toList := by
  intro c member
  have digits : (toString n).toList = Nat.toDigits 10 n := by
    simp [toString]
  rw [digits] at member
  exact plain_of_isDigit (Nat.isDigit_of_mem_toDigits (by decide) (by decide) member)

theorem splitLinesFrom_line {line text : List Char} (plain : ∀ c ∈ text, isLineBreak c = false) :
    splitLinesFrom line text = if (line ++ text).isEmpty then [] else [line ++ text] := by
  induction line, text using splitLinesFrom.induct with
  | case1 line empty => simp [splitLinesFrom, empty]
  | case2 line filled => simp [splitLinesFrom, filled]
  | case3 line rest ih => exact absurd (plain '\r' List.mem_cons_self) (by decide)
  | case4 line c rest single breaks ih =>
    rw [plain c List.mem_cons_self] at breaks
    cases breaks
  | case5 line c rest single goes_on ih =>
    rw [splitLinesFrom, if_neg goes_on, ih fun c member => plain c (List.mem_cons_of_mem _ member),
      List.append_assoc]
    · rfl
    · exact single

theorem splitLinesFrom_newline (plain : Plain text) (line rest : List Char) :
    splitLinesFrom line (text ++ '\n' :: rest) =
      (line ++ text ++ ['\n']) :: splitLinesFrom [] rest := by
  induction text generalizing line with
  | nil =>
    rw [List.nil_append, splitLinesFrom, if_pos (by decide), List.append_nil]
    intro tail same
    cases same
  | cons c text ih =>
    have goes_on : isLineBreak c = false := plain c List.mem_cons_self
    rw [List.cons_append, splitLinesFrom, if_neg (by simp [goes_on]),
      ih fun c member => plain c (List.mem_cons_of_mem _ member)]
    · simp
    · rintro tail rfl same
      cases goes_on

end SherryAgent.Contracts.Texts
