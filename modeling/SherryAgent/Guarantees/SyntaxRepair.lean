import Mathlib.Data.List.TakeWhile
import SherryAgent.Source.Agent.ToolArgsRepair

/-!
# Repairs of syntax only

- `repair_sound`: a mapping that a repair returns is what the raw text says once some commas outside
  its strings are dropped, or once the unquoted value at its end is quoted
-/

namespace SherryAgent.Guarantees.SyntaxRepair

open SherryAgent.Library.StrictJson SherryAgent.Source SherryAgent.Source.Agent.ToolArgsRepair

/-! ## What a repair may do -/

/-- Whether a text ends in a string, when it begins outside of one. -/
def quotingAfter (text : List Char) : Quoting := text.foldl quoteStep .outside

/-- Some commas outside strings are dropped. -/
inductive DropsCommas : Quoting → List Char → List Char → Prop
  | nil {quoting : Quoting} : DropsCommas quoting [] []
  | keep {quoting : Quoting} {c : Char} {rest out : List Char}
      (later : DropsCommas (quoteStep quoting c) rest out) :
      DropsCommas quoting (c :: rest) (c :: out)
  | drop {rest out : List Char} (later : DropsCommas .outside rest out) :
      DropsCommas .outside (',' :: rest) out

/-- The text up to an unquoted value: its last member key and a colon. -/
def tailFront (before key gap space : List Char) : List Char :=
  before ++ '"' :: (key ++ '"' :: (gap ++ ':' :: space))

/-- The unquoted value at the end of the text becomes a string, byte for byte, of the key before it,
which stands outside strings. -/
structure QuotesTail (raw : List Char) (m : Mapping) (before key gap space value rest : List Char) :
    Prop where
  split : raw = tailFront before key gap space ++ value ++ '\x7d' :: rest
  outside : quotingAfter before = .outside
  plain : '"' ∉ key ∧ '\\' ∉ key
  blank : ∀ c ∈ gap ++ space, PyText.isSpace c = true
  no_json : loads value = none
  parsed : loads (tailFront before key gap space ++ dumps value ++ '\x7d' :: rest) = some (.obj m)
  bound : lookup m (points key) = some (.str (points value))

/-- What a mapping may come from. -/
inductive Repairs (raw : List Char) (m : Mapping) : Prop
  | strict (parsed : loads raw = some (.obj m))
  | commas (text : List Char) (drops : DropsCommas .outside raw text)
      (parsed : loads text = some (.obj m))
  | quoted (before key gap space value rest : List Char)
      (quotes : QuotesTail raw m before key gap space value rest)

variable {text raw key value rest before gap space : List Char} {m : Mapping} {tokens : List Token}
  {state last : LexState} {c : Char} {word : List Char}

theorem tryMapping_eq_some : tryMapping text = some m ↔ loads text = some (.obj m) := by
  unfold tryMapping
  cases loads text with
  | none => simp
  | some found => cases found <;> simp

/-! ## Dropped commas -/

theorem stripCommasFrom_drops (quoting : Quoting) (raw : List Char) :
    DropsCommas quoting raw (stripCommasFrom quoting raw).1 := by
  induction raw generalizing quoting with
  | nil => exact .nil
  | cons c rest ih =>
    rw [stripCommasFrom]
    split
    · rename_i dropped
      rw [dropped.1, dropped.2.1]
      exact .drop (ih .outside)
    · exact .keep (ih (quoteStep quoting c))

/-! ## The matches -/

theorem keyColonAt_spec {behind : List Char} (found : keyColonAt text = some (key, behind)) :
    ∃ gap space, text = tailFront [] key gap space ++ behind ∧ ('"' ∉ key ∧ '\\' ∉ key) ∧
      ∀ c ∈ gap ++ space, PyText.isSpace c = true := by
  cases text with
  | nil => cases found
  | cons first rest =>
    unfold keyColonAt at found
    split at found
    · rename_i more shape
      obtain ⟨rfl, rfl⟩ := List.cons.inj shape
      dsimp only at found
      generalize taken : rest.takeWhile (fun c => c != '"' && c != '\\') = name at found
      have front : rest = name ++ rest.drop name.length := by
        rw [← taken]
        exact (List.prefix_iff_eq_append.mp (List.takeWhile_prefix _)).symm
      have letters : ∀ c ∈ name, c ≠ '"' ∧ c ≠ '\\' := by
        intro c mem
        rw [← taken] at mem
        simpa using List.mem_takeWhile_imp mem
      split at found
      · rename_i tail behind_name
        split at found
        · rename_i after behind_gap
          obtain ⟨rfl, rfl⟩ := Prod.mk.inj (Option.some.inj found)
          refine ⟨tail.takeWhile PyText.isSpace, after.takeWhile PyText.isSpace, ?_, ?_, ?_⟩
          · have gap := @List.takeWhile_append_dropWhile _ PyText.isSpace tail
            have space := @List.takeWhile_append_dropWhile _ PyText.isSpace after
            rw [behind_gap] at gap
            generalize tail.takeWhile PyText.isSpace = gap_text at gap ⊢
            generalize after.takeWhile PyText.isSpace = space_text at space ⊢
            generalize after.dropWhile PyText.isSpace = behind at space ⊢
            rw [front, behind_name, ← gap, ← space]
            simp [tailFront]
          · exact ⟨fun mem => (letters _ mem).1 rfl, fun mem => (letters _ mem).2 rfl⟩
          · intro c mem
            cases List.mem_append.mp mem with
            | inl gap => exact List.mem_takeWhile_imp gap
            | inr space => exact List.mem_takeWhile_imp space
        · cases found
      · cases found
    · cases found

theorem mem_keyColonsFrom {fuel : Nat} {behind : List Char}
    (mem : (key, behind) ∈ keyColonsFrom fuel text) :
    ∃ before gap space, text = tailFront before key gap space ++ behind ∧
      ('"' ∉ key ∧ '\\' ∉ key) ∧ ∀ c ∈ gap ++ space, PyText.isSpace c = true := by
  induction fuel generalizing text with
  | zero => cases mem
  | succ fuel ih =>
    cases text with
    | nil => cases mem
    | cons c rest =>
      rw [keyColonsFrom] at mem
      cases found : keyColonAt (c :: rest) with
      | none =>
        rw [found] at mem
        obtain ⟨before, gap, space, shape, plain, blank⟩ := ih mem
        refine ⟨c :: before, gap, space, ?_, plain, blank⟩
        rw [shape]
        rfl
      | some hit =>
        obtain ⟨first, after⟩ := hit
        rw [found] at mem
        obtain ⟨gap, space, shape, plain, blank⟩ := keyColonAt_spec found
        cases mem with
        | head => exact ⟨[], gap, space, shape, plain, blank⟩
        | tail _ mem =>
          obtain ⟨before, later_gap, later_space, later, plain, blank⟩ := ih mem
          refine ⟨tailFront [] first gap space ++ before, later_gap, later_space, ?_, plain, blank⟩
          rw [shape, later]
          simp [tailFront]

theorem rfind_ne_none {c : Char} (mem : c ∈ text) : rfind c text ≠ none := by
  induction text with
  | nil => cases mem
  | cons d text ih =>
    rw [rfind]
    cases later : rfind c text with
    | some j => simp
    | none =>
      cases mem with
      | head => simp
      | tail _ mem => exact absurd later (ih mem)

theorem rfind_spec {c : Char} {i : Nat} (found : rfind c text = some i) :
    ∃ rest, text.drop i = c :: rest ∧ c ∉ rest := by
  induction text generalizing i with
  | nil => cases found
  | cons d text ih =>
    rw [rfind] at found
    cases later : rfind c text with
    | some j =>
      rw [later] at found
      rw [← Option.some.inj found]
      exact ih later
    | none =>
      rw [later] at found
      dsimp only at found
      by_cases same : d = c
      · rw [if_pos same] at found
        rw [← Option.some.inj found, same]
        exact ⟨text, rfl, fun mem => rfind_ne_none mem later⟩
      · rw [if_neg same] at found
        cases found

/-! ## Quotes and states -/

/-- Where a state of the scanner stands. -/
def quotingOf : LexState → Quoting
  | .outside _ => .outside
  | .inside _ => .inside
  | .escape _ => .escaped
  | .hex _ _ => .inside

theorem hexValue_plain {digit : Nat} (found : hexValue c = some digit) : c ≠ '"' ∧ c ≠ '\\' := by
  constructor <;>
  · intro same
    rw [same] at found
    cases found

theorem lexStep_quoting {next : LexState} (stepped : lexStep state c = some (tokens, next)) :
    quotingOf next = quoteStep (quotingOf state) c := by
  cases state with
  | outside word =>
    by_cases quote : c = '"'
    · rw [quote, lexStep_quote] at stepped
      obtain ⟨found, flushed, shape⟩ := Option.map_eq_some_iff.mp stepped
      rw [← (Prod.mk.inj shape).2, quote]
      rfl
    · unfold quoteStep quotingOf
      rw [if_neg quote]
      cases lexStep_outside quote stepped with
      | inl ended => rw [ended.2]
      | inr grown => rw [grown.2]
  | inside points =>
    unfold lexStep at stepped
    unfold quoteStep
    dsimp only [quotingOf] at stepped ⊢
    by_cases quote : c = '"'
    · rw [if_pos quote] at stepped ⊢
      rw [← (Prod.mk.inj (Option.some.inj stepped)).2]
    · rw [if_neg quote] at stepped ⊢
      by_cases backslash : c = '\\'
      · rw [if_pos backslash] at stepped ⊢
        rw [← (Prod.mk.inj (Option.some.inj stepped)).2]
      · rw [if_neg backslash] at stepped ⊢
        split at stepped
        · cases stepped
        · rw [← (Prod.mk.inj (Option.some.inj stepped)).2]
  | escape points =>
    unfold lexStep at stepped
    dsimp only at stepped
    split at stepped
    · rw [← (Prod.mk.inj (Option.some.inj stepped)).2]
      rfl
    · obtain ⟨found, -, shape⟩ := Option.map_eq_some_iff.mp stepped
      rw [← (Prod.mk.inj shape).2]
      rfl
  | hex points digits =>
    unfold lexStep at stepped
    dsimp only at stepped
    split at stepped
    · cases stepped
    · rename_i digit found
      have plain := hexValue_plain found
      unfold quoteStep
      dsimp only [quotingOf]
      rw [if_neg plain.1, if_neg plain.2]
      split at stepped
      · rw [← (Prod.mk.inj (Option.some.inj stepped)).2]
      · rw [← (Prod.mk.inj (Option.some.inj stepped)).2]

theorem lexRun_quoting (run : lexRun state text = some (tokens, last)) :
    quotingOf last = text.foldl quoteStep (quotingOf state) := by
  induction text generalizing state tokens with
  | nil => rw [← (Prod.mk.inj (Option.some.inj run)).2, List.foldl_nil]
  | cons c text ih =>
    obtain ⟨first, next, later, stepped, rest_run, -⟩ := lexRun_cons run
    rw [ih rest_run, lexStep_quoting stepped, List.foldl_cons]

/-! ## Quoted values -/

/-- A character is written as it is, or behind a backslash. -/
theorem dumpsChar_cases (c : Char) : dumpsChar c = [c] ∧ c ≠ '"' ∧ c ≠ '\\' ∨
    (∃ d, dumpsChar c = ['\\', d] ∧ d ≠ 'u') ∨ (∃ n, dumpsChar c = '\\' :: 'u' :: hexDigits n) ∨
    ∃ n k, dumpsChar c = '\\' :: 'u' :: hexDigits n ++ '\\' :: 'u' :: hexDigits k := by
  unfold dumpsChar
  by_cases quote : c = '"'
  · rw [if_pos quote]
    exact .inr (.inl ⟨_, rfl, by decide⟩)
  rw [if_neg quote]
  by_cases backslash : c = '\\'
  · rw [if_pos backslash]
    exact .inr (.inl ⟨_, rfl, by decide⟩)
  rw [if_neg backslash]
  split
  · exact .inr (.inl ⟨_, rfl, by decide⟩)
  split
  · exact .inr (.inl ⟨_, rfl, by decide⟩)
  split
  · exact .inr (.inl ⟨_, rfl, by decide⟩)
  split
  · exact .inr (.inl ⟨_, rfl, by decide⟩)
  split
  · exact .inr (.inl ⟨_, rfl, by decide⟩)
  split
  · exact .inl ⟨rfl, quote, backslash⟩
  split
  · exact .inr (.inr (.inl ⟨_, rfl⟩))
  · exact .inr (.inr (.inr ⟨_, _, rfl⟩))

/-- Outside strings a quoted text never gets into one. -/
theorem lexRun_dumps_outside {value : List Char}
    (run : lexRun (.outside word) (value.flatMap dumpsChar) = some (tokens, last)) :
    ∃ word, last = .outside word := by
  induction value generalizing word tokens with
  | nil => exact ⟨word, (Prod.mk.inj (Option.some.inj run)).2.symm⟩
  | cons c value ih =>
    rw [List.flatMap_cons] at run
    have escaped : ∀ more, dumpsChar c = '\\' :: more → ∃ word, last = .outside word := by
      intro more shape
      rw [shape, List.cons_append] at run
      obtain ⟨first, next, later, stepped, rest_run, -⟩ := lexRun_cons run
      obtain ⟨rfl, rfl⟩ := Prod.mk.inj (Option.some.inj stepped)
      exact lexRun_stuck (List.mem_append_right _ (List.mem_singleton_self '\\')) (by decide) rest_run
    obtain ⟨plain, quote, backslash⟩ | ⟨d, short, -⟩ | ⟨n, four⟩ | ⟨n, k, pair⟩ := dumpsChar_cases c
    · rw [plain, List.singleton_append] at run
      obtain ⟨first, next, later, stepped, rest_run, -⟩ := lexRun_cons run
      cases lexStep_outside quote stepped with
      | inl ended =>
        rw [ended.2] at rest_run
        exact ih rest_run
      | inr grown =>
        rw [grown.2] at rest_run
        exact ih rest_run
    · exact escaped _ short
    · exact escaped _ four
    · exact escaped _ pair

/-- The digits of an escape lead back into its string. -/
theorem lexRun_hex {points digits : List Nat} {four text : List Char} (some_digit : four ≠ [])
    (count : digits.length + four.length = 4)
    (run : lexRun (.hex points digits) (four ++ text) = some (tokens, last)) :
    ∃ points, lexRun (.inside points) text = some (tokens, last) := by
  induction four generalizing digits tokens with
  | nil => exact absurd rfl some_digit
  | cons c four ih =>
    rw [List.length_cons] at count
    obtain ⟨first, next, later, stepped, rest_run, rfl⟩ := lexRun_cons run
    unfold lexStep at stepped
    dsimp only at stepped
    split at stepped
    · cases stepped
    · rename_i digit _
      by_cases more : digits.length < 3
      · rw [if_pos more] at stepped
        obtain ⟨rfl, rfl⟩ := Prod.mk.inj (Option.some.inj stepped)
        have others : four ≠ [] := by
          intro empty
          rw [empty] at count
          simp at count
          omega
        exact ih others (by rw [List.length_append, List.length_singleton]; omega) rest_run
      · rw [if_neg more] at stepped
        obtain ⟨rfl, rfl⟩ := Prod.mk.inj (Option.some.inj stepped)
        have ended : four = [] := List.eq_nil_of_length_eq_zero (by omega)
        rw [ended] at rest_run
        exact ⟨_, rest_run⟩

/-- A four-digit escape stays in its string. -/
theorem lexRun_four {points : List Nat} {n : Nat} {text : List Char}
    (run : lexRun (.inside points) ('\\' :: 'u' :: (hexDigits n ++ text)) = some (tokens, last)) :
    ∃ points, lexRun (.inside points) text = some (tokens, last) := by
  obtain ⟨_, _, _, stepped, escaped, rfl⟩ := lexRun_cons run
  obtain ⟨rfl, rfl⟩ := Prod.mk.inj (Option.some.inj stepped)
  obtain ⟨_, _, _, stepped, digits, rfl⟩ := lexRun_cons escaped
  obtain ⟨rfl, rfl⟩ := Prod.mk.inj (Option.some.inj stepped)
  exact lexRun_hex (by simp [hexDigits]) rfl digits

/-- In a string a quoted text stays there and emits nothing. -/
theorem lexRun_dumps_inside {points : List Nat} {value : List Char}
    (run : lexRun (.inside points) (value.flatMap dumpsChar) = some (tokens, last)) :
    tokens = [] ∧ ∃ points, last = .inside points := by
  induction value generalizing points with
  | nil =>
    obtain ⟨rfl, rfl⟩ := Prod.mk.inj (Option.some.inj run)
    exact ⟨rfl, points, rfl⟩
  | cons c value ih =>
    rw [List.flatMap_cons] at run
    obtain ⟨plain, quote, backslash⟩ | ⟨d, short, other⟩ | ⟨n, four⟩ | ⟨n, k, pair⟩ :=
      dumpsChar_cases c
    · rw [plain, List.singleton_append] at run
      obtain ⟨first, next, later, stepped, rest_run, rfl⟩ := lexRun_cons run
      obtain ⟨rfl, rfl⟩ := lexStep_inside quote backslash stepped
      exact ih rest_run
    · rw [short] at run
      obtain ⟨_, _, _, stepped, escaped, rfl⟩ := lexRun_cons run
      obtain ⟨rfl, rfl⟩ := Prod.mk.inj (Option.some.inj stepped)
      obtain ⟨first, next, later, stepped, rest_run, rfl⟩ := lexRun_cons escaped
      unfold lexStep at stepped
      dsimp only at stepped
      rw [if_neg other] at stepped
      obtain ⟨point, -, shape⟩ := Option.map_eq_some_iff.mp stepped
      obtain ⟨rfl, rfl⟩ := Prod.mk.inj shape
      exact ih rest_run
    · rw [four] at run
      obtain ⟨later, rest_run⟩ := lexRun_four run
      exact ih rest_run
    · rw [pair] at run
      rw [List.append_assoc] at run
      obtain ⟨middle, half⟩ := lexRun_four run
      obtain ⟨later, rest_run⟩ := lexRun_four half
      exact ih rest_run

/-- A blank is no letter, digit, sign or point. -/
theorem isWordChar_of_isSpace (space : PyText.isSpace c = true) : isWordChar c = false := by
  have other (d : Char) (letter : PyText.isSpace d = false) : c ≠ d := by
    intro same
    rw [same, letter] at space
    cases space
  have letters : c.isAlphanum = false := by
    rw [Bool.eq_false_iff]
    intro char
    unfold PyText.isSpace at space
    unfold Char.isAlphanum Char.isAlpha Char.isUpper Char.isLower Char.isDigit at char
    simp only [Bool.or_eq_true, Bool.and_eq_true, decide_eq_true_eq, beq_iff_eq, ge_iff_le,
      UInt32.le_iff_toNat_le] at space char
    have point : c.toNat = c.val.toNat := rfl
    have bounds : 'A'.val.toNat = 65 ∧ 'Z'.val.toNat = 90 ∧ 'a'.val.toNat = 97 ∧
        'z'.val.toNat = 122 ∧ '0'.val.toNat = 48 ∧ '9'.val.toNat = 57 :=
      ⟨rfl, rfl, rfl, rfl, rfl, rfl⟩
    omega
  unfold isWordChar
  simp [letters, other '+' (by decide), other '-' (by decide), other '.' (by decide)]

theorem isSpace_foreign {text : List Char} (blank : ∀ c ∈ text, PyText.isSpace c = true) :
    Foreign text := by
  intro c mem
  have space := blank c mem
  have other (d : Char) (letter : PyText.isSpace d = false) : c ≠ d := by
    intro same
    rw [same, letter] at space
    cases space
  refine ⟨isWordChar_of_isSpace space, ?_, other '"' (by decide), other '\\' (by decide)⟩
  unfold punctuation
  rw [if_neg (other _ (by decide)), if_neg (other _ (by decide)), if_neg (other _ (by decide)),
    if_neg (other _ (by decide)), if_neg (other _ (by decide)), if_neg (other _ (by decide))]

/-! ## The last member -/

theorem loads_eq_some {value : Value} : loads text = some value ↔
    ∃ tokens word final, lexRun (.outside []) text = some (tokens, .outside word) ∧
      flush word = some final ∧ parseRun (.value .top) (tokens ++ final) = some (.done value) := by
  unfold loads lex
  constructor
  · intro found
    cases run : lexRun (.outside []) text with
    | none =>
      rw [run] at found
      cases found
    | some ended =>
      obtain ⟨tokens, state⟩ := ended
      rw [run] at found
      cases state with
      | outside word =>
        dsimp only at found
        cases flushed : flush word with
        | none =>
          rw [flushed] at found
          cases found
        | some final =>
          rw [flushed, Option.map_some, Option.bind_some] at found
          refine ⟨tokens, word, final, rfl, flushed, ?_⟩
          cases parsed : parseRun (.value .top) (tokens ++ final) with
          | none =>
            rw [parsed] at found
            cases found
          | some state =>
            rw [parsed] at found
            cases state with
            | done value => rw [Option.some.inj found]
            | _ => cases found
      | _ => cases found
  · intro parts
    obtain ⟨tokens, word, final, run, flushed, parsed⟩ := parts
    rw [run]
    dsimp only
    rw [flushed, Option.map_some, Option.bind_some, parsed]

/-- The run behind the last brace, when the text is an object. -/
theorem brace_run {front : List Char} {entries : Mapping} (no_brace : '\x7d' ∉ rest)
    (parsed : loads (front ++ '\x7d' :: rest) = some (.obj entries)) :
    ∃ tokens word emitted behind, lexRun (.outside []) front = some (tokens, .outside word) ∧
      flush word = some emitted ∧ lexRun (.outside []) rest = some ([], .outside behind) ∧
      flush behind = some [] ∧
      parseRun (.value .top) (tokens ++ emitted ++ [.rbrace]) = some (.done (.obj entries)) := by
  obtain ⟨tokens, behind, final, run, flushed, parse⟩ := loads_eq_some.mp parsed
  obtain ⟨first, middle, second, front_run, back_run, rfl⟩ := lexRun_append run
  obtain ⟨brace, next, later, stepped, rest_run, rfl⟩ := lexRun_cons back_run
  obtain ⟨body, shape⟩ := parseRun_obj_last parse
  have later_no := lexRun_no_rbrace no_brace rest_run
  have final_no := flush_no_rbrace flushed
  have last_no : ∀ tokens : List Token, tokens ≠ [] → Token.rbrace ∉ tokens →
      ∀ front, front ++ tokens ≠ body ++ [.rbrace] := by
    intro tokens some_token other front same
    obtain ⟨early, token, rfl⟩ := List.eq_nil_or_concat' tokens |>.resolve_left some_token
    rw [← List.append_assoc] at same
    have token_last := (List.append_inj' same rfl).2
    apply other
    rw [List.mem_append, List.mem_singleton]
    exact .inr (List.cons.inj token_last).1.symm
  have behind_no : Token.rbrace ∉ later ++ final := by
    rw [List.mem_append, not_or]
    exact ⟨later_no, final_no⟩
  have nothing : later ++ final = [] := by
    by_contra some_token
    apply last_no _ some_token behind_no (first ++ brace)
    rw [← shape]
    simp
  obtain ⟨rfl, rfl⟩ := List.append_eq_nil_iff.mp nothing
  by_cases quoted : ∀ word, middle ≠ .outside word
  · cases lexStep_quoted quoted stepped with
    | inl closed => cases closed.1
    | inr goes_on => exact absurd rfl (lexRun_closes goes_on.2 rest_run)
  · rw [not_forall] at quoted
    obtain ⟨word, outside⟩ := quoted
    rw [not_not] at outside
    subst outside
    rw [lexStep_rbrace_outside] at stepped
    obtain ⟨emitted, word_end, shape_brace⟩ := Option.map_eq_some_iff.mp stepped
    obtain ⟨rfl, rfl⟩ := Prod.mk.inj shape_brace
    refine ⟨first, word, emitted, behind, front_run, word_end, rest_run, flushed, ?_⟩
    simpa using parse

theorem not_mem_of_foreign (foreign : Foreign text) : '"' ∉ text ∧ '\\' ∉ text :=
  ⟨fun mem => (foreign _ mem).2.2.1 rfl, fun mem => (foreign _ mem).2.2.2 rfl⟩

/-- A quoted value that ends outside strings is a string of its own, or stands behind a backslash. -/
theorem dumps_run {word : List Char}
    (run : lexRun state (dumps value) = some (tokens, .outside word)) :
    word = [] ∧ ((∃ front emitted points, state = .outside front ∧ flush front = some emitted ∧
      tokens = emitted ++ [.str points]) ∨ ∃ points, state = .escape points) := by
  unfold dumps at run
  rw [List.cons_append] at run
  obtain ⟨opening, next, later, stepped, inner_run, rfl⟩ := lexRun_cons run
  obtain ⟨inner, middle, closing, value_run, last_run, rfl⟩ := lexRun_append inner_run
  obtain ⟨quote, final, nothing, closed, end_run, rfl⟩ := lexRun_cons last_run
  obtain ⟨rfl, rfl⟩ := Prod.mk.inj (Option.some.inj end_run)
  have inside : ∃ points, middle = .inside points ∧ quote = [.str points] ∧ word = [] := by
    obtain ⟨_, -, -, shape⟩ | ⟨points, held, emitted, shape⟩ | ⟨_, -, -, shape⟩ :=
      lexStep_quote_cases closed
    · cases shape
    · exact ⟨points, held, emitted, LexState.outside.inj shape⟩
    · cases shape
  obtain ⟨points, held, rfl, rfl⟩ := inside
  subst held
  refine ⟨rfl, ?_⟩
  obtain ⟨front, outside, flushed, shape⟩ | ⟨_, -, -, shape⟩ | ⟨points, escape, -, -⟩ :=
    lexStep_quote_cases stepped
  · rw [shape] at value_run
    rw [(lexRun_dumps_inside value_run).1]
    exact .inl ⟨front, opening, points, outside, flushed, by simp⟩
  · rw [shape] at value_run
    obtain ⟨word, outside⟩ := lexRun_dumps_outside value_run
    cases outside
  · exact .inr ⟨points, escape⟩

/-- The text up to the value: a key, whose literal begins outside strings or has an escaped quote. -/
theorem tailFront_run (plain : '"' ∉ key ∧ '\\' ∉ key)
    (blank : ∀ c ∈ gap ++ space, PyText.isSpace c = true)
    (run : lexRun (.outside []) (tailFront before key gap space) = some (tokens, last))
    (open_tail : ∀ points, last ≠ .inside points) :
    (∃ word, last = .outside word ∧ Foreign word) ∧ ∃ pre name,
      tokens = pre ++ [.str name, .colon] ∧ (quotingAfter before = .outside ∨ 34 ∈ name) := by
  unfold tailFront at run
  obtain ⟨early, held, rest_tokens, before_run, rest_run, rfl⟩ := lexRun_append run
  obtain ⟨opening, opened, key_tokens, stepped, key_run, rfl⟩ := lexRun_cons rest_run
  obtain ⟨inner, named, close_tokens, name_run, close_run, rfl⟩ := lexRun_append key_run
  obtain ⟨closing, closed, gap_tokens, close_step, gap_run, rfl⟩ := lexRun_cons close_run
  have foreign_gap : Foreign gap :=
    isSpace_foreign fun c mem => blank c (List.mem_append_left _ mem)
  have foreign_space : Foreign space :=
    isSpace_foreign fun c mem => blank c (List.mem_append_right _ mem)
  -- the quote behind the key closes a string: otherwise the value would stand in one
  have stays : ∀ points, closed ≠ .inside points := by
    intro points inside
    rw [inside] at gap_run
    have quote : '"' ∉ gap ++ ':' :: space := by
      simp [(not_mem_of_foreign foreign_gap).1, (not_mem_of_foreign foreign_space).1]
    have backslash : '\\' ∉ gap ++ ':' :: space := by
      simp [(not_mem_of_foreign foreign_gap).2, (not_mem_of_foreign foreign_space).2]
    exact open_tail _ (lexRun_inside quote backslash gap_run).2
  have literal : ∃ name, named = .inside name ∧ closing = [.str name] ∧ closed = .outside [] := by
    obtain ⟨_, -, -, shape⟩ | ⟨name, held, emitted, shape⟩ | ⟨_, -, -, shape⟩ :=
      lexStep_quote_cases close_step
    · exact absurd shape (stays _)
    · exact ⟨name, held, emitted, shape⟩
    · exact absurd shape (stays _)
  obtain ⟨name, rfl, rfl, rfl⟩ := literal
  -- between key and value there is only the colon
  obtain ⟨blanks, behind_gap, colon_tokens, blank_run, colon_run, rfl⟩ := lexRun_append gap_run
  obtain ⟨rfl, word, rfl, foreign⟩ := lexRun_foreign (by simp [Foreign]) foreign_gap blank_run
  obtain ⟨colon, after_colon, space_tokens, colon_step, space_run, rfl⟩ := lexRun_cons colon_run
  have colon_shape : lexStep (.outside word) ':' =
      (flush word).map fun tokens => (tokens ++ [.colon], .outside []) := rfl
  rw [colon_shape] at colon_step
  obtain ⟨emitted, flushed, shape⟩ := Option.map_eq_some_iff.mp colon_step
  obtain ⟨rfl, rfl⟩ := Prod.mk.inj shape
  obtain ⟨rfl, tail_word, rfl, tail_foreign⟩ :=
    lexRun_foreign (by simp [Foreign]) foreign_space space_run
  refine ⟨⟨tail_word, rfl, tail_foreign⟩, early ++ opening ++ inner, name, ?_, ?_⟩
  · rw [(flush_of_foreign foreign flushed).2]
    simp
  · obtain ⟨front, outside, -, -⟩ | ⟨_, -, -, shape⟩ | ⟨points, -, -, shape⟩ :=
      lexStep_quote_cases stepped
    · left
      have quoting := lexRun_quoting before_run
      rw [outside] at quoting
      exact quoting.symm
    · rw [shape] at name_run
      obtain ⟨word, outside⟩ := lexRun_outside plain.1 name_run
      cases outside
    · right
      rw [shape] at name_run
      rw [LexState.inside.inj (lexRun_inside plain.1 plain.2 name_run).2]
      simp

/-- How the machine reads a text whose last member is quoted. -/
theorem quoted_run (plain : '"' ∉ key ∧ '\\' ∉ key)
    (blank : ∀ c ∈ gap ++ space, PyText.isSpace c = true) (no_brace : '\x7d' ∉ rest)
    (parsed : loads (tailFront before key gap space ++ dumps value ++ '\x7d' :: rest) =
      some (.obj m)) :
    ∃ pre name earlier points behind, (quotingAfter before = .outside ∨ 34 ∈ name) ∧
      lexRun (.outside []) (tailFront before key gap space) =
        some (pre ++ [.str name, .colon], .outside []) ∧
      parseRun (.value .top) (pre ++ [.str name, .colon]) =
        some (.value (.member earlier name .top)) ∧
      m = put earlier name (.str points) ∧
      lexRun (.outside []) rest = some ([], .outside behind) ∧ flush behind = some [] := by
  obtain ⟨tokens, word, emitted, behind, run, flushed, rest_run, ended, parse⟩ :=
    brace_run no_brace parsed
  obtain ⟨front_tokens, middle, value_tokens, front_run, value_run, rfl⟩ := lexRun_append run
  obtain ⟨rfl, found⟩ := dumps_run value_run
  have open_tail : ∀ points, middle ≠ .inside points := by
    intro points inside
    obtain ⟨front, -, -, outside, -⟩ | ⟨escaped, escape⟩ := found
    · rw [inside] at outside
      cases outside
    · rw [inside] at escape
      cases escape
  obtain ⟨⟨tail_word, rfl, foreign⟩, pre, name, rfl, outside⟩ :=
    tailFront_run plain blank front_run open_tail
  obtain ⟨front, start, points, same, flushed_front, rfl⟩ | ⟨points, escape⟩ := found
  · rw [← LexState.outside.inj same] at flushed_front
    obtain ⟨rfl, rfl⟩ := flush_of_foreign foreign flushed_front
    have none_emitted : emitted = [] := by
      cases flush_cases flushed with
      | inl empty => exact empty.2
      | inr scalar => cases scalar.1
    have shape : pre ++ [.str name, .colon] ++ ([] ++ [.str points]) ++ emitted ++ [.rbrace] =
        pre ++ [.str name, .colon, .str points, .rbrace] := by
      rw [none_emitted]
      simp
    rw [shape, parseRun_append] at parse
    obtain ⟨first, pre_run, member_run⟩ := Option.bind_eq_some_iff.mp parse
    obtain ⟨earlier, key_run, same_entries⟩ := parseRun_last_member member_run
    refine ⟨pre, name, earlier, points, behind, outside, front_run, ?_, same_entries, rest_run,
      ended⟩
    rw [parseRun_append, pre_run]
    exact key_run
  · cases escape

/-! ## The tail is no JSON -/

/-- Outside strings only blanks emit nothing to the end. -/
theorem lexRun_silent {word : List Char}
    (run : lexRun (.outside word) text = some ([], .outside [])) :
    word = [] ∧ ∀ c ∈ text, isBlank c = true := by
  induction text generalizing word with
  | nil =>
    have same := LexState.outside.inj (Prod.mk.inj (Option.some.inj run)).2
    exact ⟨same, by simp⟩
  | cons c text ih =>
    obtain ⟨first, next, later, stepped, rest_run, shape⟩ := lexRun_cons run
    obtain ⟨rfl, rfl⟩ := List.append_eq_nil_iff.mp shape.symm
    by_cases quote : c = '"'
    · rw [quote, lexStep_quote] at stepped
      obtain ⟨found, -, shape⟩ := Option.map_eq_some_iff.mp stepped
      rw [← (Prod.mk.inj shape).2] at rest_run
      exact absurd rfl (lexRun_closes (by simp) rest_run)
    · unfold lexStep at stepped
      dsimp only at stepped
      rw [if_neg quote] at stepped
      split at stepped
      · rename_i blank
        obtain ⟨found, flushed, shape⟩ := Option.map_eq_some_iff.mp stepped
        obtain ⟨rfl, rfl⟩ := Prod.mk.inj shape
        have empty : word = [] := by
          cases flush_cases flushed with
          | inl empty => exact empty.1
          | inr scalar => cases scalar.2
        refine ⟨empty, ?_⟩
        intro d mem
        cases mem with
        | head => exact blank
        | tail _ mem => exact (ih rest_run).2 d mem
      · split at stepped
        · obtain ⟨found, -, shape⟩ := Option.map_eq_some_iff.mp stepped
          simp at shape
        · obtain ⟨-, rfl⟩ := Prod.mk.inj (Option.some.inj stepped)
          have grown := (ih rest_run).1
          simp at grown

/-- The first bare word of a text, and what is behind it. -/
theorem lexRun_word {word behind : List Char} {final : List Token} (some_char : word ≠ [])
    (run : lexRun (.outside word) text = some (tokens, .outside behind))
    (ended : flush behind = some final) :
    ∃ more tail others, text = more ++ tail ∧ isScalar (word ++ more) = true ∧
      tokens ++ final = .scalar (word ++ more) :: others ∧
      (others = [] → ∀ c ∈ tail, isBlank c = true) := by
  induction text generalizing word tokens with
  | nil =>
    obtain ⟨rfl, same⟩ := Prod.mk.inj (Option.some.inj run)
    rw [← LexState.outside.inj same] at ended
    cases flush_cases ended with
    | inl empty => exact absurd empty.1 some_char
    | inr scalar => exact ⟨[], [], [], rfl, by simpa using scalar.1, by simp [scalar.2], by simp⟩
  | cons c text ih =>
    obtain ⟨first, next, later, stepped, rest_run, rfl⟩ := lexRun_cons run
    have scalar_of : ∀ found, flush word = some found →
        isScalar word = true ∧ found = [.scalar word] := by
      intro found flushed
      cases flush_cases flushed with
      | inl empty => exact absurd empty.1 some_char
      | inr scalar => exact scalar
    by_cases quote : c = '"'
    · rw [quote, lexStep_quote] at stepped
      obtain ⟨found, flushed, shape⟩ := Option.map_eq_some_iff.mp stepped
      obtain ⟨rfl, rfl⟩ := Prod.mk.inj shape
      obtain ⟨scalar, rfl⟩ := scalar_of found flushed
      refine ⟨[], c :: text, later ++ final, rfl, by simpa using scalar, by simp, ?_⟩
      intro nothing
      exact absurd (List.append_eq_nil_iff.mp nothing).1 (lexRun_closes (by simp) rest_run)
    · unfold lexStep at stepped
      dsimp only at stepped
      rw [if_neg quote] at stepped
      split at stepped
      · rename_i blank
        obtain ⟨found, flushed, shape⟩ := Option.map_eq_some_iff.mp stepped
        obtain ⟨rfl, rfl⟩ := Prod.mk.inj shape
        obtain ⟨scalar, rfl⟩ := scalar_of found flushed
        refine ⟨[], c :: text, later ++ final, rfl, by simpa using scalar, by simp, ?_⟩
        intro nothing
        obtain ⟨rfl, rfl⟩ := List.append_eq_nil_iff.mp nothing
        have no_word : behind = [] := by
          cases flush_cases ended with
          | inl empty => exact empty.1
          | inr scalar => cases scalar.2
        rw [no_word] at rest_run
        intro d mem
        cases mem with
        | head => exact blank
        | tail _ mem => exact (lexRun_silent rest_run).2 d mem
      · split at stepped
        · rename_i token mark
          obtain ⟨found, flushed, shape⟩ := Option.map_eq_some_iff.mp stepped
          obtain ⟨rfl, rfl⟩ := Prod.mk.inj shape
          obtain ⟨scalar, rfl⟩ := scalar_of found flushed
          refine ⟨[], c :: text, token :: (later ++ final), rfl, by simpa using scalar, by simp, ?_⟩
          intro nothing
          cases nothing
        · obtain ⟨rfl, rfl⟩ := Prod.mk.inj (Option.some.inj stepped)
          obtain ⟨more, tail, others, rfl, scalar, shape, silent⟩ := ih (by simp) rest_run
          refine ⟨c :: more, tail, others, rfl, by simpa using scalar, by simpa using shape, silent⟩

/-- A text without blanks around it neither begins nor ends with one. -/
theorem ends_of_stripped (stripped : PyText.stripChars PyText.isSpace value = value) :
    (∀ rest, value ≠ c :: rest ∨ PyText.isSpace c = false) ∧
      ∀ front, value ≠ front ++ [c] ∨ PyText.isSpace c = false := by
  have short (p : Char → Bool) (text : List Char) :
      (text.dropWhile p).length ≤ text.length := (List.dropWhile_suffix p).length_le
  have lengths := congrArg List.length stripped
  unfold PyText.stripChars at lengths
  rw [List.length_reverse] at lengths
  constructor
  · intro rest
    by_contra both
    rw [not_or, not_not, Bool.not_eq_false] at both
    rw [both.1, List.dropWhile_cons_of_pos both.2] at lengths
    have outer := short PyText.isSpace (rest.dropWhile PyText.isSpace).reverse
    have inner := short PyText.isSpace rest
    rw [List.length_reverse] at outer
    rw [List.length_cons] at lengths
    omega
  · intro front
    by_contra both
    rw [not_or, not_not, Bool.not_eq_false] at both
    rw [both.1] at lengths
    have inner := short PyText.isSpace (front ++ [c])
    obtain ⟨dropped, split⟩ := @List.dropWhile_suffix _ (front ++ [c]) PyText.isSpace
    obtain empty | ⟨early, last, shape⟩ :=
      List.eq_nil_or_concat' ((front ++ [c]).dropWhile PyText.isSpace)
    · rw [empty] at lengths
      simp at lengths
    · rw [shape, ← List.append_assoc] at split
      have same : last = c := (List.cons.inj (List.append_inj' split rfl).2).1
      rw [shape, same, List.reverse_append, List.reverse_singleton, List.singleton_append,
        List.dropWhile_cons_of_pos both.2] at lengths
      rw [shape] at inner
      have outer := short PyText.isSpace early.reverse
      simp only [List.length_append, List.length_reverse, List.length_singleton] at *
      omega

theorem isSpace_of_isBlank (blank : isBlank c = true) : PyText.isSpace c = true := by
  unfold isBlank at blank
  simp only [Bool.or_eq_true, beq_iff_eq] at blank
  obtain ((rfl | rfl) | rfl) | rfl := blank
  · decide
  · decide
  · decide
  · decide

theorem mem_jsonTokenStart_of_isDigit (digit : c.isDigit = true) : c ∈ jsonTokenStart := by
  have bounds : 48 ≤ c.toNat ∧ c.toNat ≤ 57 := Char.isDigit_iff_toNat.mp digit
  have digits : ∀ i : Fin 10, Char.ofNat (48 + i) ∈ jsonTokenStart := by decide
  have found := digits ⟨c.toNat - 48, by omega⟩
  rwa [show 48 + (c.toNat - 48) = c.toNat by omega, Char.ofNat_toNat] at found

/-- Where a value must come, other punctuation than an opening bracket stops. -/
theorem no_value_of_punctuation {token : Token} {others : List Token}
    (mark : punctuation c = some token) (start : c ∉ jsonTokenStart) :
    parseRun (.value .top) (token :: others) = none := by
  have brace : c ≠ '\x7b' := fun same => start (by rw [same]; decide)
  have bracket : c ≠ '[' := fun same => start (by rw [same]; decide)
  unfold punctuation at mark
  rw [if_neg brace] at mark
  split at mark
  · rw [← Option.some.inj mark]
    rfl
  · repeat' split at mark
    all_goals first
      | (rw [← Option.some.inj mark]; rfl)
      | cases mark

/-- The one JSON value that starts like none. -/
theorem loads_bare {found : Value} (start : ∀ c ∈ value.head?, c ∉ jsonTokenStart)
    (stripped : PyText.stripChars PyText.isSpace value = value)
    (parsed : loads value = some found) : value = "Infinity".toList := by
  obtain ⟨tokens, behind, final, run, flushed, parse⟩ := loads_eq_some.mp parsed
  cases value with
  | nil => cases parsed
  | cons c rest =>
    have first := start c rfl
    have no_space : PyText.isSpace c = false :=
      ((ends_of_stripped stripped).1 rest).resolve_left (fun other => other rfl)
    have no_blank : isBlank c = false :=
      Bool.eq_false_iff.mpr fun blank => by simp [isSpace_of_isBlank blank] at no_space
    have no_quote : c ≠ '"' := fun same => first (by rw [same]; decide)
    obtain ⟨emitted, next, later, stepped, rest_run, rfl⟩ := lexRun_cons run
    unfold lexStep at stepped
    dsimp only at stepped
    rw [if_neg no_quote, no_blank, if_neg Bool.false_ne_true] at stepped
    split at stepped
    · rename_i token mark
      obtain ⟨rfl, -⟩ := Prod.mk.inj (Option.some.inj stepped)
      rw [List.nil_append, List.singleton_append, List.cons_append,
        no_value_of_punctuation mark first] at parse
      cases parse
    · obtain ⟨rfl, rfl⟩ := Prod.mk.inj (Option.some.inj stepped)
      rw [List.nil_append] at parse rest_run
      obtain ⟨more, tail, others, rfl, scalar, shape, silent⟩ :=
        lexRun_word (List.cons_ne_nil _ _) rest_run flushed
      rw [shape] at parse
      have ended : others = [] := by
        cases others with
        | nil => rfl
        | cons token others => cases parse
      have no_tail : tail = [] := by
        obtain empty | ⟨early, d, rfl⟩ := List.eq_nil_or_concat' tail
        · exact empty
        · have blank := silent ended d (by simp)
          have ends := (@ends_of_stripped _ d stripped).2 (c :: (more ++ early))
          rw [isSpace_of_isBlank blank] at ends
          simp at ends
      rw [no_tail, List.append_nil]
      obtain letter | digit | infinity := isScalar_head scalar
      · have signs : "-tfnN".toList.all (jsonTokenStart.contains ·) = true := by decide
        exact absurd (by simpa using List.all_eq_true.mp signs c letter) first
      · exact absurd (mem_jsonTokenStart_of_isDigit digit) first
      · exact infinity

/-- That value in the place of its quoted text gives a mapping as well. -/
theorem loads_infinity (plain : '"' ∉ key ∧ '\\' ∉ key)
    (blank : ∀ c ∈ gap ++ space, PyText.isSpace c = true) (no_brace : '\x7d' ∉ rest)
    (parsed : loads (tailFront before key gap space ++ dumps value ++ '\x7d' :: rest) =
      some (.obj m)) :
    ∃ entries, loads (tailFront before key gap space ++ "Infinity".toList ++ '\x7d' :: rest) =
      some (.obj entries) := by
  obtain ⟨pre, name, earlier, points, behind, -, front_run, key_run, -, rest_run, ended⟩ :=
    quoted_run plain blank no_brace parsed
  have word_run : lexRun (.outside []) ("Infinity".toList ++ ['\x7d']) =
      some ([.scalar "Infinity".toList, .rbrace], .outside []) := rfl
  refine ⟨put earlier name (.scalar "Infinity".toList), loads_eq_some.mpr ?_⟩
  have run := lexRun_append_of front_run (lexRun_append_of word_run rest_run)
  refine ⟨pre ++ [.str name, .colon] ++ [.scalar "Infinity".toList, .rbrace], behind, [], ?_, ended,
    ?_⟩
  · rw [List.append_nil] at run
    rw [← run]
    simp
  · rw [List.append_nil, parseRun_append, key_run, Option.bind_some, parseRun_scalar_member]

/-! ## Soundness -/

theorem mem_points {text : List Char} {c : Char} : c.toNat ∈ points text ↔ c ∈ text := by
  unfold points
  rw [List.mem_map]
  constructor
  · intro held
    obtain ⟨d, mem, same⟩ := held
    rwa [← Char.toNat_inj.mp same]
  · exact fun mem => ⟨c, mem, rfl⟩

theorem commas_sound (repaired : (stripTrailingCommas raw).bind tryMapping = some m) :
    Repairs raw m := by
  obtain ⟨text, stripped, parsed⟩ := Option.bind_eq_some_iff.mp repaired
  unfold stripTrailingCommas at stripped
  dsimp only at stripped
  split at stripped
  · rw [← Option.some.inj stripped] at parsed
    exact .commas _ (stripCommasFrom_drops .outside raw) (tryMapping_eq_some.mp parsed)
  · cases stripped

/-- The front, the value behind it and the rest make up the text. -/
theorem split_text {front behind : List Char} {close : Nat} (shape : raw = front ++ behind)
    (later : raw.length - behind.length < close) :
    raw.take (raw.length - behind.length) = front ∧
      raw = front ++ (raw.take close).drop (raw.length - behind.length) ++ raw.drop close := by
  have start : raw.length - behind.length = front.length := by
    rw [shape, List.length_append]
    omega
  rw [start] at later ⊢
  have taken : raw.take front.length = front := by
    rw [shape, List.take_left]
  refine ⟨taken, ?_⟩
  have kept : (raw.take close).take front.length = front := by
    rw [List.take_take, Nat.min_eq_left (by omega), taken]
  have cut : front ++ (raw.take close).drop front.length = raw.take close := by
    have whole := List.take_append_drop front.length (raw.take close)
    rwa [kept] at whole
  rw [cut, List.take_append_drop]

theorem boundTo_spec (bound : boundTo m key value = true) :
    lookup m (points key) = some (.str (points value)) := by
  unfold boundTo at bound
  cases held : lookup m (points key) with
  | none =>
    rw [held] at bound
    cases bound
  | some found =>
    rw [held] at bound
    cases found with
    | str found => rw [eq_of_beq bound]
    | _ => cases bound

/-- What the quoted text is read as has the value at the key, and no other keys than the matches. -/
theorem checks_pass {parsed : Mapping}
    (repaired : (if (!boundTo parsed key value) = true then none
      else if ((parsed.map (·.1)).all (((keyColons raw).map fun found => points found.1).contains ·) &&
          ((keyColons raw).map fun found => points found.1).all
            ((parsed.map (·.1)).contains ·)) = true then some parsed
      else none) = some m) :
    lookup m (points key) = some (.str (points value)) ∧
      (∀ name ∈ m.map (·.1), name ∈ (keyColons raw).map fun found => points found.1) ∧
      parsed = m := by
  split at repaired
  · cases repaired
  rename_i bound
  split at repaired
  · rename_i keys
    obtain rfl := Option.some.inj repaired
    rw [Bool.and_eq_true] at keys
    refine ⟨?_, ?_, rfl⟩
    · rw [Bool.not_eq_true, Bool.not_eq_false'] at bound
      exact boundTo_spec bound
    · intro name mem
      simpa using List.all_eq_true.mp keys.1 name mem
  · cases repaired

/-- The checks that a quoted tail passes. -/
theorem quoteUnquotedTail_eq_some (repaired : quoteUnquotedTail raw = some m) :
    ∃ before key gap space value rest, raw = tailFront before key gap space ++ value ++ '\x7d' :: rest ∧
      ('"' ∉ key ∧ '\\' ∉ key) ∧ (∀ c ∈ gap ++ space, PyText.isSpace c = true) ∧ '\x7d' ∉ rest ∧
      (∀ c ∈ value.head?, c ∉ jsonTokenStart) ∧ PyText.stripChars PyText.isSpace value = value ∧
      loads (tailFront before key gap space ++ dumps value ++ '\x7d' :: rest) = some (.obj m) ∧
      lookup m (points key) = some (.str (points value)) ∧
      ∀ name ∈ m.map (·.1), 34 ∉ name := by
  unfold quoteUnquotedTail at repaired
  split at repaired
  · cases repaired
  · cases repaired
  rename_i close _ found
  split at repaired
  · cases repaired
  rename_i key behind last
  obtain ⟨before, gap, space, shape, plain, blank⟩ := mem_keyColonsFrom (List.mem_of_getLast? last)
  obtain ⟨rest, closing, no_brace⟩ := rfind_spec found
  dsimp only at repaired
  split at repaired
  · cases repaired
  rename_i later
  obtain ⟨taken, parts⟩ := split_text shape (Nat.lt_of_not_le later)
  rw [taken, closing] at repaired
  rw [closing] at parts
  generalize (raw.take close).drop (raw.length - behind.length) = value at repaired parts
  split at repaired
  · cases repaired
  rename_i guard
  rw [Bool.or_eq_true, not_or, Bool.not_eq_true, Bool.not_eq_true, bne_eq_false_iff_eq] at guard
  split at repaired
  · cases repaired
  split at repaired
  · cases repaired
  rename_i parsed read
  obtain ⟨bound, covered, rfl⟩ := checks_pass repaired
  refine ⟨before, key, gap, space, value, rest, parts, plain, blank, no_brace, ?_, guard.2,
    tryMapping_eq_some.mp read, bound, ?_⟩
  · intro c head
    have start := guard.1
    rw [head] at start
    simpa using start
  · intro name mem quote
    obtain ⟨other, other_mem, rfl⟩ := List.mem_map.mp (covered name mem)
    obtain ⟨_, _, _, -, other_plain, -⟩ := mem_keyColonsFrom other_mem
    exact other_plain.1 (mem_points.mp quote)

theorem tail_sound (malformed : tryMapping raw = none) (repaired : quoteUnquotedTail raw = some m) :
    Repairs raw m := by
  obtain ⟨before, key, gap, space, value, rest, rfl, plain, blank, no_brace, start, stripped, parsed,
    bound, letters⟩ := quoteUnquotedTail_eq_some repaired
  obtain ⟨-, name, earlier, points, -, outside, -, -, same, -, -⟩ :=
    quoted_run plain blank no_brace parsed
  refine .quoted before key gap space value rest ⟨rfl, ?_, plain, blank, ?_, parsed, bound⟩
  · apply outside.resolve_right
    apply letters
    rw [same]
    exact key_mem_put
  · cases read : loads value with
    | none => rfl
    | some found =>
      obtain ⟨entries, other⟩ := loads_infinity plain blank no_brace parsed
      rw [loads_bare start stripped read] at malformed
      rw [tryMapping_eq_some.mpr other] at malformed
      cases malformed

/-- A repair changes the syntax of the text only. -/
theorem repair_sound (raw : List Char) (m : Mapping) (repaired : repairToolArgs raw = some m) :
    Repairs raw m := by
  unfold repairToolArgs at repaired
  split at repaired
  · cases repaired
  cases strict : tryMapping raw with
  | some parsed =>
    rw [strict] at repaired
    rw [Option.some.inj repaired] at strict
    exact .strict (tryMapping_eq_some.mp strict)
  | none =>
    rw [strict] at repaired
    dsimp only at repaired
    cases commas : (stripTrailingCommas raw).bind tryMapping with
    | some parsed =>
      rw [commas] at repaired
      rw [Option.some.inj repaired] at commas
      exact commas_sound commas
    | none =>
      rw [commas] at repaired
      exact tail_sound strict repaired

theorem repair_sound_tail :
    Repairs "\x7b\"c\": cd x\x7d".toList [("c".toList.map Char.toNat, .str (points "cd x".toList))] :=
  repair_sound _ _ rfl

end SherryAgent.Guarantees.SyntaxRepair
