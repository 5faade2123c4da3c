import Mathlib.Data.List.Basic

/-!
# Strict JSON

The values that a JSON text is read as, in two passes: a scanner that turns characters into tokens,
and a machine that puts tokens together. A bare word is what stands between blanks, quotes and
punctuation; it counts when it is a literal or a number. An object keeps the last value of a key at
the place of its first. Nothing here names the agent.
-/

namespace SherryAgent.Library.StrictJson

/-! ## Values and tokens -/

/-- A literal or a number by its text, a string by its code points. -/
inductive Value where
  | scalar (word : List Char)
  | str (points : List Nat)
  | arr (items : List Value)
  | obj (entries : List (List Nat × Value))

inductive Token where
  | lbrace
  | rbrace
  | lbracket
  | rbracket
  | comma
  | colon
  | str (points : List Nat)
  | scalar (word : List Char)

def isBlank (c : Char) : Bool := c == ' ' || c == '\t' || c == '\n' || c == '\r'

def punctuation (c : Char) : Option Token :=
  if c = '\x7b' then some .lbrace
  else if c = '\x7d' then some .rbrace
  else if c = '[' then some .lbracket
  else if c = ']' then some .rbracket
  else if c = ',' then some .comma
  else if c = ':' then some .colon
  else none

/-! ## Bare words -/

/-- The rest of a word behind its integer part. -/
def afterInt : List Char → Option (List Char)
  | [] => none
  | c :: rest =>
    if c = '0' then some rest
    else if c.isDigit then some (rest.dropWhile Char.isDigit)
    else none

/-- The rest behind a fraction, if there is one. -/
def afterFraction : List Char → List Char
  | '.' :: c :: rest => if c.isDigit then rest.dropWhile Char.isDigit else '.' :: c :: rest
  | word => word

/-- The rest behind an exponent, if there is one. -/
def afterExponent : List Char → List Char
  | [] => []
  | e :: rest =>
    if e = 'e' ∨ e = 'E' then
      let digits := if rest.head? = some '+' ∨ rest.head? = some '-' then rest.drop 1 else rest
      if digits.head?.any Char.isDigit then digits.dropWhile Char.isDigit else e :: rest
    else e :: rest

/-- How many digits an integer may have. -/
def maxIntDigits : Nat := 4300

/-- A number without its sign. -/
def isUnsigned (word : List Char) : Bool :=
  match afterInt word with
  | none => false
  | some [] => decide (word.length ≤ maxIntDigits)
  | some rest => (afterExponent (afterFraction rest)).isEmpty

def literals : List (List Char) :=
  ["true".toList, "false".toList, "null".toList, "NaN".toList, "Infinity".toList,
    "-Infinity".toList]

/-- A literal or a number. -/
def isScalar (word : List Char) : Bool :=
  literals.contains word ||
    (if word.head? = some '-' then isUnsigned (word.drop 1) else isUnsigned word)

/-! ## The scanner -/

/-- Outside strings with the bare word so far, or in a string with the code points so far: between
characters, behind a backslash, or in a four-digit escape. -/
inductive LexState where
  | outside (word : List Char)
  | inside (points : List Nat)
  | escape (points : List Nat)
  | hex (points digits : List Nat)

/-- The token of a bare word that ends. -/
def flush (word : List Char) : Option (List Token) :=
  if word = [] then some []
  else if isScalar word then some [.scalar word]
  else none

/-- The character of a short escape. -/
def unescape (c : Char) : Option Nat :=
  if c = '"' ∨ c = '\\' ∨ c = '/' then some c.toNat
  else if c = 'b' then some 8
  else if c = 'f' then some 12
  else if c = 'n' then some 10
  else if c = 'r' then some 13
  else if c = 't' then some 9
  else none

def hexValue (c : Char) : Option Nat :=
  if c.isDigit then some (c.toNat - '0'.toNat)
  else if 'a' ≤ c ∧ c ≤ 'f' then some (c.toNat - 'a'.toNat + 10)
  else if 'A' ≤ c ∧ c ≤ 'F' then some (c.toNat - 'A'.toNat + 10)
  else none

/-- A code point behind the others: a high surrogate takes a low one up. -/
def pushPoint (points : List Nat) (point : Nat) : List Nat :=
  match points.getLast? with
  | some high =>
    if 0xD800 ≤ high ∧ high < 0xDC00 ∧ 0xDC00 ≤ point ∧ point < 0xE000 then
      points.dropLast ++ [0x10000 + (high - 0xD800) * 0x400 + (point - 0xDC00)]
    else points ++ [point]
  | none => [point]

/-- One character: the tokens that it completes, and the state behind it. -/
def lexStep : LexState → Char → Option (List Token × LexState)
  | .outside word, c =>
    if c = '"' then (flush word).map fun tokens => (tokens, .inside [])
    else if isBlank c then (flush word).map fun tokens => (tokens, .outside [])
    else
      match punctuation c with
      | some token => (flush word).map fun tokens => (tokens ++ [token], .outside [])
      | none => some ([], .outside (word ++ [c]))
  | .inside points, c =>
    if c = '"' then some ([.str points], .outside [])
    else if c = '\\' then some ([], .escape points)
    else if c.toNat < 0x20 then none
    else some ([], .inside (points ++ [c.toNat]))
  | .escape points, c =>
    if c = 'u' then some ([], .hex points [])
    else (unescape c).map fun point => ([], .inside (points ++ [point]))
  | .hex points digits, c =>
    match hexValue c with
    | none => none
    | some digit =>
      if digits.length < 3 then some ([], .hex points (digits ++ [digit]))
      else some ([], .inside (pushPoint points ((digits ++ [digit]).foldl (16 * · + ·) 0)))

def lexRun (state : LexState) : List Char → Option (List Token × LexState)
  | [] => some ([], state)
  | c :: rest =>
    match lexStep state c with
    | none => none
    | some (tokens, next) => (lexRun next rest).map fun found => (tokens ++ found.1, found.2)

/-- The tokens of a text. -/
def lex (text : List Char) : Option (List Token) :=
  match lexRun (.outside []) text with
  | some (tokens, .outside word) => (flush word).map fun last => tokens ++ last
  | _ => none

/-! ## The machine -/

/-- Where a value stands. -/
inductive Place where
  | top
  | item (before : List Value) (outer : Place)
  | member (before : List (List Nat × Value)) (key : List Nat) (outer : Place)

/-- What may come next. -/
inductive ParseState where
  | value (place : Place)
  | firstItem (outer : Place)
  | firstKey (outer : Place)
  | nextKey (before : List (List Nat × Value)) (outer : Place)
  | colon (before : List (List Nat × Value)) (key : List Nat) (outer : Place)
  | afterItem (before : List Value) (outer : Place)
  | afterMember (before : List (List Nat × Value)) (outer : Place)
  | done (value : Value)

/-- The entry of a key, in its old place if there is one. -/
def put (entries : List (List Nat × Value)) (key : List Nat) (value : Value) :
    List (List Nat × Value) :=
  if entries.any (·.1 == key) then
    entries.map fun entry => if entry.1 == key then (key, value) else entry
  else entries ++ [(key, value)]

def complete : Place → Value → ParseState
  | .top, value => .done value
  | .item before outer, value => .afterItem (before ++ [value]) outer
  | .member before key outer, value => .afterMember (put before key value) outer

/-- A token where a value must come. -/
def startValue (place : Place) : Token → Option ParseState
  | .str points => some (complete place (.str points))
  | .scalar word => some (complete place (.scalar word))
  | .lbracket => some (.firstItem place)
  | .lbrace => some (.firstKey place)
  | _ => none

def parseStep : ParseState → Token → Option ParseState
  | .value place, token => startValue place token
  | .firstItem outer, .rbracket => some (complete outer (.arr []))
  | .firstItem outer, token => startValue (.item [] outer) token
  | .firstKey outer, .rbrace => some (complete outer (.obj []))
  | .firstKey outer, .str key => some (.colon [] key outer)
  | .nextKey before outer, .str key => some (.colon before key outer)
  | .colon before key outer, .colon => some (.value (.member before key outer))
  | .afterItem before outer, .comma => some (.value (.item before outer))
  | .afterItem before outer, .rbracket => some (complete outer (.arr before))
  | .afterMember before outer, .comma => some (.nextKey before outer)
  | .afterMember before outer, .rbrace => some (complete outer (.obj before))
  | _, _ => none

def parseRun (state : ParseState) : List Token → Option ParseState
  | [] => some state
  | token :: rest => (parseStep state token).bind fun next => parseRun next rest

/-- `json.loads`: the value of a text. -/
def loads (text : List Char) : Option Value :=
  match (lex text).bind (parseRun (.value .top)) with
  | some (.done value) => some value
  | _ => none

/-- `value.get(key)`. -/
def lookup (entries : List (List Nat × Value)) (key : List Nat) : Option Value :=
  (entries.find? fun entry => entry.1 == key).map (·.2)

/-! ## The characters of bare words -/

/-- Letters, digits, signs and the point. -/
def isWordChar (c : Char) : Bool := c.isAlphanum || c == '+' || c == '-' || c == '.'

theorem isWordChar_of_isDigit {c : Char} (digit : c.isDigit = true) : isWordChar c = true := by
  unfold isWordChar Char.isAlphanum
  simp [digit]

theorem mem_dropWhile_or {p : Char → Bool} {c : Char} {word : List Char} (mem : c ∈ word) :
    p c = true ∨ c ∈ word.dropWhile p := by
  induction word with
  | nil => cases mem
  | cons d word ih =>
    by_cases pass : p d = true
    · rw [List.dropWhile_cons_of_pos pass]
      cases mem with
      | head => exact .inl pass
      | tail _ mem => exact ih mem
    · rw [List.dropWhile_cons_of_neg pass]
      exact .inr mem

theorem afterInt_chars {word rest : List Char} (found : afterInt word = some rest) {c : Char}
    (mem : c ∈ word) : isWordChar c = true ∨ c ∈ rest := by
  cases word with
  | nil => cases mem
  | cons d word =>
    rw [afterInt] at found
    split at found
    · rename_i zero
      rw [Option.some.injEq] at found
      subst found
      cases mem with
      | head => exact .inl (by rw [zero]; decide)
      | tail _ mem => exact .inr mem
    · split at found
      · rename_i digit
        rw [Option.some.injEq] at found
        subst found
        cases mem with
        | head => exact .inl (isWordChar_of_isDigit digit)
        | tail _ mem => exact (mem_dropWhile_or mem).imp_left isWordChar_of_isDigit
      · cases found

theorem afterFraction_chars {word : List Char} {c : Char} (mem : c ∈ word) :
    isWordChar c = true ∨ c ∈ afterFraction word := by
  unfold afterFraction
  split
  · rename_i d rest
    split
    · rename_i digit
      cases mem with
      | head => exact .inl (by decide)
      | tail _ mem =>
        cases mem with
        | head => exact .inl (isWordChar_of_isDigit digit)
        | tail _ mem => exact (mem_dropWhile_or mem).imp_left isWordChar_of_isDigit
    · exact .inr mem
  · exact .inr mem

theorem afterExponent_chars {word : List Char} (none_left : afterExponent word = []) {c : Char}
    (mem : c ∈ word) : isWordChar c = true := by
  cases word with
  | nil => cases mem
  | cons e rest =>
    rw [afterExponent] at none_left
    split at none_left
    · rename_i exponent
      dsimp only at none_left
      have signs : rest.head? = some '+' ∨ rest.head? = some '-' → ∀ d ∈ rest,
          isWordChar d = true ∨ d ∈ rest.drop 1 := by
        intro sign d inside
        cases rest with
        | nil => cases inside
        | cons first rest =>
          cases inside with
          | head =>
            left
            simp only [List.head?_cons, Option.some.injEq] at sign
            cases sign with
            | inl plus => rw [plus]; decide
            | inr minus => rw [minus]; decide
          | tail _ inside => exact .inr inside
      generalize digits_eq : (if rest.head? = some '+' ∨ rest.head? = some '-' then rest.drop 1
        else rest) = digits at none_left
      split at none_left
      · cases mem with
        | head =>
          cases exponent with
          | inl lower => rw [lower]; decide
          | inr upper => rw [upper]; decide
        | tail _ mem =>
          have inside : isWordChar c = true ∨ c ∈ digits := by
            rw [← digits_eq]
            split
            · rename_i sign
              exact signs sign c mem
            · exact .inr mem
          cases inside with
          | inl char => exact char
          | inr digit =>
            cases mem_dropWhile_or digit with
            | inl pass => exact isWordChar_of_isDigit pass
            | inr left_over =>
              rw [none_left] at left_over
              cases left_over
      · cases none_left
    · cases none_left

theorem isUnsigned_chars {word : List Char} (unsigned : isUnsigned word = true) {c : Char}
    (mem : c ∈ word) : isWordChar c = true := by
  unfold isUnsigned at unsigned
  cases found : afterInt word with
  | none =>
    rw [found] at unsigned
    cases unsigned
  | some rest =>
    rw [found] at unsigned
    cases afterInt_chars found mem with
    | inl char => exact char
    | inr behind =>
      cases rest with
      | nil => cases behind
      | cons d rest =>
        have none_left := List.isEmpty_iff.mp unsigned
        cases afterFraction_chars behind with
        | inl char => exact char
        | inr left_over => exact afterExponent_chars none_left left_over

theorem literals_chars : literals.all (·.all isWordChar) = true := by decide

theorem isScalar_chars {word : List Char} (scalar : isScalar word = true) {c : Char}
    (mem : c ∈ word) : isWordChar c = true := by
  unfold isScalar at scalar
  rw [Bool.or_eq_true] at scalar
  cases scalar with
  | inl literal =>
    have all := List.all_eq_true.mp literals_chars word (by simpa using literal)
    exact List.all_eq_true.mp all c mem
  | inr number =>
    split at number
    · rename_i sign
      cases word with
      | nil => cases mem
      | cons d rest =>
        cases mem with
        | head =>
          have minus : c = '-' := by simpa using sign
          rw [minus]
          decide
        | tail _ mem => exact isUnsigned_chars number mem
    · exact isUnsigned_chars number mem

/-- How a bare word may begin. -/
theorem isScalar_head {c : Char} {rest : List Char} (scalar : isScalar (c :: rest) = true) :
    c ∈ "-tfnN".toList ∨ c.isDigit = true ∨ c :: rest = "Infinity".toList := by
  unfold isScalar at scalar
  rw [Bool.or_eq_true] at scalar
  cases scalar with
  | inl literal =>
    have mem : c :: rest ∈ literals := by simpa using literal
    have heads : literals.all (fun word => word == "Infinity".toList ||
        word.head?.any ("-tfnN".toList.contains ·)) = true := by decide
    have found := List.all_eq_true.mp heads _ mem
    rw [Bool.or_eq_true, beq_iff_eq] at found
    cases found with
    | inl infinity => exact .inr (.inr infinity)
    | inr first => exact .inl (by simpa using first)
  | inr number =>
    split at number
    · rename_i sign
      have minus : c = '-' := by simpa using sign
      exact .inl (by rw [minus]; decide)
    · right
      left
      by_cases zero : c = '0'
      · rw [zero]
        decide
      · by_contra other
        have stuck : afterInt (c :: rest) = none := by
          rw [afterInt, if_neg zero, if_neg other]
        unfold isUnsigned at number
        rw [stuck] at number
        cases number

/-! ## Runs -/

theorem lexRun_append {state last : LexState} {front back : List Char} {tokens : List Token}
    (run : lexRun state (front ++ back) = some (tokens, last)) :
    ∃ first middle second, lexRun state front = some (first, middle) ∧
      lexRun middle back = some (second, last) ∧ tokens = first ++ second := by
  induction front generalizing state tokens with
  | nil => exact ⟨[], state, tokens, rfl, run, rfl⟩
  | cons c front ih =>
    rw [List.cons_append, lexRun] at run
    rw [lexRun]
    cases stepped : lexStep state c with
    | none =>
      rw [stepped] at run
      cases run
    | some found =>
      obtain ⟨emitted, next⟩ := found
      rw [stepped] at run
      dsimp only at run
      obtain ⟨later, rest_run, shape⟩ := Option.map_eq_some_iff.mp run
      obtain ⟨rest, final⟩ := later
      obtain ⟨rfl, rfl⟩ := Prod.mk.inj shape
      obtain ⟨first, middle, second, front_run, back_run, rfl⟩ := ih rest_run
      refine ⟨emitted ++ first, middle, second, ?_, back_run, by rw [List.append_assoc]⟩
      dsimp only
      rw [front_run]
      rfl

theorem lexRun_append_of {state middle last : LexState} {front back : List Char}
    {first second : List Token} (front_run : lexRun state front = some (first, middle))
    (back_run : lexRun middle back = some (second, last)) :
    lexRun state (front ++ back) = some (first ++ second, last) := by
  induction front generalizing state first with
  | nil =>
    obtain ⟨rfl, rfl⟩ := Prod.mk.inj (Option.some.inj front_run)
    exact back_run
  | cons c front ih =>
    rw [lexRun] at front_run
    rw [List.cons_append, lexRun]
    cases stepped : lexStep state c with
    | none =>
      rw [stepped] at front_run
      cases front_run
    | some found =>
      obtain ⟨emitted, next⟩ := found
      rw [stepped] at front_run
      dsimp only at front_run
      obtain ⟨later, rest_run, shape⟩ := Option.map_eq_some_iff.mp front_run
      obtain ⟨rest, final⟩ := later
      obtain ⟨rfl, rfl⟩ := Prod.mk.inj shape
      dsimp only
      rw [ih rest_run]
      simp

theorem parseRun_append (state : ParseState) (front back : List Token) :
    parseRun state (front ++ back) = (parseRun state front).bind (parseRun · back) := by
  induction front generalizing state with
  | nil => rfl
  | cons token front ih =>
    rw [List.cons_append, parseRun, parseRun, Option.bind_assoc]
    congr 1
    funext next
    exact ih next

/-! ## Steps of the scanner -/

variable {state next : LexState} {word points digits : List Nat} {text : List Char}
  {tokens : List Token} {c : Char}

theorem flush_cases {word : List Char} (flushed : flush word = some tokens) :
    word = [] ∧ tokens = [] ∨ isScalar word = true ∧ tokens = [.scalar word] := by
  unfold flush at flushed
  split at flushed
  · rename_i empty
    exact .inl ⟨empty, (Option.some.inj flushed).symm⟩
  · split at flushed
    · rename_i scalar
      exact .inr ⟨scalar, (Option.some.inj flushed).symm⟩
    · cases flushed

/-- A word with a character that no word has never ends. -/
theorem flush_foreign {word : List Char} (mem : c ∈ word) (foreign : isWordChar c = false) :
    flush word = none := by
  cases flushed : flush word with
  | none => rfl
  | some tokens =>
    cases flush_cases flushed with
    | inl empty =>
      rw [empty.1] at mem
      cases mem
    | inr scalar =>
      rw [isScalar_chars scalar.1 mem] at foreign
      cases foreign

theorem lexStep_quote {word : List Char} :
    lexStep (.outside word) '"' = (flush word).map fun tokens => (tokens, .inside []) := by
  unfold lexStep
  rfl

/-- Outside strings only a quote leads into one. -/
theorem lexStep_outside {word : List Char} (other : c ≠ '"')
    (stepped : lexStep (.outside word) c = some (tokens, next)) :
    (flush word).isSome = true ∧ next = .outside [] ∨ tokens = [] ∧ next = .outside (word ++ [c]) := by
  unfold lexStep at stepped
  dsimp only at stepped
  rw [if_neg other] at stepped
  split at stepped
  · obtain ⟨found, flushed, shape⟩ := Option.map_eq_some_iff.mp stepped
    exact .inl ⟨by rw [flushed]; rfl, (Prod.mk.inj shape).2.symm⟩
  · split at stepped
    · obtain ⟨found, flushed, shape⟩ := Option.map_eq_some_iff.mp stepped
      exact .inl ⟨by rw [flushed]; rfl, (Prod.mk.inj shape).2.symm⟩
    · obtain ⟨rfl, rfl⟩ := Prod.mk.inj (Option.some.inj stepped)
      exact .inr ⟨rfl, rfl⟩

/-- Inside strings a plain character stays. -/
theorem lexStep_inside (quote : c ≠ '"') (backslash : c ≠ '\\')
    (stepped : lexStep (.inside points) c = some (tokens, next)) :
    tokens = [] ∧ next = .inside (points ++ [c.toNat]) := by
  unfold lexStep at stepped
  dsimp only at stepped
  rw [if_neg quote, if_neg backslash] at stepped
  split at stepped
  · cases stepped
  · obtain ⟨rfl, rfl⟩ := Prod.mk.inj (Option.some.inj stepped)
    exact ⟨rfl, rfl⟩

/-- A step of a run. -/
theorem lexRun_cons {last : LexState} (run : lexRun state (c :: text) = some (tokens, last)) :
    ∃ first next later, lexStep state c = some (first, next) ∧
      lexRun next text = some (later, last) ∧ tokens = first ++ later := by
  rw [lexRun] at run
  cases stepped : lexStep state c with
  | none =>
    rw [stepped] at run
    cases run
  | some found =>
    obtain ⟨first, next⟩ := found
    rw [stepped] at run
    dsimp only at run
    obtain ⟨later, rest_run, shape⟩ := Option.map_eq_some_iff.mp run
    obtain ⟨rfl, rfl⟩ := Prod.mk.inj shape
    exact ⟨first, next, later.1, rfl, rest_run, rfl⟩

/-- Without quotes a run that is outside stays outside. -/
theorem lexRun_outside {word : List Char} {last : LexState} (plain : '"' ∉ text)
    (run : lexRun (.outside word) text = some (tokens, last)) : ∃ word, last = .outside word := by
  induction text generalizing word tokens with
  | nil => exact ⟨word, (Prod.mk.inj (Option.some.inj run)).2.symm⟩
  | cons c text ih =>
    rw [List.mem_cons, not_or] at plain
    obtain ⟨first, next, later, stepped, rest_run, -⟩ := lexRun_cons run
    cases lexStep_outside (Ne.symm plain.1) stepped with
    | inl ended =>
      rw [ended.2] at rest_run
      exact ih plain.2 rest_run
    | inr grown =>
      rw [grown.2] at rest_run
      exact ih plain.2 rest_run

/-- A run whose word has a foreign character stays in the word. -/
theorem lexRun_stuck {word : List Char} {last : LexState} {d : Char} (mem : d ∈ word)
    (foreign : isWordChar d = false) (run : lexRun (.outside word) text = some (tokens, last)) :
    ∃ word, last = .outside word := by
  induction text generalizing word tokens with
  | nil => exact ⟨word, (Prod.mk.inj (Option.some.inj run)).2.symm⟩
  | cons c text ih =>
    have stuck := flush_foreign mem foreign
    obtain ⟨first, next, later, stepped, rest_run, -⟩ := lexRun_cons run
    by_cases quote : c = '"'
    · rw [quote, lexStep_quote, stuck] at stepped
      cases stepped
    · cases lexStep_outside quote stepped with
      | inl ended =>
        rw [stuck] at ended
        cases ended.1
      | inr grown =>
        rw [grown.2] at rest_run
        exact ih (List.mem_append_left _ mem) rest_run

/-- Without quotes and backslashes a run that is inside collects the characters. -/
theorem lexRun_inside {last : LexState} (quote : '"' ∉ text) (backslash : '\\' ∉ text)
    (run : lexRun (.inside points) text = some (tokens, last)) :
    tokens = [] ∧ last = .inside (points ++ text.map Char.toNat) := by
  induction text generalizing points tokens with
  | nil =>
    obtain ⟨rfl, rfl⟩ := Prod.mk.inj (Option.some.inj run)
    simp
  | cons c text ih =>
    rw [List.mem_cons, not_or] at quote backslash
    obtain ⟨first, next, later, stepped, rest_run, rfl⟩ := lexRun_cons run
    obtain ⟨rfl, rfl⟩ := lexStep_inside (Ne.symm quote.1) (Ne.symm backslash.1) stepped
    obtain ⟨rfl, rfl⟩ := ih quote.2 backslash.2 rest_run
    simp

/-! ## Closing braces -/

theorem flush_no_rbrace {word : List Char} (flushed : flush word = some tokens) :
    Token.rbrace ∉ tokens := by
  cases flush_cases flushed with
  | inl empty => simp [empty.2]
  | inr scalar => simp [scalar.2]

theorem lexStep_no_rbrace (other : c ≠ '\x7d') (stepped : lexStep state c = some (tokens, next)) :
    Token.rbrace ∉ tokens := by
  cases state with
  | outside word =>
    unfold lexStep at stepped
    dsimp only at stepped
    split at stepped
    · obtain ⟨found, flushed, shape⟩ := Option.map_eq_some_iff.mp stepped
      rw [← (Prod.mk.inj shape).1]
      exact flush_no_rbrace flushed
    · split at stepped
      · obtain ⟨found, flushed, shape⟩ := Option.map_eq_some_iff.mp stepped
        rw [← (Prod.mk.inj shape).1]
        exact flush_no_rbrace flushed
      · split at stepped
        · rename_i token mark
          obtain ⟨found, flushed, shape⟩ := Option.map_eq_some_iff.mp stepped
          rw [← (Prod.mk.inj shape).1, List.mem_append, not_or, List.mem_singleton]
          refine ⟨flush_no_rbrace flushed, ?_⟩
          intro same
          rw [← same] at mark
          unfold punctuation at mark
          rw [if_neg other] at mark
          repeat' split at mark
          all_goals cases mark
        · rw [← (Prod.mk.inj (Option.some.inj stepped)).1]
          exact List.not_mem_nil
  | inside points =>
    unfold lexStep at stepped
    dsimp only at stepped
    repeat' split at stepped
    all_goals first
      | cases stepped; done
      | (rw [← (Prod.mk.inj (Option.some.inj stepped)).1]; simp)
  | escape points =>
    unfold lexStep at stepped
    dsimp only at stepped
    split at stepped
    · rw [← (Prod.mk.inj (Option.some.inj stepped)).1]
      exact List.not_mem_nil
    · obtain ⟨found, -, shape⟩ := Option.map_eq_some_iff.mp stepped
      rw [← (Prod.mk.inj shape).1]
      exact List.not_mem_nil
  | hex points digits =>
    unfold lexStep at stepped
    dsimp only at stepped
    split at stepped
    · cases stepped
    · split at stepped
      · rw [← (Prod.mk.inj (Option.some.inj stepped)).1]
        exact List.not_mem_nil
      · rw [← (Prod.mk.inj (Option.some.inj stepped)).1]
        exact List.not_mem_nil

theorem lexRun_no_rbrace {last : LexState} (other : '\x7d' ∉ text)
    (run : lexRun state text = some (tokens, last)) : Token.rbrace ∉ tokens := by
  induction text generalizing state tokens with
  | nil =>
    rw [← (Prod.mk.inj (Option.some.inj run)).1]
    exact List.not_mem_nil
  | cons c text ih =>
    rw [List.mem_cons, not_or] at other
    obtain ⟨first, next, later, stepped, rest_run, rfl⟩ := lexRun_cons run
    rw [List.mem_append, not_or]
    exact ⟨lexStep_no_rbrace (Ne.symm other.1) stepped, ih other.2 rest_run⟩

theorem lexStep_rbrace_outside {word : List Char} :
    lexStep (.outside word) '\x7d' = (flush word).map fun tokens => (tokens ++ [.rbrace], .outside []) :=
  rfl

/-- A state in a string emits nothing while it stays there. -/
theorem lexStep_quoted (quoted : ∀ word, state ≠ .outside word)
    (stepped : lexStep state c = some (tokens, next)) :
    c = '"' ∧ tokens ≠ [] ∨ tokens = [] ∧ ∀ word, next ≠ .outside word := by
  cases state with
  | outside word => exact absurd rfl (quoted word)
  | inside points =>
    unfold lexStep at stepped
    dsimp only at stepped
    split at stepped
    · rename_i quote
      obtain ⟨rfl, rfl⟩ := Prod.mk.inj (Option.some.inj stepped)
      exact .inl ⟨quote, List.cons_ne_nil _ _⟩
    · split at stepped
      · obtain ⟨rfl, rfl⟩ := Prod.mk.inj (Option.some.inj stepped)
        exact .inr ⟨rfl, by simp⟩
      · split at stepped
        · cases stepped
        · obtain ⟨rfl, rfl⟩ := Prod.mk.inj (Option.some.inj stepped)
          exact .inr ⟨rfl, by simp⟩
  | escape points =>
    unfold lexStep at stepped
    dsimp only at stepped
    split at stepped
    · obtain ⟨rfl, rfl⟩ := Prod.mk.inj (Option.some.inj stepped)
      exact .inr ⟨rfl, by simp⟩
    · obtain ⟨found, -, shape⟩ := Option.map_eq_some_iff.mp stepped
      obtain ⟨rfl, rfl⟩ := Prod.mk.inj shape
      exact .inr ⟨rfl, by simp⟩
  | hex points digits =>
    unfold lexStep at stepped
    dsimp only at stepped
    split at stepped
    · cases stepped
    · split at stepped
      · obtain ⟨rfl, rfl⟩ := Prod.mk.inj (Option.some.inj stepped)
        exact .inr ⟨rfl, by simp⟩
      · obtain ⟨rfl, rfl⟩ := Prod.mk.inj (Option.some.inj stepped)
        exact .inr ⟨rfl, by simp⟩

/-- A string that ends emits a token. -/
theorem lexRun_closes {word : List Char} (quoted : ∀ word, state ≠ .outside word)
    (run : lexRun state text = some (tokens, .outside word)) : tokens ≠ [] := by
  induction text generalizing state tokens with
  | nil => exact absurd (Prod.mk.inj (Option.some.inj run)).2 (quoted word)
  | cons c text ih =>
    obtain ⟨first, next, later, stepped, rest_run, rfl⟩ := lexRun_cons run
    intro empty
    obtain ⟨none_first, none_later⟩ := List.append_eq_nil_iff.mp empty
    cases lexStep_quoted quoted stepped with
    | inl closed => exact closed.2 none_first
    | inr goes_on => exact ih goes_on.2 rest_run none_later

/-- What a quote does. -/
theorem lexStep_quote_cases (stepped : lexStep state '"' = some (tokens, next)) :
    (∃ word, state = .outside word ∧ flush word = some tokens ∧ next = .inside []) ∨
    (∃ points, state = .inside points ∧ tokens = [.str points] ∧ next = .outside []) ∨
    (∃ points, state = .escape points ∧ tokens = [] ∧ next = .inside (points ++ [34])) := by
  cases state with
  | outside word =>
    rw [lexStep_quote] at stepped
    obtain ⟨found, flushed, shape⟩ := Option.map_eq_some_iff.mp stepped
    obtain ⟨rfl, rfl⟩ := Prod.mk.inj shape
    exact .inl ⟨word, rfl, flushed, rfl⟩
  | inside points =>
    obtain ⟨rfl, rfl⟩ := Prod.mk.inj (Option.some.inj stepped)
    exact .inr (.inl ⟨points, rfl, rfl, rfl⟩)
  | escape points =>
    obtain ⟨rfl, rfl⟩ := Prod.mk.inj (Option.some.inj stepped)
    exact .inr (.inr ⟨points, rfl, rfl, rfl⟩)
  | hex points digits => cases stepped

/-- Characters that belong to no token. -/
def Foreign (text : List Char) : Prop :=
  ∀ c ∈ text, isWordChar c = false ∧ punctuation c = none ∧ c ≠ '"' ∧ c ≠ '\\'

theorem flush_of_foreign {word : List Char} (foreign : Foreign word)
    (flushed : flush word = some tokens) : word = [] ∧ tokens = [] := by
  cases flush_cases flushed with
  | inl empty => exact empty
  | inr scalar =>
    cases word with
    | nil => cases scalar.1
    | cons c word =>
      have plain := (foreign c List.mem_cons_self).1
      rw [isScalar_chars scalar.1 List.mem_cons_self] at plain
      cases plain

theorem lexRun_foreign {word : List Char} {last : LexState} (before : Foreign word)
    (foreign : Foreign text) (run : lexRun (.outside word) text = some (tokens, last)) :
    tokens = [] ∧ ∃ word, last = .outside word ∧ Foreign word := by
  induction text generalizing word tokens with
  | nil =>
    obtain ⟨rfl, rfl⟩ := Prod.mk.inj (Option.some.inj run)
    exact ⟨rfl, word, rfl, before⟩
  | cons c text ih =>
    obtain ⟨first, next, later, stepped, rest_run, rfl⟩ := lexRun_cons run
    have plain := foreign c List.mem_cons_self
    have others : Foreign text := fun d mem => foreign d (List.mem_cons_of_mem _ mem)
    unfold lexStep at stepped
    dsimp only at stepped
    rw [if_neg plain.2.2.1, plain.2.1] at stepped
    split at stepped
    · obtain ⟨found, flushed, shape⟩ := Option.map_eq_some_iff.mp stepped
      obtain ⟨rfl, rfl⟩ := Prod.mk.inj shape
      rw [(flush_of_foreign before flushed).2, List.nil_append]
      exact ih (by simp [Foreign]) others rest_run
    · obtain ⟨rfl, rfl⟩ := Prod.mk.inj (Option.some.inj stepped)
      rw [List.nil_append]
      apply ih _ others rest_run
      intro d mem
      cases List.mem_append.mp mem with
      | inl held => exact before d held
      | inr fresh =>
        rw [List.mem_singleton.mp fresh]
        exact plain

/-! ## Steps of the machine -/

variable {before : List (List Nat × Value)} {entries : List (List Nat × Value)} {key : List Nat}
  {value : Value} {place : Place} {first : ParseState} {token : Token}

theorem complete_done {found : Value} (ended : complete place value = .done found) :
    place = .top ∧ value = found := by
  cases place with
  | top => exact ⟨rfl, ParseState.done.inj ended⟩
  | item before outer => cases ended
  | member before key outer => cases ended

theorem startValue_obj : startValue place token ≠ some (.done (.obj entries)) := by
  intro ended
  cases token with
  | str points => cases (complete_done (Option.some.inj ended)).2
  | scalar word => cases (complete_done (Option.some.inj ended)).2
  | _ => cases ended

theorem parseStep_firstItem {outer : Place} (other : token ≠ .rbracket) :
    parseStep (.firstItem outer) token = startValue (.item [] outer) token := by
  cases token with
  | rbracket => exact absurd rfl other
  | _ => rfl

/-- Only a closing brace ends with an object. -/
theorem parseStep_obj (stepped : parseStep first token = some (.done (.obj entries))) :
    token = .rbrace := by
  cases first with
  | value place => exact absurd stepped startValue_obj
  | firstItem outer =>
    by_cases closed : token = .rbracket
    · rw [closed] at stepped
      cases (complete_done (Option.some.inj stepped)).2
    · rw [parseStep_firstItem closed] at stepped
      exact absurd stepped startValue_obj
  | afterItem before outer =>
    cases token with
    | rbracket => cases (complete_done (Option.some.inj stepped)).2
    | _ => cases stepped
  | _ =>
    cases token with
    | rbrace => rfl
    | _ => cases stepped

/-- The last member of an object, from its key on. -/
theorem parseRun_last_member {points : List Nat}
    (run : parseRun first [.str key, .colon, .str points, .rbrace] = some (.done (.obj entries))) :
    ∃ before, parseRun first [.str key, .colon] = some (.value (.member before key .top)) ∧
      entries = put before key (.str points) := by
  have keyed : ∀ next, parseStep first (.str key) = some next →
      parseRun next [.colon, .str points, .rbrace] = some (.done (.obj entries)) →
      ∃ before, next = .colon before key .top ∧ entries = put before key (.str points) := by
    intro next stepped rest_run
    have opens : ∀ before outer, next = .colon before key outer →
        ∃ before, next = .colon before key .top ∧ entries = put before key (.str points) := by
      intro before outer shape
      rw [shape] at rest_run
      have last : complete outer (.obj (put before key (.str points))) = .done (.obj entries) :=
        Option.some.inj rest_run
      obtain ⟨top, same⟩ := complete_done last
      rw [top] at shape
      exact ⟨before, shape, (Value.obj.inj same).symm⟩
    cases first with
    | firstKey outer => exact opens [] outer (Option.some.inj stepped).symm
    | nextKey before outer => exact opens before outer (Option.some.inj stepped).symm
    | value place =>
      rw [← Option.some.inj stepped] at rest_run
      cases place <;> cases rest_run
    | firstItem outer =>
      rw [← Option.some.inj stepped] at rest_run
      cases rest_run
    | _ => cases stepped
  rw [parseRun] at run ⊢
  obtain ⟨next, stepped, rest_run⟩ := Option.bind_eq_some_iff.mp run
  obtain ⟨before, shape, same⟩ := keyed next stepped rest_run
  rw [stepped, shape]
  exact ⟨before, rfl, same⟩

/-- The same member with a bare word. -/
theorem parseRun_scalar_member (word : List Char) :
    parseRun (.value (.member before key .top)) [.scalar word, .rbrace] =
      some (.done (.obj (put before key (.scalar word)))) := rfl

theorem key_mem_put : key ∈ (put before key value).map (·.1) := by
  unfold put
  split
  · rename_i held
    obtain ⟨entry, mem, same⟩ := List.any_eq_true.mp held
    rw [List.map_map]
    refine List.mem_map.mpr ⟨entry, mem, ?_⟩
    dsimp only [Function.comp]
    rw [if_pos same]
  · simp

theorem parseRun_concat (state : ParseState) (tokens : List Token) (token : Token) :
    parseRun state (tokens ++ [token]) = (parseRun state tokens).bind (parseStep · token) := by
  rw [parseRun_append]
  congr 1
  funext next
  simp [parseRun]

/-- The tokens of an object end with its brace. -/
theorem parseRun_obj_last (run : parseRun (.value .top) tokens = some (.done (.obj entries))) :
    ∃ front, tokens = front ++ [.rbrace] := by
  cases List.eq_nil_or_concat' tokens with
  | inl empty =>
    rw [empty] at run
    cases run
  | inr shape =>
    obtain ⟨front, token, rfl⟩ := shape
    rw [parseRun_concat] at run
    obtain ⟨middle, -, stepped⟩ := Option.bind_eq_some_iff.mp run
    rw [parseStep_obj stepped]
    exact ⟨front, rfl⟩

end SherryAgent.Library.StrictJson
