import SherryAgent.Contracts.TextMatcher

/-!
# Runs of blanks and their positions

`_map_whitespace_positions` walks through the content and its collapsed form together. In
a run of blanks, the tabs up to the first space share the position of the one blank that
is left; what follows the first space shares the position of the next character.

* `origToNorm_eq` — the map, by the run the walk is in;
* `exists_tail` — how the positions of a text end.
-/

namespace SherryAgent.Contracts.BlankRuns

open SherryAgent.Source.TextMatcher

variable {text x y z r : Text} {b : Bool} {c : Char} {n k : Nat}

/-! ## The collapsed text -/

/-- Whether a blank precedes what follows the text. -/
def endsBlank : Bool → Text → Bool
  | b, [] => b
  | _, c :: rest => endsBlank (isBlank c) rest

/-- No run of blanks goes on from one text to the other. -/
def Cut (x y : Text) : Prop := endsBlank false x = false ∨ ∀ c ∈ y.head?, isBlank c = false

theorem collapseFrom_nonblank (plain : isBlank c = false) (b : Bool) (text : Text) :
    collapseFrom b (c :: text) = c :: collapse text := by
  simp [collapseFrom, collapse, plain]

theorem collapseFrom_blank (blank : isBlank c = true) (b : Bool) (text : Text) :
    collapseFrom b (c :: text) = (if b then [] else [' ']) ++ collapseFrom true text := by
  simp [collapseFrom, blank]

theorem collapseFrom_append (b : Bool) (x y : Text) :
    collapseFrom b (x ++ y) = collapseFrom b x ++ collapseFrom (endsBlank b x) y := by
  induction x generalizing b with
  | nil => rfl
  | cons c rest ih =>
    cases blank : isBlank c with
    | true => simp [collapseFrom, endsBlank, blank, ih]
    | false => simp [collapseFrom, endsBlank, blank, ih]

/-- Where a text begins with no blank, it does not matter what precedes it. -/
theorem collapseFrom_head (plain : ∀ c ∈ y.head?, isBlank c = false) (b : Bool) :
    collapseFrom b y = collapse y := by
  cases y with
  | nil => rfl
  | cons c rest =>
    have nonblank := plain c rfl
    rw [collapseFrom_nonblank nonblank]
    exact (collapseFrom_nonblank nonblank false rest).symm

theorem collapse_append (cut : Cut x y) : collapse (x ++ y) = collapse x ++ collapse y := by
  rw [collapse, collapseFrom_append]
  rcases cut with ended | plain
  · rw [ended]
    rfl
  · rw [collapseFrom_head plain]
    rfl

theorem collapse_ne_nil (some_char : text ≠ []) : collapse text ≠ [] := by
  cases text with
  | nil => exact absurd rfl some_char
  | cons c rest =>
    cases blank : isBlank c with
    | true => simp [collapse, collapseFrom, blank]
    | false => simp [collapse, collapseFrom, blank]

theorem endsBlank_append (b : Bool) (x y : Text) :
    endsBlank b (x ++ y) = endsBlank (endsBlank b x) y := by
  induction x generalizing b with
  | nil => rfl
  | cons c rest ih => exact ih (isBlank c)

theorem endsBlank_run (blanks : ∀ c ∈ r, isBlank c = true) (some_blank : r ≠ []) (b : Bool) :
    endsBlank b r = true := by
  induction r generalizing b with
  | nil => exact absurd rfl some_blank
  | cons c rest ih =>
    rw [endsBlank, blanks c List.mem_cons_self]
    by_cases last : rest = []
    · rw [last]
      rfl
    · exact ih (fun d member => blanks d (List.mem_cons_of_mem _ member)) last true

/-- A run of blanks leaves one blank. -/
theorem collapse_run (blanks : ∀ c ∈ r, isBlank c = true) (some_blank : r ≠ []) :
    collapse r = [' '] := by
  have nothing : ∀ rest : Text, (∀ c ∈ rest, isBlank c = true) → collapseFrom true rest = [] := by
    intro rest all_blank
    induction rest with
    | nil => rfl
    | cons d more ih =>
      rw [collapseFrom_blank (all_blank d List.mem_cons_self), if_pos rfl, List.nil_append]
      exact ih fun e member => all_blank e (List.mem_cons_of_mem _ member)
  cases r with
  | nil => exact absurd rfl some_blank
  | cons c rest =>
    rw [collapse, collapseFrom_blank (blanks c List.mem_cons_self),
      nothing rest fun d member => blanks d (List.mem_cons_of_mem _ member)]
    rfl

/-- Every position of the collapsed text is one between two runs of the text. -/
theorem exists_cut (b : Bool) (text : Text) (k : Nat) (fits : k ≤ (collapseFrom b text).length) :
    ∃ x y, text = x ++ y ∧ (collapseFrom b x).length = k ∧
      (endsBlank b x = false ∨ ∀ c ∈ y.head?, isBlank c = false) := by
  induction text generalizing b k with
  | nil =>
    obtain rfl : k = 0 := Nat.le_zero.mp fits
    exact ⟨[], [], rfl, rfl, .inr (by simp)⟩
  | cons c rest ih =>
    cases blank : isBlank c with
    | false =>
      cases k with
      | zero => exact ⟨[], c :: rest, rfl, rfl, .inr (by simp [blank])⟩
      | succ k =>
        rw [collapseFrom_nonblank blank, List.length_cons] at fits
        obtain ⟨x, y, rfl, sized, cut⟩ := ih false k (Nat.le_of_succ_le_succ fits)
        refine ⟨c :: x, y, rfl, ?_, by rwa [endsBlank, blank]⟩
        rw [collapseFrom_nonblank blank, List.length_cons]
        exact congrArg (· + 1) sized
    | true =>
      rw [collapseFrom_blank blank] at fits
      cases b with
      | true =>
        obtain ⟨x, y, rfl, sized, cut⟩ := ih true k fits
        refine ⟨c :: x, y, rfl, ?_, by rwa [endsBlank, blank]⟩
        rw [collapseFrom_blank blank]
        exact sized
      | false =>
        cases k with
        | zero => exact ⟨[], c :: rest, rfl, rfl, .inl rfl⟩
        | succ k =>
          obtain ⟨x, y, rfl, sized, cut⟩ := ih true k (Nat.le_of_succ_le_succ fits)
          refine ⟨c :: x, y, rfl, ?_, by rwa [endsBlank, blank]⟩
          rw [collapseFrom_blank blank]
          exact congrArg (· + 1) sized

/-! ## The walk -/

/-- Where the walk stands in a run of blanks: in none, behind tabs, behind its first space. -/
inductive Run where
  | outside | tabs | spaced

/-- The positions the walk gives, `n` being the one it stands at. -/
def places : Run → Nat → Text → List Nat
  | _, _, [] => []
  | .outside, n, c :: rest =>
    if isBlank c then
      if c = ' ' then n :: places .spaced (n + 1) rest else n :: places .tabs n rest
    else n :: places .outside (n + 1) rest
  | .tabs, n, c :: rest =>
    if isBlank c then
      if c = ' ' then n :: places .spaced (n + 1) rest else n :: places .tabs n rest
    else (n + 1) :: places .outside (n + 2) rest
  | .spaced, n, c :: rest =>
    if isBlank c then n :: places .spaced n rest else n :: places .outside (n + 1) rest

/-- What is left of the collapsed text. -/
def ahead : Run → Text → Text
  | .outside, text => collapse text
  | .tabs, text => ' ' :: collapseFrom true text
  | .spaced, text => collapseFrom true text

@[simp] theorem length_places (run : Run) (n : Nat) (text : Text) :
    (places run n text).length = text.length := by
  induction text generalizing run n with
  | nil => cases run <;> rfl
  | cons c rest ih =>
    cases run <;> simp only [places] <;> split <;> (try split) <;> simp [ih]

theorem isBlank_space : isBlank ' ' = true := rfl

theorem ne_space_of_plain (plain : isBlank c = false) : c ≠ ' ' := by
  rintro rfl
  cases plain

/-- Behind tabs the walk has moved on when the next character is no blank. -/
theorem places_tabs (plain : ∀ c ∈ text.head?, isBlank c = false) (n : Nat) :
    places .tabs n text = places .outside (n + 1) text := by
  cases text with
  | nil => rfl
  | cons c rest =>
    have nonblank := plain c rfl
    simp [places, nonblank]

theorem head_spaced (text : Text) : ∀ d ∈ (collapseFrom true text).head?, isBlank d = false := by
  induction text with
  | nil => simp [collapseFrom]
  | cons c rest ih =>
    cases blank : isBlank c with
    | true =>
      rw [collapseFrom_blank blank]
      exact ih
    | false =>
      rw [collapseFrom_nonblank blank]
      rintro d ⟨⟩
      exact blank

/-- A tab or a space where the collapsed text has its blank. -/
theorem origToNorm_blank (size n : Nat) (blank : isBlank c = true)
    (spaced : origToNorm size text (n + 1) (ahead .spaced text) = places .spaced (n + 1) text)
    (tabs : (∀ d ∈ text.head?, isBlank d = true) →
      origToNorm size text n (ahead .tabs text) = places .tabs n text)
    (outside : (∀ d ∈ text.head?, isBlank d = false) →
      origToNorm size text (n + 1) (collapse text) = places .outside (n + 1) text) :
    origToNorm size (c :: text) n (' ' :: collapseFrom true text) =
      if c = ' ' then n :: places .spaced (n + 1) text else n :: places .tabs n text := by
  rw [origToNorm]
  by_cases space : c = ' '
  · rw [if_pos space, if_pos space]
    exact congrArg (n :: ·) spaced
  · have fits : (isBlank c && ' ' == ' ') = true := by simp [blank]
    rw [if_neg space, if_neg space, if_pos fits]
    cases text with
    | nil => exact congrArg (n :: ·) (tabs (by simp))
    | cons d rest =>
      cases plain : isBlank d with
      | true =>
        have stays : ((d :: rest).head?.any fun next => !isBlank next) = false := by simp [plain]
        rw [stays, if_neg Bool.false_ne_true]
        exact congrArg (n :: ·) (tabs (by simp [plain]))
      | false =>
        have moves : ((d :: rest).head?.any fun next => !isBlank next) = true := by simp [plain]
        have head : ∀ e ∈ (d :: rest).head?, isBlank e = false := by simp [plain]
        rw [moves, if_pos rfl, collapseFrom_head head, places_tabs head]
        exact congrArg (n :: ·) (outside head)

/-- The map, by the run the walk is in. -/
theorem origToNorm_eq (run : Run) (size n : Nat) (text : Text)
    (inside : run = .tabs → ∀ c ∈ text.head?, isBlank c = true)
    (sized : size = n + (ahead run text).length) :
    origToNorm size text n (ahead run text) = places run n text := by
  induction text generalizing run n with
  | nil => cases run <;> rfl
  | cons c rest ih =>
    have at_blank : isBlank c = true → size = n + (' ' :: collapseFrom true rest).length →
        origToNorm size (c :: rest) n (' ' :: collapseFrom true rest) =
          if c = ' ' then n :: places .spaced (n + 1) rest else n :: places .tabs n rest := by
      intro blank total
      rw [List.length_cons] at total
      refine origToNorm_blank size n blank (ih .spaced (n + 1) (by simp) ?_)
        (fun head => ih .tabs n (fun _ => head) ?_) fun head => ?_
      · rw [ahead]
        omega
      · rw [ahead, List.length_cons]
        omega
      · refine ih .outside (n + 1) (by simp) ?_
        rw [ahead, ← collapseFrom_head head true]
        omega
    have at_plain : isBlank c = false → size = n + (c :: collapse rest).length →
        origToNorm size (c :: rest) n (c :: collapse rest) = n :: places .outside (n + 1) rest := by
      intro plain total
      rw [List.length_cons] at total
      rw [origToNorm, if_pos rfl]
      exact congrArg (n :: ·) (ih .outside (n + 1) (by simp) (by rw [ahead]; omega))
    cases run with
    | outside =>
      rw [ahead] at sized ⊢
      rw [places]
      cases blank : isBlank c with
      | true =>
        rw [collapse, collapseFrom_blank blank] at sized ⊢
        exact at_blank blank sized
      | false =>
        rw [collapse, collapseFrom_nonblank blank] at sized ⊢
        exact at_plain blank sized
    | tabs =>
      have blank := inside rfl c rfl
      rw [ahead, collapseFrom_blank blank] at sized ⊢
      rw [places, if_pos blank]
      exact at_blank blank sized
    | spaced =>
      rw [ahead] at sized ⊢
      rw [places]
      cases blank : isBlank c with
      | true =>
        rw [collapseFrom_blank blank, if_pos rfl, List.nil_append] at sized ⊢
        have later := ih .spaced n (by simp) sized
        rw [ahead] at later
        have head := head_spaced rest
        cases left : collapseFrom true rest with
        | nil =>
          rw [left] at later sized
          rw [origToNorm, later, if_pos rfl, sized]
          rfl
        | cons d more =>
          rw [left] at later head
          have plain := head d rfl
          have other : c ≠ d := by
            rintro rfl
            rw [blank] at plain
            cases plain
          have unfit : ¬((isBlank c && d == ' ') = true) := by
            simp [ne_space_of_plain plain]
          rw [origToNorm, if_neg other, if_neg unfit, later, if_pos rfl]
      | false =>
        rw [collapseFrom_nonblank blank] at sized ⊢
        exact at_plain blank sized

/-- The positions of the characters in the collapsed text. -/
theorem places_of_collapse (text : Text) :
    origToNorm (collapse text).length text 0 (collapse text) = places .outside 0 text :=
  origToNorm_eq .outside _ 0 text (by simp) (Nat.zero_add _).symm

/-! ## The positions of a part -/

/-- How far the walk gets with a text. -/
def width : Run → Text → Nat
  | .outside, text => (collapse text).length
  | .tabs, text => (collapseFrom true text).length + 1
  | .spaced, text => (collapseFrom true text).length

/-- Whether the walk is in a run. -/
def Run.within : Run → Bool
  | .outside => false
  | _ => true

/-- One step of the walk: the position it gives, the run it is in then, and how far it is. -/
structure Steps (run : Run) (n : Nat) (c : Char) (place : Nat) (run' : Run) (n' : Nat) : Prop where
  places : ∀ rest, places run n (c :: rest) = place :: places run' n' rest
  width : ∀ rest, n' + width run' rest = n + width run (c :: rest)
  within : run'.within = isBlank c
  low : n ≤ place
  high : place ≤ n'

theorem exists_step (run : Run) (n : Nat) (c : Char) : ∃ place run' n', Steps run n c place run' n' := by
  cases blank : isBlank c with
  | false =>
    have plain : Steps .outside n c n .outside (n + 1) := by
      refine ⟨fun rest => by simp [places, blank], fun rest => ?_, blank.symm, le_rfl, by omega⟩
      simp [width, collapse, collapseFrom, blank]
      omega
    cases run with
    | outside => exact ⟨n, .outside, n + 1, plain⟩
    | tabs =>
      refine ⟨n + 1, .outside, n + 2, fun rest => by simp [places, blank], fun rest => ?_,
        blank.symm, by omega, by omega⟩
      simp [width, collapse, collapseFrom, blank]
      omega
    | spaced =>
      refine ⟨n, .outside, n + 1, fun rest => by simp [places, blank], fun rest => ?_,
        blank.symm, le_rfl, by omega⟩
      simp [width, collapse, collapseFrom, blank]
      omega
  | true =>
    cases run with
    | spaced =>
      refine ⟨n, .spaced, n, fun rest => by simp [places, blank], fun rest => ?_, blank.symm,
        le_rfl, le_rfl⟩
      simp [width, collapseFrom, blank]
    | outside =>
      by_cases space : c = ' '
      · refine ⟨n, .spaced, n + 1, fun rest => by simp [places, space, isBlank_space],
          fun rest => ?_, blank.symm, le_rfl, by omega⟩
        simp [width, collapse, collapseFrom, blank]
        omega
      · refine ⟨n, .tabs, n, fun rest => by simp [places, blank, space], fun rest => ?_, blank.symm,
          le_rfl, le_rfl⟩
        simp [width, collapse, collapseFrom, blank]
    | tabs =>
      by_cases space : c = ' '
      · refine ⟨n, .spaced, n + 1, fun rest => by simp [places, space, isBlank_space],
          fun rest => ?_, blank.symm, le_rfl, by omega⟩
        simp [width, collapseFrom, blank]
        omega
      · refine ⟨n, .tabs, n, fun rest => by simp [places, blank, space], fun rest => ?_, blank.symm,
          le_rfl, le_rfl⟩
        simp [width, collapseFrom, blank]

/-- At a cut the walk starts anew. -/
theorem places_append (run : Run) (n : Nat) (x y : Text)
    (cut : endsBlank run.within x = false ∨ ∀ c ∈ y.head?, isBlank c = false) :
    places run n (x ++ y) = places run n x ++ places .outside (n + width run x) y := by
  induction x generalizing run n with
  | nil =>
    cases run with
    | outside => rfl
    | tabs => exact places_tabs (cut.resolve_left (by simp [endsBlank, Run.within])) n
    | spaced =>
      have plain := cut.resolve_left (by simp [endsBlank, Run.within])
      cases y with
      | nil => rfl
      | cons c rest =>
        have nonblank := plain c rfl
        simp [places, nonblank, width, collapseFrom]
  | cons c rest ih =>
    obtain ⟨place, run', n', step⟩ := exists_step run n c
    rw [endsBlank, ← step.within] at cut
    rw [List.cons_append, step.places, step.places, ih run' n' cut, step.width, List.cons_append]

theorem places_cut (cut : Cut x y) (n : Nat) :
    places .outside n (x ++ y) =
      places .outside n x ++ places .outside (n + (collapse x).length) y :=
  places_append .outside n x y cut

/-- The positions of a text lie between where the walk starts and where it gets. -/
theorem places_bounds (run : Run) (n : Nat) (text : Text) :
    ∀ place ∈ places run n text, n ≤ place ∧ place ≤ n + width run text := by
  induction text generalizing run n with
  | nil => cases run <;> simp [places]
  | cons c rest ih =>
    obtain ⟨place, run', n', step⟩ := exists_step run n c
    have total := step.width rest
    have low := step.low
    have high := step.high
    rw [step.places]
    intro other member
    rcases List.mem_cons.mp member with rfl | later
    · omega
    · have bounds := ih run' n' other later
      omega

/-- The first position is where the walk starts. -/
theorem places_head (some_char : text ≠ []) (n : Nat) :
    ∃ later, places .outside n text = n :: later := by
  cases text with
  | nil => exact absurd rfl some_char
  | cons c rest =>
    rw [places]
    split
    · split
      · exact ⟨_, rfl⟩
      · exact ⟨_, rfl⟩
    · exact ⟨_, rfl⟩

/-! ## How the positions of a text end -/

/-- A run of blanks that goes on behind a space. -/
def Spills (text : Text) : Prop :=
  ∃ u v, text = u ++ ' ' :: v ∧ v ≠ [] ∧ ∀ c ∈ v, isBlank c = true

theorem places_spaced (blanks : ∀ c ∈ r, isBlank c = true) (n : Nat) :
    places .spaced n r = List.replicate r.length n := by
  induction r with
  | nil => rfl
  | cons c rest ih =>
    rw [places, if_pos (blanks c List.mem_cons_self),
      ih fun d member => blanks d (List.mem_cons_of_mem _ member)]
    rfl

/-- In a run of blanks: the tabs and the first space, then the rest one further. -/
theorem places_run (run : Run) (outside : run ≠ .spaced) (blanks : ∀ c ∈ r, isBlank c = true) :
    ∃ a s, (r ≠ [] → 0 < a) ∧ (0 < s ↔ Spills r) ∧
      ∀ n, places run n r = List.replicate a n ++ List.replicate s (n + 1) := by
  induction r generalizing run with
  | nil =>
    refine ⟨0, 0, fun h => absurd rfl h, iff_of_false (lt_irrefl 0) ?_, fun n => ?_⟩
    · rintro ⟨u, v, whole, -⟩
      simp at whole
    · cases run <;> rfl
  | cons c rest ih =>
    have blanks' : ∀ d ∈ rest, isBlank d = true :=
      fun d member => blanks d (List.mem_cons_of_mem _ member)
    have first := blanks c List.mem_cons_self
    have walked : ∀ n, places run n (c :: rest) =
        n :: if c = ' ' then places .spaced (n + 1) rest else places .tabs n rest := by
      intro n
      cases run with
      | spaced => exact absurd rfl outside
      | outside =>
        rw [places, if_pos first]
        split <;> rfl
      | tabs =>
        rw [places, if_pos first]
        split <;> rfl
    by_cases space : c = ' '
    · refine ⟨1, rest.length, fun _ => Nat.one_pos, ?_, fun n => ?_⟩
      · rw [List.length_pos_iff]
        constructor
        · intro more
          exact ⟨[], rest, by rw [space]; rfl, more, blanks'⟩
        · rintro ⟨u, v, whole, some_blank, -⟩ rfl
          have sized := congrArg List.length whole
          have v_length := List.length_pos_iff.mpr some_blank
          simp at sized
          omega
      · rw [walked, if_pos space, places_spaced blanks']
        rfl
    · obtain ⟨a, s, -, spills, later⟩ := ih .tabs (by simp) blanks'
      refine ⟨a + 1, s, fun _ => Nat.succ_pos a, ?_, fun n => ?_⟩
      · rw [spills]
        constructor
        · rintro ⟨u, v, rfl, rest_spills⟩
          exact ⟨c :: u, v, rfl, rest_spills⟩
        · rintro ⟨u, v, whole, rest_spills⟩
          cases u with
          | nil =>
            rw [List.nil_append, List.cons_eq_cons] at whole
            exact absurd whole.1 space
          | cons d u =>
            rw [List.cons_append, List.cons_eq_cons] at whole
            exact ⟨u, v, whole.2, rest_spills⟩
      · rw [walked, if_neg space, later]
        rfl

/-- How the positions of a text end: its last character is where the walk gets, and `s`
blanks behind the first space of its last run are one further. -/
structure Tail (text : Text) (s : Nat) : Prop where
  short : s < text.length
  places : ∀ n, ∃ front, places .outside n text =
      front ++ (n + (collapse text).length - 1) :: List.replicate s (n + (collapse text).length) ∧
    ∀ place ∈ front, place < n + (collapse text).length
  same : collapse (text.take (text.length - s)) = collapse text
  blanks : ∀ c ∈ text.drop (text.length - s), isBlank c = true
  spills : 0 < s ↔ Spills text
  last : (collapse text).getLast? = some ' ' ↔ endsBlank false text = true

/-- A text up to its last run of blanks, and that run. -/
theorem exists_run (text : Text) :
    ∃ x r, text = x ++ r ∧ (∀ c ∈ r, isBlank c = true) ∧ endsBlank false x = false := by
  induction text with
  | nil => exact ⟨[], [], rfl, by simp, rfl⟩
  | cons c rest ih =>
    obtain ⟨x, r, rfl, blanks, ended⟩ := ih
    cases x with
    | cons d more => exact ⟨c :: d :: more, r, rfl, blanks, ended⟩
    | nil =>
      cases blank : isBlank c with
      | true => exact ⟨[], c :: r, rfl, by simpa [blank] using blanks, rfl⟩
      | false => exact ⟨[c], r, rfl, blanks, blank⟩

/-- A run spills over wherever it stands. -/
theorem spills_append (ended : endsBlank false x = false) : Spills (x ++ r) ↔ Spills r := by
  constructor
  · rintro ⟨u, v, whole, some_blank, blanks⟩
    rcases List.append_eq_append_iff.mp whole with ⟨u', rfl, rest⟩ | ⟨w, rfl, rest⟩
    · exact ⟨u', v, rest, some_blank, blanks⟩
    · by_cases nothing : w = []
      · rw [nothing, List.nil_append] at rest
        exact ⟨[], v, rest.symm, some_blank, blanks⟩
      · have all_blank : ∀ c ∈ w, isBlank c = true := by
          intro c member
          have inside : c ∈ ' ' :: v := by simp [rest, member]
          rcases List.mem_cons.mp inside with rfl | inside
          · rfl
          · exact blanks c inside
        rw [endsBlank_append, endsBlank_run all_blank nothing] at ended
        cases ended
  · rintro ⟨u, v, rfl, rest⟩
    exact ⟨x ++ u, v, by simp, rest⟩

theorem tail_plain (plain : isBlank c = false) : Tail (x ++ [c]) 0 := by
  have head : ∀ d ∈ ([c] : Text).head?, isBlank d = false := by simp [plain]
  have ended : endsBlank false (x ++ [c]) = false := by
    rw [endsBlank_append]
    exact plain
  have alone : collapse [c] = [c] := collapseFrom_nonblank plain false []
  have walked : ∀ n, places .outside n [c] = [n] := fun n => by simp [places, plain]
  have total : (collapse (x ++ [c])).length = (collapse x).length + 1 := by
    rw [collapse_append (.inr head), alone, List.length_append, List.length_singleton]
  refine ⟨by simp, fun n => ⟨places .outside n x, ?_, ?_⟩, by rw [Nat.sub_zero, List.take_length],
    by simp, ?_, ?_⟩
  · rw [places_cut (.inr head), walked, total]
    rfl
  · intro place member
    have bounds := places_bounds .outside n x place member
    rw [total]
    change _ ∧ place ≤ n + (collapse x).length at bounds
    omega
  · refine iff_of_false (lt_irrefl 0) fun spills => ?_
    have nothing := (spills_append (r := []) ended).mp (by simpa using spills)
    obtain ⟨u, v, whole, -⟩ := nothing
    simp at whole
  · refine iff_of_false ?_ (by simp [ended])
    rw [collapse_append (.inr head), alone]
    simpa using ne_space_of_plain plain

theorem tail_run (ended : endsBlank false x = false) (blanks : ∀ c ∈ r, isBlank c = true)
    (some_blank : r ≠ []) : ∃ s, Tail (x ++ r) s := by
  have cut : Cut x r := .inl ended
  have total : (collapse (x ++ r)).length = (collapse x).length + 1 := by
    rw [collapse_append cut, collapse_run blanks some_blank, List.length_append,
      List.length_singleton]
  obtain ⟨a, s, first, spills, walked⟩ := places_run .outside (by simp) blanks
  obtain ⟨k, rfl⟩ := Nat.exists_eq_succ_of_ne_zero (first some_blank).ne'
  have sized := congrArg List.length (walked 0)
  rw [length_places, List.length_append, List.length_replicate, List.length_replicate] at sized
  have cut_at : (x ++ r).length - s = x.length + (r.length - s) := by
    rw [List.length_append]
    omega
  refine ⟨s, ?_, fun n => ?_, ?_, ?_, ?_, ?_⟩
  · rw [List.length_append]
    omega
  · refine ⟨places .outside n x ++ List.replicate k (n + (collapse x).length), ?_, ?_⟩
    · have same : n + ((collapse x).length + 1) - 1 = n + (collapse x).length := by omega
      rw [places_cut cut, walked, total, same, List.replicate_succ', Nat.add_assoc n]
      simp
    · intro place member
      rw [total]
      rcases List.mem_append.mp member with inside | repeated
      · have bounds := places_bounds .outside n x place inside
        change _ ∧ place ≤ n + (collapse x).length at bounds
        omega
      · rw [List.eq_of_mem_replicate repeated]
        omega
  · have some_left : r.take (r.length - s) ≠ [] := by
      apply List.ne_nil_of_length_pos
      rw [List.length_take]
      omega
    have blanks' : ∀ c ∈ r.take (r.length - s), isBlank c = true :=
      fun c member => blanks c (List.mem_of_mem_take member)
    rw [cut_at, List.take_length_add_append, collapse_append (.inl ended),
      collapse_run blanks' some_left, collapse_append cut, collapse_run blanks some_blank]
  · intro c member
    rw [cut_at, List.drop_length_add_append] at member
    exact blanks c (List.mem_of_mem_drop member)
  · rw [spills, spills_append ended]
  · refine iff_of_true ?_ ?_
    · rw [collapse_append cut, collapse_run blanks some_blank]
      simp
    · rw [endsBlank_append]
      exact endsBlank_run blanks some_blank _

/-- Every text but the empty one ends so. -/
theorem exists_tail (some_char : text ≠ []) : ∃ s, Tail text s := by
  obtain ⟨x, r, rfl, blanks, ended⟩ := exists_run text
  by_cases nothing : r = []
  · subst nothing
    rw [List.append_nil] at some_char ⊢
    rcases List.eq_nil_or_concat x with rfl | ⟨y, c, rfl⟩
    · exact absurd rfl some_char
    · rw [List.concat_eq_append, endsBlank_append] at ended
      rw [List.concat_eq_append]
      exact ⟨0, tail_plain ended⟩
  · exact tail_run ended blanks nothing

theorem Tail.endsBlank {s : Nat} (tail : Tail text s) (some_blank : 0 < s) :
    endsBlank false text = true := by
  have short := tail.short
  have whole : text.take (text.length - s) ++ text.drop (text.length - s) = text :=
    List.take_append_drop _ _
  have some_left : text.drop (text.length - s) ≠ [] := by
    apply List.ne_nil_of_length_pos
    rw [List.length_drop]
    omega
  rw [← whole, endsBlank_append]
  exact endsBlank_run tail.blanks some_left _

/-! ## The span of a match -/

theorem firstAt_append {front later : List Nat} (k : Nat) (below : ∀ place ∈ front, place ≠ k) :
    firstAt (front ++ k :: later) k = some front.length := by
  induction front with
  | nil => simp [firstAt, List.findIdx?_cons]
  | cons place rest ih =>
    have other : (place == k) = false := beq_eq_false_iff_ne.mpr (below place List.mem_cons_self)
    have found := ih fun place' member => below place' (List.mem_cons_of_mem _ member)
    unfold firstAt at found ⊢
    rw [List.cons_append, List.findIdx?_cons, other, found]
    rfl

theorem lastAt_append {front later : List Nat} (k : Nat) (above : ∀ place ∈ later, place ≠ k) :
    lastAt (front ++ k :: later) k = some front.length := by
  have found := @firstAt_append later.reverse front.reverse k
    fun place member => above place (List.mem_reverse.mp member)
  have turned : (front ++ k :: later).reverse = later.reverse ++ k :: front.reverse := by simp
  unfold firstAt at found
  rw [lastAt, turned, found, List.length_reverse, Option.map_some]
  have sized : (front ++ k :: later).length - 1 - later.length = front.length := by simp
  rw [sized]

/-- The positions of a text that is not empty, behind another one, begin where that ends. -/
theorem firstAt_places {t : Nat} (cut : Cut x y) (tail : x = [] ∧ t = 0 ∨ Tail x t)
    (some_char : y ≠ []) :
    firstAt (places .outside 0 (x ++ y)) (collapse x).length = some (x.length - t) := by
  obtain ⟨later, begins⟩ := places_head some_char (0 + (collapse x).length)
  rw [places_cut cut, begins, Nat.zero_add]
  rcases tail with ⟨rfl, rfl⟩ | tail
  · exact @firstAt_append [] _ _ (by simp)
  · obtain ⟨front, walked, below⟩ := tail.places 0
    have short := tail.short
    have some_length : 0 < (collapse x).length :=
      List.length_pos_iff.mpr (collapse_ne_nil (List.ne_nil_of_length_pos (by omega)))
    have sized := congrArg List.length walked
    rw [length_places, List.length_append, List.length_cons, List.length_replicate] at sized
    have count : x.length - t = (front ++ [(collapse x).length - 1]).length := by
      rw [List.length_append, List.length_singleton]
      omega
    have before : ∀ place ∈ front ++ [(collapse x).length - 1], place ≠ (collapse x).length := by
      intro place member
      rcases List.mem_append.mp member with inside | last
      · have bound := below place inside
        omega
      · rw [List.mem_singleton.mp last]
        omega
    rw [walked, Nat.zero_add, count]
    cases t with
    | zero =>
      have found := @firstAt_append _ later _ before
      simpa using found
    | succ t =>
      have found := @firstAt_append _
        (List.replicate t (collapse x).length ++ (collapse x).length :: later) _ before
      simpa [List.replicate_succ] using found

/-- The positions of a text that is not empty end, but for what spills over, where it ends. -/
theorem lastAt_places {s : Nat} (cut : Cut x (y ++ z)) (cut' : Cut y z) (tail : Tail y s) :
    lastAt (places .outside 0 (x ++ (y ++ z))) ((collapse x).length + (collapse y).length - 1) =
      some (x.length + (y.length - s) - 1) := by
  obtain ⟨front, walked, -⟩ := tail.places (0 + (collapse x).length)
  have short := tail.short
  have some_length : 0 < (collapse y).length :=
    List.length_pos_iff.mpr (collapse_ne_nil (List.ne_nil_of_length_pos (by omega)))
  have sized := congrArg List.length walked
  rw [length_places, List.length_append, List.length_cons, List.length_replicate] at sized
  have above : ∀ place ∈ List.replicate s (0 + (collapse x).length + (collapse y).length) ++
      places .outside (0 + (collapse x).length + (collapse y).length) z,
      place ≠ 0 + (collapse x).length + (collapse y).length - 1 := by
    intro place member
    rcases List.mem_append.mp member with repeated | inside
    · rw [List.eq_of_mem_replicate repeated]
      omega
    · have bounds := places_bounds .outside _ z place inside
      omega
  have found := @lastAt_append (places .outside 0 x ++ front) _ _ above
  rw [places_cut cut, places_cut cut', walked]
  have count : x.length + (y.length - s) - 1 = (places .outside 0 x ++ front).length := by
    rw [List.length_append, length_places]
    omega
  rw [count, ← found]
  simp

theorem charBefore_append {a b : Text} (c : Text) (some_char : b ≠ []) :
    charBefore (a ++ (b ++ c)) (a.length + b.length) = b.getLast? := by
  have some_length := List.length_pos_iff.mpr some_char
  have place : a.length + b.length - 1 = a.length + (b.length - 1) := by omega
  rw [charBefore, if_neg (by omega), place, List.getElem?_append_right (by omega),
    Nat.add_sub_cancel_left, List.getElem?_append_left (by omega), List.getLast?_eq_getElem?]

theorem takeWhile_blanks {later : Text} (blanks : ∀ c ∈ r, isBlank c = true)
    (plain : ∀ c ∈ later.head?, isBlank c = false) :
    ((r ++ later).takeWhile isBlank).length = r.length := by
  induction r with
  | nil =>
    cases later with
    | nil => rfl
    | cons c rest => simp [plain c rfl]
  | cons c rest ih =>
    have shorter := ih fun d member => blanks d (List.mem_cons_of_mem _ member)
    simp [blanks c List.mem_cons_self, shorter]

/-- The span of a match: it begins where the positions before it end, and it ends at the end
of the text, or at the end of the content in the middle of its last run. -/
theorem mapWhitespacePosition_eq {s t : Nat} (cut : Cut x (y ++ z)) (cut' : Cut y z)
    (before : x = [] ∧ t = 0 ∨ Tail x t) (tail : Tail y s) :
    ∃ e, mapWhitespacePosition (x ++ (y ++ z)) (collapse (x ++ (y ++ z)))
        (places .outside 0 (x ++ (y ++ z)))
        ((collapse x).length, (collapse x).length + (collapse y).length) =
          some (x.length - t, e) ∧
      (e = x.length + y.length ∨ e = x.length + (y.length - s)) := by
  have short := tail.short
  have some_char : y ≠ [] := List.ne_nil_of_length_pos (by omega)
  have some_length : 0 < (collapse y).length := List.length_pos_iff.mpr (collapse_ne_nil some_char)
  have begins := firstAt_places cut before (y := y ++ z) (by simp [some_char])
  have ends := lastAt_places cut cut' tail
  have whole : collapse (x ++ (y ++ z)) = collapse x ++ (collapse y ++ collapse z) := by
    rw [collapse_append cut, collapse_append cut']
  have fallback : ∃ i, (places .outside 0 (x ++ (y ++ z))).findIdx? ((collapse x).length ≤ ·) =
      some i := by
    apply Option.isSome_iff_exists.mp
    rw [List.findIdx?_isSome, List.any_eq_true]
    refine ⟨(collapse x).length, ?_, by simp⟩
    obtain ⟨later, walked⟩ := @places_head (y ++ z) (by simp [some_char])
      (0 + (collapse x).length)
    rw [places_cut cut, walked, Nat.zero_add]
    simp
  obtain ⟨i, first⟩ := fallback
  have total : (x ++ (y ++ z)).length = x.length + (y.length + z.length) := by simp
  have last_end : x.length + (y.length - s) - 1 + 1 = x.length + (y.length - s) := by omega
  have far : ¬((collapse x).length + (collapse y).length = 0) := by omega
  unfold mapWhitespacePosition
  simp only [first, begins, ends, if_neg far, Option.bind_eq_bind, Option.bind_some, Option.getD_some, Option.pure_def, last_end]
  have letter : charBefore (collapse (x ++ (y ++ z)))
      ((collapse x).length + (collapse y).length) = (collapse y).getLast? := by
    rw [whole]
    exact charBefore_append _ (collapse_ne_nil some_char)
  rw [letter]
  split
  · rename_i extends_run
    have ended := tail.last.mp extends_run.2
    have plain : ∀ c ∈ z.head?, isBlank c = false := cut'.resolve_left (by simp [ended])
    have rest : (x ++ (y ++ z)).drop (x.length + (y.length - s)) = y.drop (y.length - s) ++ z := by
      rw [List.drop_length_add_append, List.drop_append_of_le_length (by omega)]
    have blanks := @takeWhile_blanks _ z tail.blanks plain
    rw [rest, blanks, List.length_drop, total]
    have stops : min (x.length + (y.length - s) + (y.length - (y.length - s)))
        (x.length + (y.length + z.length)) = x.length + y.length := by omega
    exact ⟨x.length + y.length, by rw [stops], .inl rfl⟩
  · have stops : min (x.length + (y.length - s)) (x ++ (y ++ z)).length =
        x.length + (y.length - s) := by omega
    exact ⟨x.length + (y.length - s), by rw [stops], .inr rfl⟩

end SherryAgent.Contracts.BlankRuns
