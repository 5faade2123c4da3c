import SherryAgent.Contracts.Security.Lowered

/-!
# The plain reading of a text with inline reasoning

One pass over the whole text says of every character whether it is visible, reasoning, or part of a
tag that is dropped. What a longer text changes of the reading is only what a tag at the seam could
change.
-/

namespace SherryAgent.Contracts.Security

open SherryAgent.Library SherryAgent.Source SherryAgent.Source.Security

inductive Part where
  | visible
  | reasoning
  | markup
  deriving DecidableEq

/-- The tags that count in or outside a block, each with the block that it leads to. -/
def marks : Option ReasoningTag → List (List Char × Option ReasoningTag)
  | some tag => [(tag.closing, none)]
  | none => inlineReasoningTags.map fun tag => (tag.opening, some tag)

/-- The length of the tag at the start of the text and the block after it. -/
def tagAt (same : Char → Char → Bool) (inside : Option ReasoningTag) (text : List Char) :
    Option (Nat × Option ReasoningTag) :=
  ((marks inside).find? fun mark => spelled same mark.1 text).map fun mark =>
    (mark.1.length, mark.2)

def plainPart : Option ReasoningTag → Part
  | some _ => .reasoning
  | none => .visible

/-- The reading; `skip` characters of a tag are still to pass. -/
def read (same : Char → Char → Bool) :
    (inside : Option ReasoningTag) → (skip : Nat) → List Char → List (Char × Part)
  | _, _, [] => []
  | inside, skip + 1, c :: rest => (c, .markup) :: read same inside skip rest
  | inside, 0, c :: rest =>
    match tagAt same inside (c :: rest) with
    | some (length, next) => (c, .markup) :: read same next (length - 1) rest
    | none => (c, plainPart inside) :: read same inside 0 rest

/-- The characters of one part, in order. -/
def partOf (part : Part) (reading : List (Char × Part)) : List Char :=
  (reading.filter (·.2 == part)).map (·.1)

variable {same : Char → Char → Bool} {inside next : Option ReasoningTag}
  {mark other : List Char × Option ReasoningTag} {text u t v w kept : List Char}

/-! ## The tags -/

/-- What the search needs of a tag. -/
structure Mark (mark : List Char) : Prop where
  starts : mark.head? = some '<'
  once : '<' ∉ mark.tail
  whole : Whole mark
  usable : Candidate mark

theorem mark_opening (tag : ReasoningTag) : Mark tag.opening := by
  cases tag <;>
    exact ⟨by decide, by decide, ⟨by decide, by decide⟩, ⟨by decide, by decide⟩⟩

theorem mark_closing (tag : ReasoningTag) : Mark tag.closing := by
  cases tag <;>
    exact ⟨by decide, by decide, ⟨by decide, by decide⟩, ⟨by decide, by decide⟩⟩

theorem mark_of_mem (member : mark ∈ marks inside) : Mark mark.1 := by
  cases inside with
  | some tag =>
    rw [List.mem_singleton.mp member]
    exact mark_closing tag
  | none =>
    obtain ⟨tag, -, rfl⟩ := List.mem_map.mp member
    exact mark_opening tag

theorem Mark.ne_nil {mark : List Char} (usual : Mark mark) : mark ≠ [] := by
  intro empty
  have starts := usual.starts
  rw [empty] at starts
  cases starts

/-- No tag starts another one. -/
theorem eq_of_starts (member : mark ∈ marks inside) (also : other ∈ marks inside)
    (starts : mark.1 <+: other.1) : mark = other := by
  cases inside with
  | some tag => rw [List.mem_singleton.mp member, List.mem_singleton.mp also]
  | none =>
    have distinct : ∀ mark ∈ marks none, ∀ other ∈ marks none,
        mark.1 <+: other.1 → mark = other := by decide
    exact distinct mark member other also starts

theorem tagAt_eq_none : tagAt same inside text = none ↔
    ∀ mark ∈ marks inside, spelled same mark.1 text = false := by
  unfold tagAt
  rw [Option.map_eq_none_iff, List.find?_eq_none]
  simp

theorem mark_of_tagAt {tag : Nat × Option ReasoningTag}
    (tagged : tagAt same inside text = some tag) :
    ∃ mark ∈ marks inside, spelled same mark.1 text = true ∧ tag = (mark.1.length, mark.2) := by
  obtain ⟨mark, found, shape⟩ := Option.map_eq_some_iff.mp tagged
  have starts := List.find?_some found
  exact ⟨mark, List.mem_of_find?_eq_some found, starts, shape.symm⟩

/-- Only one tag can be spelled at one place. -/
theorem eq_of_spelled (member : mark ∈ marks inside) (also : other ∈ marks inside)
    (starts : spelled folded mark.1 text = true) (other_starts : spelled folded other.1 text = true) :
    mark = other := by
  by_cases shorter : mark.1.length ≤ other.1.length
  · exact eq_of_starts member also (spelled_unique folded_functional starts other_starts shorter)
  · exact (eq_of_starts also member
      (spelled_unique folded_functional other_starts starts (by omega))).symm

theorem tagAt_of_spelled (member : mark ∈ marks inside)
    (starts : spelled folded mark.1 text = true) :
    tagAt folded inside text = some (mark.1.length, mark.2) := by
  cases found : tagAt folded inside text with
  | none =>
    have unspelled := tagAt_eq_none.mp found mark member
    rw [starts] at unspelled
    cases unspelled
  | some tag =>
    obtain ⟨other, also, other_starts, rfl⟩ := mark_of_tagAt found
    rw [eq_of_spelled member also starts other_starts]

/-! ## Reading a part -/

theorem tagAt_nil : tagAt same inside [] = none := by
  rw [tagAt_eq_none]
  intro mark member
  cases starts : mark.1 with
  | nil => exact absurd starts (mark_of_mem member).ne_nil
  | cons c rest => rfl

theorem read_cons_plain {c : Char} (plain : tagAt same inside (c :: text) = none) :
    read same inside 0 (c :: text) = (c, plainPart inside) :: read same inside 0 text := by
  rw [read, plain]

theorem read_plain (plain : ∀ i < u.length, tagAt same inside ((u ++ w).drop i) = none) :
    read same inside 0 (u ++ w) =
      u.map (fun c => (c, plainPart inside)) ++ read same inside 0 w := by
  induction u with
  | nil => rfl
  | cons c u ih =>
    have first : tagAt same inside (c :: (u ++ w)) = none := plain 0 (by simp)
    have later : ∀ i < u.length, tagAt same inside ((u ++ w).drop i) = none := by
      intro i below
      exact plain (i + 1) (by simpa using below)
    rw [List.cons_append, read_cons_plain first, ih later]
    rfl

theorem read_skip : read same inside t.length (t ++ w) =
    t.map (fun c => (c, Part.markup)) ++ read same inside 0 w := by
  induction t with
  | nil => rfl
  | cons c t ih =>
    rw [List.length_cons, List.cons_append, read, ih]
    rfl

theorem read_tag (nonempty : t ≠ []) (tagged : tagAt same inside (t ++ w) = some (t.length, next)) :
    read same inside 0 (t ++ w) =
      t.map (fun c => (c, Part.markup)) ++ read same next 0 w := by
  cases t with
  | nil => exact absurd rfl nonempty
  | cons c t =>
    rw [List.cons_append] at tagged ⊢
    rw [read, tagged]
    dsimp only
    rw [List.length_cons, Nat.add_sub_cancel, read_skip]
    rfl

theorem length_read {skip : Nat} : (read same inside skip text).length = text.length := by
  induction text generalizing inside skip with
  | nil => simp [read]
  | cons c text ih =>
    cases skip with
    | succ skip => simp [read, ih]
    | zero =>
      rw [read]
      split
      · simp [ih]
      · simp [ih]

theorem map_fst_read {skip : Nat} : (read same inside skip text).map (·.1) = text := by
  induction text generalizing inside skip with
  | nil => simp [read]
  | cons c text ih =>
    cases skip with
    | succ skip => simp [read, ih]
    | zero =>
      rw [read]
      split
      · simp [ih]
      · simp [ih]

/-! ## The first tag -/

/-- No tag starts in the text. -/
def Quiet (inside : Option ReasoningTag) (text : List Char) : Prop :=
  ∀ i, tagAt folded inside (text.drop i) = none

/-- The first tag in the text stands between `u` and `v`. -/
structure FirstTag (inside : Option ReasoningTag) (text u t v : List Char)
    (mark : List Char × Option ReasoningTag) : Prop where
  shape : text = u ++ (t ++ v)
  member : mark ∈ marks inside
  length : t.length = mark.1.length
  spells : spelled folded mark.1 t = true
  first : ∀ i < u.length, tagAt folded inside (text.drop i) = none

theorem quiet_or_firstTag (inside : Option ReasoningTag) (text : List Char) :
    Quiet inside text ∨ ∃ u t v mark, FirstTag inside text u t v mark := by
  induction text with
  | nil =>
    left
    intro i
    rw [List.drop_nil]
    exact tagAt_nil
  | cons c text ih =>
    cases tagged : tagAt folded inside (c :: text) with
    | some tag =>
      right
      obtain ⟨mark, member, starts, rfl⟩ := mark_of_tagAt tagged
      have cut := List.take_append_drop mark.1.length (c :: text)
      have sized : ((c :: text).take mark.1.length).length = mark.1.length := by
        rw [List.length_take, Nat.min_eq_left (spelled_length starts)]
      refine ⟨[], (c :: text).take mark.1.length, (c :: text).drop mark.1.length, mark,
        cut.symm, member, sized, ?_, by simp⟩
      rw [← cut] at starts
      rwa [spelled_append (by omega)] at starts
    | none =>
      cases ih with
      | inl quiet =>
        left
        intro i
        cases i with
        | zero => exact tagged
        | succ i => exact quiet i
      | inr found =>
        obtain ⟨u, t, v, mark, found⟩ := found
        right
        refine ⟨c :: u, t, v, mark, by rw [found.shape, List.cons_append], found.member,
          found.length, found.spells, ?_⟩
        intro i below
        cases i with
        | zero => exact tagged
        | succ i => exact found.first i (by simpa using below)

theorem FirstTag.nonempty (found : FirstTag inside text u t v mark) : t ≠ [] := by
  intro empty
  have length := found.length
  rw [empty] at length
  exact (mark_of_mem found.member).ne_nil (List.eq_nil_of_length_eq_zero length.symm)

theorem FirstTag.tagAt (found : FirstTag inside text u t v mark) (w : List Char) :
    tagAt folded inside (t ++ w) = some (t.length, mark.2) := by
  rw [found.length]
  apply tagAt_of_spelled found.member
  rw [spelled_append (Nat.le_of_eq found.length.symm)]
  exact found.spells

/-- The tag begins with the bracket. -/
theorem FirstTag.bracket (found : FirstTag inside text u t v mark) :
    ∃ c rest, t = c :: rest ∧ folded c '<' = true := by
  have starts := (mark_of_mem found.member).starts
  have spells := found.spells
  cases shape : mark.1 with
  | nil => exact absurd shape (mark_of_mem found.member).ne_nil
  | cons m marked =>
    rw [shape] at starts spells
    cases parts : t with
    | nil => exact absurd parts found.nonempty
    | cons c rest =>
      rw [parts] at spells
      simp only [spelled, Bool.and_eq_true] at spells
      rw [Option.some.inj starts] at spells
      exact ⟨c, rest, rfl, spells.1⟩

/-- What follows the text does not make an earlier tag. -/
theorem FirstTag.first_append (found : FirstTag inside text u t v mark) (w : List Char) {i : Nat}
    (below : i < u.length) : Security.tagAt folded inside ((text ++ w).drop i) = none := by
  rw [tagAt_eq_none]
  intro other also
  rw [List.drop_append_of_le_length (by rw [found.shape, List.length_append]; omega)]
  apply Bool.eq_false_iff.mpr
  intro starts
  by_cases fits : other.1.length ≤ (text.drop i).length
  · rw [spelled_append fits, tagAt_eq_none.mp (found.first i below) other also] at starts
    cases starts
  · obtain ⟨c, rest, shape, bracket⟩ := found.bracket
    have cut : text.drop i ++ w = u.drop i ++ c :: (rest ++ (v ++ w)) := by
      rw [found.shape, List.drop_append_of_le_length (by omega), shape]
      simp
    have sized : (text.drop i).length = (u.drop i).length + t.length + v.length := by
      rw [found.shape, List.length_drop, List.length_drop]
      simp only [List.length_append]
      omega
    rw [cut] at starts
    have nonempty : u.drop i ≠ [] := by
      apply List.ne_nil_of_length_pos
      rw [List.length_drop]
      omega
    obtain ⟨m, member, matched⟩ := spelled_inside starts nonempty (by omega)
    have same := folded_functional c m '<' matched bracket
    exact (mark_of_mem also).once (same ▸ member)

/-- What follows a text without tags makes no tag before the part that the scrubber keeps. -/
theorem Quiet.append (quiet : Quiet inside text)
    (longest : Longest ((marks inside).map (·.1)) text kept) (shape : text = u ++ kept)
    (w : List Char) {i : Nat} (below : i < u.length) :
    tagAt folded inside ((text ++ w).drop i) = none := by
  rw [tagAt_eq_none]
  intro other also
  have inText : i ≤ text.length := by
    rw [shape, List.length_append]
    omega
  rw [List.drop_append_of_le_length inText]
  apply Bool.eq_false_iff.mpr
  intro starts
  by_cases fits : other.1.length ≤ (text.drop i).length
  · rw [spelled_append fits, tagAt_eq_none.mp (quiet i) other also] at starts
    cases starts
  · have partly := spelled_take starts (by omega)
    have longer : kept.length < (text.drop i).length := by
      rw [List.length_drop, shape, List.length_append]
      omega
    rw [longest (text.take i) (text.drop i) (List.take_append_drop i text).symm longer other.1
      (List.mem_map_of_mem also) (by omega)] at partly
    cases partly

/-! ## The reading of a longer text -/

theorem FirstTag.read (found : FirstTag inside text u t v mark) (w : List Char) :
    read folded inside 0 (text ++ w) =
      u.map (fun c => (c, plainPart inside)) ++
        (t.map (fun c => (c, Part.markup)) ++ read folded mark.2 0 (v ++ w)) := by
  have shape : text ++ w = u ++ (t ++ (v ++ w)) := by
    rw [found.shape]
    simp
  have first : ∀ i < u.length, Security.tagAt folded inside ((u ++ (t ++ (v ++ w))).drop i) =
      none := by
    intro i below
    rw [← shape]
    exact found.first_append w below
  rw [shape, read_plain first, read_tag found.nonempty (found.tagAt (v ++ w))]

theorem Quiet.read (quiet : Quiet inside text)
    (longest : Longest ((marks inside).map (·.1)) text kept) (shape : text = u ++ kept)
    (w : List Char) :
    read folded inside 0 (text ++ w) =
      u.map (fun c => (c, plainPart inside)) ++ read folded inside 0 (kept ++ w) := by
  have whole : text ++ w = u ++ (kept ++ w) := by
    rw [shape, List.append_assoc]
  have plain : ∀ i < u.length, tagAt folded inside ((u ++ (kept ++ w)).drop i) = none := by
    intro i below
    rw [← whole]
    exact quiet.append longest shape w below
  rw [whole, read_plain plain]

/-- The reading of a text without tags. -/
theorem Quiet.read_all (quiet : Quiet inside text) :
    Security.read folded inside 0 text = text.map fun c => (c, plainPart inside) := by
  have plain := @read_plain folded inside text [] fun i _ => by
    rw [List.append_nil]
    exact quiet i
  rw [List.append_nil] at plain
  simpa [Security.read] using plain

theorem Quiet.suffix (quiet : Quiet inside text) (shape : text = u ++ kept) :
    Quiet inside kept := by
  intro i
  have here := quiet (u.length + i)
  rwa [shape, ← List.drop_drop, List.drop_left] at here

end SherryAgent.Contracts.Security
