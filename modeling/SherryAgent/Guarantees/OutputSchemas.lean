import Mathlib.Logic.Relation
import SherryAgent.Source.PyText
import SherryAgent.Source.Subagent.OutputSchema

/-!
# The output schema of a sub-agent

- `accepts_iff`: a value is accepted exactly when it is valid for the schema as the check reads it,
  where the two notions of type do not part
- `bare_properties_reject`: a text against a schema that has only `properties`
- `untyped_accepts`: an empty object against a schema that has only `required`
-/

namespace SherryAgent.Guarantees.OutputSchemas

open SherryAgent.Source SherryAgent.Source.Subagent

variable {runtime : SchemaRuntime} {schema sub : Schema} {value part : Json}
  {fields : List (String × Json)} {path : String}

/-! ## Validity -/

/-- A float without a fractional part: Python writes it with `.0` or with a positive exponent. -/
def isWhole (repr : String) : Bool :=
  ".0".toList.isSuffixOf repr.toList || PyText.contains "e+" repr

/-- The types of JSON Schema: a boolean is no number, and a whole float is an integer. -/
def hasType : SchemaType → Json → Bool
  | .object, .obj _ => true
  | .array, .arr _ => true
  | .string, .str _ => true
  | .number, .int _ => true
  | .number, .float _ => true
  | .integer, .int _ => true
  | .integer, .float repr => isWhole repr
  | .boolean, .bool _ => true
  | _, _ => false

def Matches (runtime : SchemaRuntime) (pattern key : String) : Prop :=
  ∃ search, runtime.search pattern = some search ∧ search key = true

/-- The key is named in `properties`. -/
def Named (schema : Schema) (key : String) : Prop :=
  key ∈ (schema.properties.getD []).map (·.1)

/-- The schemas that a schema applies to the parts of a value. -/
inductive Applied (runtime : SchemaRuntime) : Schema → Json → Schema → Json → Prop where
  | property {schema sub : Schema} {fields : List (String × Json)} {part : Json} {name : String}
      (listed : (name, sub) ∈ schema.properties.getD [])
      (present : valueAt fields name = some part) :
      Applied runtime schema (.obj fields) sub part
  | pattern {schema sub : Schema} {fields : List (String × Json)} {part : Json}
      {pattern key : String} (listed : (pattern, sub) ∈ schema.patternProperties)
      (entry : (key, part) ∈ fields) (found : Matches runtime pattern key) :
      Applied runtime schema (.obj fields) sub part
  | item {schema sub : Schema} {values : List Json} {part : Json}
      (declared : schema.items = some sub) (member : part ∈ values) :
      Applied runtime schema (.arr values) sub part

/-- The keywords of a schema that are about the value itself. -/
structure Keywords (runtime : SchemaRuntime) (schema : Schema) (value : Json) : Prop where
  typed : ∀ schemaType, schema.type = some schemaType → hasType schemaType value = true
  present : ∀ fields, value = .obj fields →
    ∀ name ∈ schema.required, (valueAt fields name).isSome = true
  known : ∀ fields, value = .obj fields → schema.closed = true → ∀ field ∈ fields,
    Named schema field.1 ∨ ∃ sub ∈ schema.patternProperties, Matches runtime sub.1 field.1

/-- Validity under JSON Schema, where every schema is first read by `reads`. -/
inductive Valid (runtime : SchemaRuntime) (reads : Schema → Schema) : Schema → Json → Prop where
  | intro {schema : Schema} {value : Json} (keywords : Keywords runtime (reads schema) value)
      (below : ∀ sub part, Applied runtime (reads schema) value sub part →
        Valid runtime reads sub part) :
      Valid runtime reads schema value

/-! ## How the check reads a schema -/

/-- Without a type, a schema is an object schema if it has `properties`, and says nothing if it has
none. -/
def asRead (schema : Schema) : Schema :=
  match schema.type, schema.properties with
  | none, some _ => { schema with type := some .object }
  | none, none => {}
  | some _, _ => schema

/-- Where Python's types part from those of the schema: a boolean under a number type, a whole float
under `integer`, a key that only a pattern allows, and `properties` beside another type. -/
inductive Slip (runtime : SchemaRuntime) : Schema → Json → Prop where
  | boolean {schema : Schema} {value : Bool}
      (number : schema.type = some .number ∨ schema.type = some .integer) :
      Slip runtime schema (.bool value)
  | whole {schema : Schema} {repr : String} (integer : schema.type = some .integer)
      (noFraction : isWhole repr = true) : Slip runtime schema (.float repr)
  | patterned {schema : Schema} {fields : List (String × Json)} {field : String × Json}
      {sub : String × Schema} (closed : schema.closed = true) (member : field ∈ fields)
      (unnamed : ¬Named schema field.1) (listed : sub ∈ schema.patternProperties)
      (found : Matches runtime sub.1 field.1) : Slip runtime schema (.obj fields)
  | beside {schema : Schema} {value : Json} {schemaType : SchemaType}
      (declared : schema.properties.isSome = true) (typed : schema.type = some schemaType)
      (other : schemaType ≠ .object) : Slip runtime schema value

def PropertiesHold (holds : Schema → Json → Prop) (properties : List (String × Schema))
    (fields : List (String × Json)) : Prop :=
  ∀ property ∈ properties, ∀ part, valueAt fields property.1 = some part → holds property.2 part

def PatternHolds (runtime : SchemaRuntime) (holds : Schema → Json → Prop)
    (pattern : String × Schema) (fields : List (String × Json)) : Prop :=
  ∀ field ∈ fields, Matches runtime pattern.1 field.1 → holds pattern.2 field.2

/-- The part that the check comes to next: it goes by the required fields, `properties`, the other
keys and the patterns, in this order, and stops at the first error. -/
inductive Comes (runtime : SchemaRuntime) (holds : Schema → Json → Prop) :
    Schema → Json → Schema → Json → Prop where
  | property {schema sub : Schema} {fields : List (String × Json)} {part : Json} {name : String}
      {before after : List (String × Schema)}
      (listed : schema.properties.getD [] = before ++ (name, sub) :: after)
      (present : valueAt fields name = some part)
      (required : ∀ name ∈ schema.required, (valueAt fields name).isSome = true)
      (earlier : PropertiesHold holds before fields) :
      Comes runtime holds schema (.obj fields) sub part
  | pattern {schema sub : Schema} {front back : List (String × Json)} {part : Json}
      {pattern key : String} {before after : List (String × Schema)}
      (listed : schema.patternProperties = before ++ (pattern, sub) :: after)
      (found : Matches runtime pattern key)
      (required : ∀ name ∈ schema.required,
        (valueAt (front ++ (key, part) :: back) name).isSome = true)
      (properties : PropertiesHold holds (schema.properties.getD [])
        (front ++ (key, part) :: back))
      (named : schema.closed = true → ∀ field ∈ front ++ (key, part) :: back,
        Named schema field.1)
      (earlier : ∀ other ∈ before, PatternHolds runtime holds other (front ++ (key, part) :: back))
      (passed : PatternHolds runtime holds (pattern, sub) front) :
      Comes runtime holds schema (.obj (front ++ (key, part) :: back)) sub part
  | item {schema sub : Schema} {front back : List Json} {part : Json}
      (declared : schema.items = some sub) (earlier : ∀ other ∈ front, holds sub other) :
      Comes runtime holds schema (.arr (front ++ part :: back)) sub part

/-- The pairs of a schema and a part that the check comes to. -/
def Reaches (runtime : SchemaRuntime) : Schema × Json → Schema × Json → Prop :=
  Relation.ReflTransGen fun here there =>
    Comes runtime (Valid runtime asRead) (asRead here.1) here.2 there.1 there.2

/-! ## The loops -/

theorem requiredError_eq_none {required : List String} :
    requiredError required fields path = none ↔
      ∀ name ∈ required, (valueAt fields name).isSome = true := by
  unfold requiredError
  rw [List.findSome?_eq_none_iff]
  apply forall₂_congr
  intro name _
  split <;> simp_all

theorem fieldsError_eq_none {properties : List (String × Schema)} :
    fieldsError runtime properties fields path = none ↔
      ∀ property ∈ properties, ∀ part, valueAt fields property.1 = some part →
        validateValue runtime property.2 part (path ++ "." ++ property.1) = none := by
  induction properties with
  | nil => simp [fieldsError]
  | cons first rest ih =>
    obtain ⟨name, sub⟩ := first
    rw [fieldsError, Option.or_eq_none_iff, ih, Option.bind_eq_none_iff, List.forall_mem_cons]

theorem propertiesError_eq_none {properties : Option (List (String × Schema))} :
    propertiesError runtime properties fields path = none ↔
      ∀ property ∈ properties.getD [], ∀ part, valueAt fields property.1 = some part →
        validateValue runtime property.2 part (path ++ "." ++ property.1) = none := by
  cases properties with
  | none => simp [propertiesError]
  | some properties => rw [propertiesError, fieldsError_eq_none, Option.getD_some]

theorem patternsError_eq_none {patterns : List (String × Schema)} :
    patternsError runtime patterns fields path = none ↔
      ∀ pattern ∈ patterns, ∀ field ∈ fields, Matches runtime pattern.1 field.1 →
        validateValue runtime pattern.2 field.2 (path ++ "." ++ field.1) = none := by
  induction patterns with
  | nil => simp [patternsError]
  | cons first rest ih =>
    obtain ⟨pattern, sub⟩ := first
    rw [patternsError, Option.or_eq_none_iff, ih, Option.bind_eq_none_iff, List.forall_mem_cons]
    apply and_congr_left
    intro _
    simp only [List.findSome?_eq_none_iff]
    constructor
    · rintro every field entry ⟨search, compiled, hit⟩
      have checked := every search compiled field entry
      rwa [if_pos hit] at checked
    · intro every search compiled field entry
      split
      · rename_i hit
        exact every field entry ⟨search, compiled, hit⟩
      · rfl

theorem additionalError_eq_none :
    additionalError runtime schema.closed schema.properties fields path = none ↔
      (schema.closed = true → ∀ field ∈ fields, Named schema field.1) := by
  unfold additionalError extraKeys Named
  simp

/-- A loop that stops at the first error decides what it is right about up to there. -/
theorem forall_iff_of_earlier {α : Type} {check holds : α → Prop} {entries : List α}
    (agrees : ∀ front entry back, entries = front ++ entry :: back →
      (∀ other ∈ front, holds other) → (check entry ↔ holds entry)) :
    (∀ entry ∈ entries, check entry) ↔ ∀ entry ∈ entries, holds entry := by
  induction entries with
  | nil => simp
  | cons first rest ih =>
    have head : check first ↔ holds first := agrees [] first rest rfl (by simp)
    rw [List.forall_mem_cons, List.forall_mem_cons, head]
    apply and_congr_right
    intro held
    apply ih
    rintro front entry back rfl earlier
    exact agrees (first :: front) entry back rfl (List.forall_mem_cons.mpr ⟨held, earlier⟩)

/-! ## One schema against one value -/

theorem validateValue_object
    (object : schema.type = some .object ∨ schema.properties.isSome = true) :
    validateValue runtime schema value path = none ↔
      ∃ fields, value = .obj fields ∧ requiredError schema.required fields path = none ∧
        propertiesError runtime schema.properties fields path = none ∧
        additionalError runtime schema.closed schema.properties fields path = none ∧
        patternsError runtime schema.patternProperties fields path = none := by
  cases schema with
  | mk type properties required items closed patternProperties =>
    unfold validateValue
    rw [if_pos object]
    cases value with
    | obj fields => simp [Option.or_eq_none_iff]
    | _ => simp

theorem validateValue_array (array : schema.type = some .array) (bare : schema.properties = none) :
    validateValue runtime schema value path = none ↔
      ∃ values, value = .arr values ∧ ∀ itemsSchema, schema.items = some itemsSchema →
        ∀ item ∈ values.zipIdx,
          validateValue runtime itemsSchema item.1 (path ++ "[" ++ toString item.2 ++ "]") =
            none := by
  cases schema with
  | mk type properties required items closed patternProperties =>
    subst array bare
    conv_lhs => unfold validateValue
    rw [if_neg (by simp)]
    cases value with
    | arr values => cases items <;> simp
    | _ => simp

theorem validateValue_scalar {scalar : SchemaType} (typed : schema.type = some scalar)
    (bare : schema.properties = none) (single : scalar ≠ .object ∧ scalar ≠ .array) :
    validateValue runtime schema value path = none ↔ isInstance scalar value = true := by
  cases schema with
  | mk type properties required items closed patternProperties =>
    subst typed bare
    unfold validateValue
    rw [if_neg (by simp [single.1])]
    cases scalar with
    | object => exact absurd rfl single.1
    | array => exact absurd rfl single.2
    | _ => simp

theorem validateValue_untyped (untyped : schema.type = none) (bare : schema.properties = none) :
    validateValue runtime schema value path = none := by
  cases schema with
  | mk type properties required items closed patternProperties =>
    subst untyped bare
    unfold validateValue
    rw [if_neg (by simp)]

theorem asRead_object (object : schema.type = some .object ∨ schema.properties.isSome = true)
    (clear : ¬Slip runtime schema value) :
    asRead schema = { schema with type := some .object } := by
  cases schema with
  | mk type properties required items closed patternProperties =>
    cases type with
    | none =>
      cases properties with
      | none => simp at object
      | some properties => rfl
    | some schemaType =>
      by_cases same : schemaType = .object
      · rw [same]
        rfl
      · have declared : properties.isSome = true := by simpa [same] using object
        exact absurd (Slip.beside declared rfl same) clear

theorem obj_of_hasType (typed : hasType .object value = true) : ∃ fields, value = .obj fields := by
  cases value with
  | obj fields => exact ⟨fields, rfl⟩
  | _ => cases typed

theorem arr_of_hasType (typed : hasType .array value = true) : ∃ values, value = .arr values := by
  cases value with
  | arr values => exact ⟨values, rfl⟩
  | _ => cases typed

section Step

variable {holds : Schema → Json → Prop}

/-- Validity of an object, in the order of the check. -/
theorem object_valid (typed : schema.type = some .object) :
    (Keywords runtime schema (.obj fields) ∧
        ∀ sub part, Applied runtime schema (.obj fields) sub part → holds sub part) ↔
      (∀ name ∈ schema.required, (valueAt fields name).isSome = true) ∧
        PropertiesHold holds (schema.properties.getD []) fields ∧
        (schema.closed = true → ∀ field ∈ fields, Named schema field.1 ∨
          ∃ sub ∈ schema.patternProperties, Matches runtime sub.1 field.1) ∧
        ∀ pattern ∈ schema.patternProperties, PatternHolds runtime holds pattern fields := by
  constructor
  · rintro ⟨keywords, children⟩
    refine ⟨keywords.present fields rfl, ?_, keywords.known fields rfl, ?_⟩
    · exact fun property listed part present => children _ part (.property listed present)
    · exact fun pattern listed field entry found => children _ _ (.pattern listed entry found)
  · rintro ⟨required, properties, known, patterns⟩
    constructor
    · constructor
      · intro schemaType declared
        rw [typed] at declared
        obtain rfl := Option.some.inj declared
        rfl
      · rintro _ ⟨⟩
        exact required
      · rintro _ ⟨⟩
        exact known
    · intro sub part applied
      cases applied with
      | property listed present => exact properties _ listed part present
      | pattern listed entry found => exact patterns _ listed _ entry found

theorem properties_step
    (required : ∀ name ∈ schema.required, (valueAt fields name).isSome = true)
    (below : ∀ sub part, Comes runtime holds schema (.obj fields) sub part →
      ∀ path, validateValue runtime sub part path = none ↔ holds sub part) :
    propertiesError runtime schema.properties fields path = none ↔
      PropertiesHold holds (schema.properties.getD []) fields := by
  rw [propertiesError_eq_none]
  apply forall_iff_of_earlier
  intro before property after listed earlier
  apply forall₂_congr
  intro part present
  exact below _ part (.property listed present required earlier) _

theorem additional_step (clear : ¬Slip runtime schema (.obj fields)) :
    additionalError runtime schema.closed schema.properties fields path = none ↔
      (schema.closed = true → ∀ field ∈ fields, Named schema field.1 ∨
        ∃ sub ∈ schema.patternProperties, Matches runtime sub.1 field.1) := by
  rw [additionalError_eq_none]
  apply forall_congr'
  intro closed
  apply forall₂_congr
  intro field member
  constructor
  · exact Or.inl
  · rintro (named | ⟨sub, listed, found⟩)
    · exact named
    · by_contra unnamed
      exact clear (.patterned closed member unnamed listed found)

theorem patterns_step
    (required : ∀ name ∈ schema.required, (valueAt fields name).isSome = true)
    (properties : PropertiesHold holds (schema.properties.getD []) fields)
    (named : schema.closed = true → ∀ field ∈ fields, Named schema field.1)
    (below : ∀ sub part, Comes runtime holds schema (.obj fields) sub part →
      ∀ path, validateValue runtime sub part path = none ↔ holds sub part) :
    patternsError runtime schema.patternProperties fields path = none ↔
      ∀ pattern ∈ schema.patternProperties, PatternHolds runtime holds pattern fields := by
  rw [patternsError_eq_none]
  apply forall_iff_of_earlier
  intro before pattern after listed earlier
  apply forall_iff_of_earlier
  rintro front field back rfl passed
  apply forall_congr'
  intro found
  exact below _ field.2 (.pattern listed found required properties named earlier passed) _

/-- The part of the check behind the required fields. -/
theorem parts_step (clear : ¬Slip runtime schema (.obj fields))
    (required : ∀ name ∈ schema.required, (valueAt fields name).isSome = true)
    (below : ∀ sub part, Comes runtime holds schema (.obj fields) sub part →
      ∀ path, validateValue runtime sub part path = none ↔ holds sub part) :
    (propertiesError runtime schema.properties fields path = none ∧
      additionalError runtime schema.closed schema.properties fields path = none ∧
      patternsError runtime schema.patternProperties fields path = none) ↔
      PropertiesHold holds (schema.properties.getD []) fields ∧
        (schema.closed = true → ∀ field ∈ fields, Named schema field.1 ∨
          ∃ sub ∈ schema.patternProperties, Matches runtime sub.1 field.1) ∧
        ∀ pattern ∈ schema.patternProperties, PatternHolds runtime holds pattern fields := by
  rw [properties_step required below]
  apply and_congr_right
  intro properties
  constructor
  · rintro ⟨additional, patterns⟩
    have named := additionalError_eq_none.mp additional
    exact ⟨(additional_step clear).mp additional,
      (patterns_step required properties named below).mp patterns⟩
  · rintro ⟨known, patterns⟩
    have additional := (@additional_step runtime schema fields path clear).mpr known
    have named := additionalError_eq_none.mp additional
    exact ⟨additional, (patterns_step required properties named below).mpr patterns⟩

/-- Read as an object schema, a schema does not slip at an object where it did not before. -/
theorem clear_of_object (clear : ¬Slip runtime schema (.obj fields)) :
    ¬Slip runtime { schema with type := some .object } (.obj fields) := by
  intro slip
  cases slip with
  | patterned closed member unnamed listed found =>
    exact clear (.patterned closed member unnamed listed found)
  | beside declared typed other => exact other (Option.some.inj typed).symm

theorem object_step (object : schema.type = some .object ∨ schema.properties.isSome = true)
    (clear : ¬Slip runtime schema value)
    (below : ∀ sub part, Comes runtime holds (asRead schema) value sub part →
      ∀ path, validateValue runtime sub part path = none ↔ holds sub part) :
    validateValue runtime schema value path = none ↔
      Keywords runtime (asRead schema) value ∧
        ∀ sub part, Applied runtime (asRead schema) value sub part → holds sub part := by
  rw [validateValue_object object]
  rw [asRead_object object clear] at below ⊢
  constructor
  · rintro ⟨fields, rfl, required, parts⟩
    rw [requiredError_eq_none] at required
    rw [object_valid rfl]
    exact ⟨required, (parts_step (clear_of_object clear) required below).mp parts⟩
  · rintro valid
    obtain ⟨fields, rfl⟩ := obj_of_hasType (valid.1.typed .object rfl)
    obtain ⟨required, parts⟩ := (object_valid rfl).mp valid
    exact ⟨fields, rfl, requiredError_eq_none.mpr required,
      (parts_step (clear_of_object clear) required below).mpr parts⟩

/-- Validity of an array. -/
theorem array_valid {values : List Json} (array : schema.type = some .array) :
    (Keywords runtime schema (.arr values) ∧
        ∀ sub part, Applied runtime schema (.arr values) sub part → holds sub part) ↔
      ∀ sub, schema.items = some sub → ∀ part ∈ values, holds sub part := by
  constructor
  · rintro ⟨-, children⟩ sub declared part member
    exact children sub part (.item declared member)
  · intro items
    constructor
    · constructor
      · intro schemaType typed
        rw [array] at typed
        obtain rfl := Option.some.inj typed
        rfl
      · rintro fields ⟨⟩
      · rintro fields ⟨⟩
    · intro sub part applied
      cases applied with
      | item declared member => exact items sub declared part member

theorem items_step {values : List Json} (declared : schema.items = some sub)
    (below : ∀ sub part, Comes runtime holds schema (.arr values) sub part →
      ∀ path, validateValue runtime sub part path = none ↔ holds sub part) :
    (∀ item ∈ values.zipIdx,
        validateValue runtime sub item.1 (path ++ "[" ++ toString item.2 ++ "]") = none) ↔
      ∀ part ∈ values, holds sub part := by
  have parts : (∀ part ∈ values, holds sub part) ↔ ∀ item ∈ values.zipIdx, holds sub item.1 := by
    conv_lhs => rw [← List.zipIdx_map_fst 0 values]
    exact List.forall_mem_map
  rw [parts]
  apply forall_iff_of_earlier
  intro front item back split_here earlier
  have halves : values = front.map (·.1) ++ item.1 :: back.map (·.1) := by
    rw [← List.zipIdx_map_fst 0 values, split_here, List.map_append, List.map_cons]
  refine below sub item.1 ?_ _
  rw [halves]
  exact .item declared (List.forall_mem_map.mpr earlier)

theorem array_step (array : schema.type = some .array) (bare : schema.properties = none)
    (below : ∀ sub part, Comes runtime holds schema value sub part →
      ∀ path, validateValue runtime sub part path = none ↔ holds sub part) :
    validateValue runtime schema value path = none ↔
      Keywords runtime schema value ∧
        ∀ sub part, Applied runtime schema value sub part → holds sub part := by
  rw [validateValue_array array bare]
  constructor
  · rintro ⟨values, rfl, checked⟩
    rw [array_valid array]
    intro sub declared
    exact (items_step declared below).mp (checked sub declared)
  · rintro valid
    obtain ⟨values, rfl⟩ := arr_of_hasType (valid.1.typed .array array)
    refine ⟨values, rfl, ?_⟩
    intro sub declared
    exact (items_step declared below).mpr ((array_valid array).mp valid sub declared)

theorem isInstance_eq_hasType {scalar : SchemaType} (typed : schema.type = some scalar)
    (single : scalar ≠ .object ∧ scalar ≠ .array) (clear : ¬Slip runtime schema value) :
    isInstance scalar value = hasType scalar value := by
  cases scalar with
  | object => exact absurd rfl single.1
  | array => exact absurd rfl single.2
  | string => cases value <;> rfl
  | number =>
    cases value with
    | bool value => exact absurd (.boolean (.inl typed)) clear
    | _ => rfl
  | integer =>
    cases value with
    | bool value => exact absurd (.boolean (.inr typed)) clear
    | float repr =>
      have fraction : isWhole repr = false := by
        rw [Bool.eq_false_iff]
        exact fun whole => clear (.whole typed whole)
      exact fraction.symm
    | _ => rfl
  | boolean => cases value <;> rfl

/-- A value of a scalar type has no parts. -/
theorem not_applied_of_scalar {scalar : SchemaType} (single : scalar ≠ .object ∧ scalar ≠ .array)
    (typed : hasType scalar value = true) : ¬Applied runtime schema value sub part := by
  intro applied
  cases scalar with
  | object => exact single.1 rfl
  | array => exact single.2 rfl
  | _ => cases applied <;> cases typed

theorem scalar_step {scalar : SchemaType} (typed : schema.type = some scalar)
    (bare : schema.properties = none) (single : scalar ≠ .object ∧ scalar ≠ .array)
    (clear : ¬Slip runtime schema value) :
    validateValue runtime schema value path = none ↔
      Keywords runtime schema value ∧
        ∀ sub part, Applied runtime schema value sub part → holds sub part := by
  rw [validateValue_scalar typed bare single, isInstance_eq_hasType typed single clear]
  constructor
  · intro right
    have no_fields : ∀ fields, value ≠ .obj fields := by
      rintro fields rfl
      cases scalar with
      | object => exact single.1 rfl
      | _ => cases right
    constructor
    · constructor
      · intro schemaType declared
        rw [typed] at declared
        obtain rfl := Option.some.inj declared
        exact right
      · exact fun fields same => absurd same (no_fields fields)
      · exact fun fields same => absurd same (no_fields fields)
    · exact fun sub part applied => absurd applied (not_applied_of_scalar single right)
  · exact fun valid => valid.1.typed scalar typed

theorem untyped_step (untyped : schema.type = none) (bare : schema.properties = none) :
    validateValue runtime schema value path = none ↔
      Keywords runtime (asRead schema) value ∧
        ∀ sub part, Applied runtime (asRead schema) value sub part → holds sub part := by
  have empty : asRead schema = {} := by
    unfold asRead
    rw [untyped, bare]
  rw [validateValue_untyped untyped bare, empty]
  refine iff_of_true rfl ⟨?_, ?_⟩
  · constructor <;> simp
  · intro sub part applied
    cases applied with
    | property listed present => cases listed
    | pattern listed entry found => cases listed
    | item declared member => cases declared

/-- The check decides the keywords of one schema and leaves the parts to their schemas. -/
theorem accepts_step (clear : ¬Slip runtime schema value)
    (below : ∀ sub part, Comes runtime holds (asRead schema) value sub part →
      ∀ path, validateValue runtime sub part path = none ↔ holds sub part) :
    validateValue runtime schema value path = none ↔
      Keywords runtime (asRead schema) value ∧
        ∀ sub part, Applied runtime (asRead schema) value sub part → holds sub part := by
  by_cases object : schema.type = some .object ∨ schema.properties.isSome = true
  · exact object_step object clear below
  · rw [not_or] at object
    have bare : schema.properties = none := by simpa using object.2
    cases typed : schema.type with
    | none => exact untyped_step typed bare
    | some schemaType =>
      have same : asRead schema = schema := by
        unfold asRead
        rw [typed]
      rw [same] at below ⊢
      by_cases array : schemaType = .array
      · subst array
        exact array_step typed bare below
      · have single : schemaType ≠ .object ∧ schemaType ≠ .array :=
          ⟨fun is_object => object.1 (by rw [typed, is_object]), array⟩
        exact scalar_step typed bare single clear

end Step

/-! ## Nested schemas -/

theorem mem_of_valueAt {key : String} (found : valueAt fields key = some part) :
    ∃ name, (name, part) ∈ fields := by
  obtain ⟨field, listed, rfl⟩ := Option.map_eq_some_iff.mp found
  exact ⟨field.1, List.mem_of_find?_eq_some listed⟩

theorem sizeOf_field {key : String} (member : (key, part) ∈ fields) :
    sizeOf part < sizeOf (Json.obj fields) := by
  have entry := List.sizeOf_lt_of_mem member
  rw [Prod.mk.sizeOf_spec] at entry
  rw [Json.obj.sizeOf_spec]
  omega

/-- A schema applies to smaller parts only. -/
theorem sizeOf_applied (applied : Applied runtime schema value sub part) :
    sizeOf part < sizeOf value := by
  cases applied with
  | property listed present =>
    obtain ⟨name, member⟩ := mem_of_valueAt present
    exact sizeOf_field member
  | pattern listed entry found => exact sizeOf_field entry
  | item declared member =>
    have entry := List.sizeOf_lt_of_mem member
    rw [Json.arr.sizeOf_spec]
    omega

theorem applied_of_comes {holds : Schema → Json → Prop}
    (comes : Comes runtime holds schema value sub part) :
    Applied runtime schema value sub part := by
  cases comes with
  | property listed present => exact .property (by rw [listed]; simp) present
  | pattern listed found => exact .pattern (by rw [listed]; simp) (by simp) found
  | item declared => exact .item declared (by simp)

theorem valid_iff {reads : Schema → Schema} : Valid runtime reads schema value ↔
    Keywords runtime (reads schema) value ∧
      ∀ sub part, Applied runtime (reads schema) value sub part → Valid runtime reads sub part := by
  constructor
  · rintro ⟨keywords, below⟩
    exact ⟨keywords, below⟩
  · rintro ⟨keywords, below⟩
    exact .intro keywords below

/-- The check accepts exactly the values that are valid for the schema as it reads it, if none of
the pairs that it comes to is one where Python's types part from those of the schema. -/
theorem accepts_iff (runtime : SchemaRuntime) (schema : Schema) (value : Json) (path : String)
    (clear : ∀ reached, Reaches runtime (schema, value) reached →
      ¬Slip runtime reached.1 reached.2) :
    validateValue runtime schema value path = none ↔ Valid runtime asRead schema value := by
  rw [valid_iff]
  apply accepts_step (clear (schema, value) .refl)
  intro sub part comes path
  have smaller := sizeOf_applied (applied_of_comes comes)
  exact accepts_iff runtime sub part path fun reached reaches =>
    clear reached (.head comes reaches)
termination_by sizeOf value

/-- Patterns without operators, which `re.search` finds as they stand. -/
def plainRuntime : SchemaRuntime :=
  { loads := fun _ => .error "Expecting value"
    search := fun pattern => some (PyText.contains pattern)
    reprSet := fun keys => keys.foldr (· ++ ", " ++ ·) "" }

def textSchema : Schema := { type := some .string }

def namedSchema : Schema :=
  { type := some .object, properties := some [("name", textSchema)], required := ["name"]
    closed := true }

def namedValue : Json := .obj [("name", .str "x")]

theorem reaches_named {reached : Schema × Json}
    (reaches : Reaches plainRuntime (namedSchema, namedValue) reached) :
    reached = (namedSchema, namedValue) ∨ reached = (textSchema, .str "x") := by
  induction reaches with
  | refl => exact .inl rfl
  | @tail here there _ comes earlier =>
    obtain ⟨sub, part⟩ := there
    have applied := applied_of_comes comes
    rcases earlier with rfl | rfl
    · cases applied with
      | property listed present =>
        obtain ⟨rfl, rfl⟩ := by simpa [asRead, namedSchema] using listed
        obtain rfl : .str "x" = part := by simpa [valueAt] using present
        exact .inr rfl
      | pattern listed entry found => cases listed
    · cases applied

/-- An object with its one named field. -/
theorem named_value_valid : Valid plainRuntime asRead namedSchema namedValue := by
  refine (accepts_iff plainRuntime namedSchema namedValue "root" ?_).mp (by decide)
  intro reached reaches slip
  rcases reaches_named reaches with rfl | rfl
  · cases slip with
    | patterned closed member unnamed listed found => cases listed
    | beside declared typed other => exact other (Option.some.inj typed).symm
  · cases slip with
    | beside declared typed other => cases declared

/-- A text is valid for a schema that has only `properties`, and is rejected. -/
theorem bare_properties_reject :
    ¬(validateValue plainRuntime { properties := some [] } (.str "abc") "root" = none ↔
      Valid plainRuntime id { properties := some [] } (.str "abc")) := by
  intro agrees
  have valid : Valid plainRuntime id { properties := some [] } (.str "abc") := by
    rw [valid_iff]
    refine ⟨?_, ?_⟩
    · constructor
      · intro schemaType typed
        cases typed
      · intro fields same
        cases same
      · intro fields same
        cases same
    · intro sub part applied
      cases applied
  exact absurd (agrees.mpr valid) (by decide)

/-- An object without the required field is not valid for a schema without a type, and is
accepted. -/
theorem untyped_accepts :
    ¬(validateValue plainRuntime { required := ["name"] } (.obj []) "root" = none ↔
      Valid plainRuntime id { required := ["name"] } (.obj [])) := by
  intro agrees
  obtain ⟨keywords, -⟩ := valid_iff.mp (agrees.mp rfl)
  exact absurd (keywords.present [] rfl "name" List.mem_cons_self) (by decide)

end SherryAgent.Guarantees.OutputSchemas
