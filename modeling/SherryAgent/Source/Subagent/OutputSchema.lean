import SherryAgent.Source.Json

/-!
# The output schema of a sub-agent

`agent/tools/subagent/swarm/collector.py`: the check of a child's result against the schema of its
task. A schema is the dict of the keywords that the check reads; `json.loads`, `re.compile` and the
`repr` of a set of keys are parameters.
-/

namespace SherryAgent.Source.Subagent

inductive SchemaType where
  | object
  | array
  | string
  | number
  | integer
  | boolean
  deriving DecidableEq

def SchemaType.name : SchemaType → String
  | .object => "object"
  | .array => "array"
  | .string => "string"
  | .number => "number"
  | .integer => "integer"
  | .boolean => "boolean"

/-- `closed` is `additionalProperties: false`. An absent `required` or `patternProperties` is read as
the empty one, and an empty `items` as an absent one. -/
structure Schema where
  type : Option SchemaType := none
  properties : Option (List (String × Schema)) := none
  required : List String := []
  items : Option Schema := none
  closed : Bool := false
  patternProperties : List (String × Schema) := []

/-- What the check takes from Python: `json.loads` with the text of its error, `re.compile(...).search`
(`none` for `re.error`), and `repr` of a set. -/
structure SchemaRuntime where
  loads : String → Except String Json
  search : String → Option (String → Bool)
  reprSet : List String → String

/-- `type(value).__name__`. -/
def typeName : Json → String
  | .null => "NoneType"
  | .bool _ => "bool"
  | .int _ => "int"
  | .float _ => "float"
  | .str _ => "str"
  | .arr _ => "list"
  | .obj _ => "dict"

/-- `isinstance(value, type_map[schema_type])`; a Python `bool` is an `int`. -/
def isInstance : SchemaType → Json → Bool
  | .string, .str _ => true
  | .number, .int _ => true
  | .number, .float _ => true
  | .number, .bool _ => true
  | .integer, .int _ => true
  | .integer, .bool _ => true
  | .boolean, .bool _ => true
  | _, _ => false

/-- `value[key]`, if the key is there. -/
def valueAt (fields : List (String × Json)) (key : String) : Option Json :=
  (fields.find? fun field => field.1 == key).map (·.2)

def expectedError (path : String) (schemaType : SchemaType) (value : Json) : String :=
  path ++ ": expected " ++ schemaType.name ++ ", got " ++ typeName value

def missingError (path fieldName : String) : String :=
  path ++ ": missing required field '" ++ fieldName ++ "'"

def requiredError (required : List String) (fields : List (String × Json)) (path : String) :
    Option String :=
  required.findSome? fun fieldName =>
    if (valueAt fields fieldName).isSome then none else some (missingError path fieldName)

/-- The keys that `properties` does not name. -/
def extraKeys (properties : Option (List (String × Schema))) (fields : List (String × Json)) :
    List String :=
  (fields.map (·.1)).filter fun key => !((properties.getD []).map (·.1)).contains key

def additionalError (runtime : SchemaRuntime) (closed : Bool)
    (properties : Option (List (String × Schema))) (fields : List (String × Json))
    (path : String) : Option String :=
  let extra := extraKeys properties fields
  if closed && !extra.isEmpty then
    some (path ++ ": additional properties not allowed: " ++ runtime.reprSet extra)
  else none

mutual

/-- `_validate_value_against_schema`: the error, or `none` for a valid value. -/
def validateValue (runtime : SchemaRuntime) : Schema → Json → String → Option String
  | ⟨type, properties, required, items, closed, patternProperties⟩, value, path =>
    if type = some .object ∨ properties.isSome then
      match value with
      | .obj fields =>
        (requiredError required fields path).or
          ((propertiesError runtime properties fields path).or
            ((additionalError runtime closed properties fields path).or
              (patternsError runtime patternProperties fields path)))
      | value => some (expectedError path .object value)
    else
      match type with
      | some .array =>
        match value with
        | .arr values =>
          match items with
          | some itemsSchema =>
            values.zipIdx.findSome? fun item =>
              validateValue runtime itemsSchema item.1 (path ++ "[" ++ toString item.2 ++ "]")
          | none => none
        | value => some (expectedError path .array value)
      | some scalar =>
        if isInstance scalar value then none else some (expectedError path scalar value)
      | none => none

/-- The loop over `properties`. -/
def propertiesError (runtime : SchemaRuntime) :
    Option (List (String × Schema)) → List (String × Json) → String → Option String
  | none, _, _ => none
  | some properties, fields, path => fieldsError runtime properties fields path

def fieldsError (runtime : SchemaRuntime) :
    List (String × Schema) → List (String × Json) → String → Option String
  | [], _, _ => none
  | (fieldName, fieldSchema) :: properties, fields, path =>
    ((valueAt fields fieldName).bind fun value =>
      validateValue runtime fieldSchema value (path ++ "." ++ fieldName)).or
        (fieldsError runtime properties fields path)

/-- The loop over `patternProperties`; a pattern that does not compile is passed over. -/
def patternsError (runtime : SchemaRuntime) :
    List (String × Schema) → List (String × Json) → String → Option String
  | [], _, _ => none
  | (pattern, patSchema) :: patterns, fields, path =>
    ((runtime.search pattern).bind fun search =>
      fields.findSome? fun field =>
        if search field.1 then validateValue runtime patSchema field.2 (path ++ "." ++ field.1)
        else none).or
      (patternsError runtime patterns fields path)

end

/-- `validate_structured_output`. -/
def validateStructuredOutput (runtime : SchemaRuntime) (resultText : Option String)
    (outputSchema : Option Schema) : Option String :=
  match outputSchema, resultText with
  | some schema, some text =>
    match runtime.loads text with
    | .error reason => some ("Output is not valid JSON: " ++ reason)
    | .ok parsed => validateValue runtime schema parsed "root"
  | _, _ => none

end SherryAgent.Source.Subagent
