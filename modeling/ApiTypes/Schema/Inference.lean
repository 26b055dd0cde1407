import ApiTypes.Failure
import ApiTypes.Text.Split

/-!
# Types that keywords imply

A schema that declares no type often implies one: keywords of objects come
first, then keywords of arrays, then the kind that all values of `enum` share,
then keywords of texts and keywords of numbers. Only an object can be given the
type that it implies.
-/

namespace ApiTypes.Schema

/-- Keywords that imply an object. -/
def objectKeywords : List String :=
  ["properties", "additionalProperties", "required", "minProperties", "maxProperties"]

/-- Keywords that imply an array. -/
def arrayKeywords : List String := ["items", "minItems", "maxItems", "uniqueItems"]

/-- Keywords that imply a text. -/
def stringKeywords : List String := ["format", "pattern", "minLength", "maxLength"]

/-- Keywords that imply a number. -/
def numberKeywords : List String :=
  ["minimum", "maximum", "exclusiveMinimum", "exclusiveMaximum", "multipleOf"]

/-- Whether a value is a truth value. -/
def isBoolean : Json → Bool
  | .bool _ => true
  | _ => false

/-- Whether a value is a whole number. -/
def isInteger : Json → Bool
  | .int _ => true
  | _ => false

/-- Whether a value is a number. -/
def isNumber : Json → Bool
  | .int _ => true
  | .float _ => true
  | _ => false

/-- Whether a value is a text. -/
def isString : Json → Bool
  | .str _ => true
  | _ => false

/-- The type that all listed values share. -/
def sharedType? (values : List Json) : Option String :=
  if values.isEmpty then none
  else if values.all isBoolean then some "boolean"
  else if values.all isInteger then some "integer"
  else if values.all isNumber then some "number"
  else if values.all isString then some "string"
  else none

/-- The type that the values of `enum` share. -/
def enumType? (raw : Members) : Option String :=
  match raw.get? "enum" with
  | some (.arr values) => sharedType? values
  | _ => none

/-- The type that the keywords of a schema imply. -/
def impliedType? (raw : Members) : Option String :=
  if objectKeywords.any raw.has then some "object"
  else if arrayKeywords.any raw.has then some "array"
  else match enumType? raw with
    | some type => some type
    | none =>
      if stringKeywords.any raw.has then some "string"
      else if numberKeywords.any raw.has then some "number"
      else none

/-- The schema with the type that its keywords imply. -/
def withImpliedType? (raw : Members) : Option Members :=
  (impliedType? raw).map fun type => Members.put "type" (.str type) raw

/-- Whether a keyword is found in a value: as a key of an object, an item of a
list or a part of a text. -/
def mentions (keyword : String) : Json → Except Failure Bool
  | .obj members => .ok (Members.has members keyword)
  | .arr items => .ok (items.any (Json.isText keyword))
  | .str text => .ok (Text.occursIn keyword.toList text.toList)
  | _ => .error (.malformed .notIterable)

/-- The members of a schema of which the implied type is asked for. -/
def inferable : Json → Except Failure Members
  | .obj members => .ok members
  | value => do
    let found ← (objectKeywords ++ arrayKeywords).mapM fun keyword => mentions keyword value
    if found.any id then throw (.malformed .notExtensible) else throw (.malformed .notMapping)

end ApiTypes.Schema
