import ApiTypes.Proofs.Schema.Nodes
import ApiTypes.Schema.Inference

/-!
# What schemas of values declare

The type of a schema, its properties and what it says of all others are read off its
members. The parts of the node that is read from it are those of the same members.
-/

namespace ApiTypes

/-- The value of a key of an object, `null` when there is none or no object. -/
def Json.keyword (value : Json) (key : String) : Json :=
  match value with
  | .obj members => Members.get members key
  | _ => .null

theorem Node.keyword_eq (node : Node) (key : String) : node.keyword key = node.raw.keyword key :=
  rfl

namespace Schema

variable {path : String} {raw : Members}

/-- The type of a schema: the declared one, or else the one that its keywords imply. -/
def typeOf? (raw : Members) : Option Json :=
  (raw.get? "type").or ((impliedType? raw).map .str)

/-- The names of types that are known. -/
def typeNames : List String :=
  ["null", "array", "object", "boolean", "integer", "number", "string"]

/-- The declared properties and their schemas. -/
def declared (raw : Members) : Members :=
  ((raw.get "properties").members?).getD []

/-- What is required is a list of names, or left out. -/
inductive Requires (raw : Members) : (names : List String) → Prop
  /-- Nothing is required. -/
  | nothing (h : raw.get? "required" = none) : Requires raw []
  /-- The names are listed. -/
  | list {names : List String} (h : raw.get? "required" = some (.arr (names.map .str))) :
    Requires raw names

/-- The names that are required are the elements that are read. -/
theorem Requires.elements_eq {names : List String} (h : Requires raw names) :
    (raw.get "required").orNone.elements = .ok (names.map .str) := by
  cases h with
  | nothing h =>
    rw [Members.get, h]
    rfl
  | list h =>
    rw [Members.get, h]
    cases names <;> rfl

/-- A schema of values is read as a node of its parts. -/
theorem exists_parts_of_parse_ok {node : Node} (hvalue : IsValue raw)
    (h : parse path (.obj raw) = .ok node) :
    ∃ items properties required additional, parseItemsOf path raw = .ok items ∧
      parsePropertiesOf path raw = .ok properties ∧
      (raw.get "required").orNone.elements = .ok required ∧
      parseAdditionalOf path raw = .ok additional ∧
      node = .value path raw (raw.get? "type") (keywords raw required) items properties
        additional := by
  rw [parse_value_eq hvalue] at h
  obtain ⟨items, hitems, h⟩ := Calculation.exists_of_bind_ok h
  obtain ⟨properties, hproperties, h⟩ := Calculation.exists_of_bind_ok h
  obtain ⟨required, hrequired, h⟩ := Calculation.exists_of_bind_ok h
  obtain ⟨additional, hadditional, h⟩ := Calculation.exists_of_bind_ok h
  cases h
  exact ⟨items, properties, required, additional, hitems, hproperties, hrequired, hadditional, rfl⟩

/-- Every declared property is read under its name. -/
theorem forall₂_declared {properties : List (String × Node)}
    (h : parsePropertiesOf path raw = .ok properties) :
    List.Forall₂ (ReadAs path) (declared raw) properties := by
  rcases exists_declared_of_parsePropertiesOf_ok h with ⟨rfl, hnone⟩ | ⟨members, hget, hread⟩
  · rw [declared, hnone]
    exact .nil
  · rw [declared, Members.get, hget]
    exact hread

/-- The references of a declared property are those of the whole. -/
theorem refs_subset_of_mem_declared {pair : String × Json} (h : pair ∈ declared raw) :
    pair.2.refs ⊆ (Json.obj raw).refs := by
  rw [declared, Members.get] at h
  cases hget : raw.get? "properties" with
  | none =>
    rw [hget] at h
    cases h
  | some value =>
    rw [hget, Option.getD_some] at h
    cases value with
    | obj members =>
      have hmembers := Json.refs_subset_of_mem_members (Members.mem_of_get? hget)
      exact List.Subset.trans (Json.refs_subset_of_mem_members h) hmembers
    | _ => cases h

end Schema

end ApiTypes
