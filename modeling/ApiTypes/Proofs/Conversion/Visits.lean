import ApiTypes.Proofs.Conversion.Node
import ApiTypes.Proofs.Document.Objects
import ApiTypes.Proofs.Reference

/-!
# Schemas that a conversion comes to

A conversion reads a schema with its parts, and what references lead to from there. What
is known of a schema and of the document that it is read from is known of all schemas that
the conversion comes to, if parts and the targets of references inherit it.
-/

namespace ApiTypes

/-- A value stands as a schema in an object. -/
inductive Schema.HasPart (raw : Members) : Json → Prop
  /-- A member of a composition. -/
  | member {kind : Composition} {values : List Json} {value : Json}
    (hget : raw.get? kind.keyword = some (.arr values)) (hmem : value ∈ values) :
    HasPart raw value
  /-- The schema of the items of an array. -/
  | items {value : Json} (hget : raw.get? "items" = some value) : HasPart raw value
  /-- A declared property. -/
  | property {declared : Members} {name : String} {value : Json}
    (hget : raw.get? "properties" = some (.obj declared)) (hmem : (name, value) ∈ declared) :
    HasPart raw value
  /-- The schema of the properties that are not declared. -/
  | additional {value : Json} (hget : raw.get? "additionalProperties" = some value) :
    HasPart raw value

/-- A conversion that starts with a schema from the document at a point comes to another
schema, in the document at another point. -/
inductive Context.Visits (context : Context) (start : String) (schema : Json) :
    String → Json → Prop
  /-- The schema itself. -/
  | refl : context.Visits start schema start schema
  /-- A part of a schema. -/
  | part {point : String} {raw : Members} {value : Json}
    (h : context.Visits start schema point (.obj raw)) (hpart : Schema.HasPart raw value) :
    context.Visits start schema point value
  /-- What a reference leads to. -/
  | target {point written : String} {raw : Members} {value : Json}
    (h : context.Visits start schema point (.obj raw))
    (href : raw.get? "$ref" = some (.str written))
    (hlookup : context.graph.lookup (Reference.documentOf point written)
      (Reference.segments written) = .ok value) :
    context.Visits start schema (Reference.documentOf point written) value

namespace Conversion

variable {context : Context}

/-- What is known of schemas and the points of their documents is inherited by all schemas
that a conversion comes to. -/
structure Inherits (context : Context) (V : String → Json → Prop) : Prop where
  /-- By the parts of a schema. -/
  part : ∀ {point raw value}, V point (.obj raw) → Schema.HasPart raw value → V point value
  /-- By what a reference leads to. -/
  target : ∀ {point written raw value}, V point (.obj raw) →
    Members.get? raw "$ref" = some (.str written) →
    context.graph.lookup (Reference.documentOf point written) (Reference.segments written) =
      .ok value → V (Reference.documentOf point written) value

namespace Inherits

variable {V : String → Json → Prop}

/-- What is inherited and known of the first schema is known of all. -/
theorem of_visits (h : Inherits context V) {start point : String} {schema value : Json}
    (hstart : V start schema) (hvisits : context.Visits start schema point value) :
    V point value := by
  induction hvisits with
  | refl => exact hstart
  | part _ hpart ih => exact h.part ih hpart
  | target _ href hlookup ih => exact h.target ih href hlookup

theorem visits (context : Context) (start : String) (schema : Json) :
    Inherits context (context.Visits start schema) :=
  ⟨.part, .target⟩

/-- A test that all objects in the documents pass is passed by all objects of the schemas. -/
theorem everyObject {p : Members → Bool} (hgraph : context.graph.everyObject p) :
    Inherits context fun _ value => value.everyObject p where
  part h hpart := by
    cases hpart with
    | member hget hmem =>
      exact (Json.everyObject_arr _).mp (Json.everyObject_of_get? h hget) _ hmem
    | items hget => exact Json.everyObject_of_get? h hget
    | property hget hmem =>
      exact ((Json.everyObject_obj _).mp (Json.everyObject_of_get? h hget)).2 _ hmem
    | additional hget => exact Json.everyObject_of_get? h hget
  target _ _ hlookup := Graph.everyObject_of_lookup hgraph hlookup

/-- What nodes are like whose schemas inherit something is known of all nodes inside a node. -/
theorem everywhere (h : Inherits context V) {N : Node → Prop} {point : String}
    (hN : ∀ {path value node}, V point value → Schema.parse path value = .ok node → N node)
    {path : String} {value : Json} {node : Node} (hvalue : V point value)
    (hnode : Schema.parse path value = .ok node) : node.Everywhere N := by
  have hcarries : Schema.Carries (fun _ value => V point value) (fun _ => True) N := {
    member := fun hraw hget hmember =>
      h.part hraw (.member hget (List.mem_of_getElem? hmember))
    items := fun hraw hget => h.part hraw (.items hget)
    property := fun hraw hget hmem => h.part hraw (.property hget hmem)
    additional := fun hraw hget => h.part hraw (.additional hget)
    malformed := fun _ => trivial
    notSchema := fun _ => trivial
    notMembers := fun _ _ => trivial
    node := fun hat hparse => hN hat hparse }
  have hyields := Schema.parse_everywhere hcarries path value hvalue
  rwa [hnode] at hyields

end Inherits

/-- A task that follows a reference starts from the object that holds it. -/
def Task.StartsIn (V : String → Json → Prop) (point : String) : Task → Prop
  | .follow raw ref => V point (.obj raw) ∧ Members.get? raw "$ref" = some ref
  | _ => True

/-- The plan of a schema only follows references from the schemas inside it. -/
theorem Inherits.nodePlan_startsIn {V : String → Json → Prop} (h : Inherits context V)
    {point path : String} {value : Json} {node : Node} (hvalue : V point value)
    (hnode : Schema.parse path value = .ok node) (parent : Json) :
    (nodePlan context point parent node).All (Task.StartsIn V point) := by
  refine nodePlan_all ⟨fun _ => trivial, fun _ _ => trivial⟩ point parent node ?_
  refine h.everywhere (fun {path value node} hvalue hnode => ?_) hvalue hnode
  cases value with
  | obj raw =>
    rcases Schema.parse_obj_cases hnode with ⟨ref, href, rfl⟩ |
      ⟨kind, members, nullable, _, _, _, rfl⟩ | ⟨type?, keywords, items, _, _, _, _, _, rfl⟩
    · exact ⟨hvalue, href⟩
    · trivial
    · cases items with
      | schema => trivial
      | other value =>
        intro raw
        cases value <;> simp only [itemsPlan]
        · exact .of_tasks_eq_nil rfl
        all_goals exact .single trivial
  | bool flag =>
    cases hnode
    trivial
  | _ => cases hnode

end Conversion

/-- A test that all objects in the documents and in the first schema pass is passed by all
objects that the conversion comes to. -/
theorem Context.Visits.everyObject {context : Context} {p : Members → Bool}
    (hgraph : context.graph.everyObject p) {start point : String} {schema value : Json}
    (hschema : schema.everyObject p) (h : context.Visits start schema point value) :
    value.everyObject p :=
  (Conversion.Inherits.everyObject hgraph).of_visits hschema h

end ApiTypes
