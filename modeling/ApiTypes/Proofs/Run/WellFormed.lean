import ApiTypes.Proofs.Run.Built
import ApiTypes.Proofs.Schema.Nodes
import Mathlib.Data.List.Nodup

/-!
# Converted types are well-formed

Everywhere in a converted type, optional members and index signatures stand in different
object types, the members of an object type have names of their own, listed values are
several values of one primitive type, and no type is missing. Names of members are the
keys of an object in the documents or in the schema, so all that is needed of these is
that no object has a key twice.
-/

namespace ApiTypes

/-- Whether no key occurs twice. -/
def Members.keysDistinct (members : Members) : Bool := decide (members.map Prod.fst).Nodup

/-- A value is of the kind that a list of values of a primitive type may hold. Truth values
are no numbers. -/
inductive Json.IsOfKind : (base : String) → Json → Prop
  /-- A truth value. -/
  | boolean (flag : Bool) : IsOfKind "boolean" (.bool flag)
  /-- A whole number, also where any number may be. -/
  | whole {base : String} (hbase : base = "integer" ∨ base = "number") (n : Int) :
    IsOfKind base (.int n)
  /-- Any number, also where a whole one is declared. -/
  | float {base : String} (hbase : base = "integer" ∨ base = "number") (x : Float) :
    IsOfKind base (.float x)
  /-- A text. -/
  | string (text : String) : IsOfKind "string" (.str text)

namespace TypeExpr

/-- A type whose operands are present has a sound form, apart from that of the operands. -/
def WellFormed : TypeExpr → Prop
  | .missing => False
  | .primitive name => name ∈ ["boolean", "integer", "number", "string"]
  | .literals base values => base ∈ ["boolean", "integer", "number", "string"] ∧ values ≠ [] ∧
    ∀ value ∈ values, value.IsOfKind base
  | .object properties index? => (properties.map (·.name)).Nodup ∧
    (index?.isSome → ∀ property ∈ properties, property.optional = false)
  | _ => True

end TypeExpr

namespace Conversion

variable {context : Context}

/-- The declared properties of a node have names of their own. -/
def NamesDistinct : Node → Prop
  | .value _ _ _ _ _ properties _ => (properties.map Prod.fst).Nodup
  | _ => True

/-- Objects whose keys are distinct are read as nodes with distinct properties. -/
theorem namesDistinct_of_parse_ok {path : String} {value : Json} {node : Node}
    (hvalue : value.everyObject Members.keysDistinct) (h : Schema.parse path value = .ok node) :
    NamesDistinct node := by
  cases value with
  | obj raw =>
    rcases Schema.parse_obj_cases h with ⟨ref, _, rfl⟩ | ⟨kind, members, nullable, _, _, _, rfl⟩ |
      ⟨type?, keywords, items, properties, additional, _, hproperties, _, rfl⟩
    · trivial
    · trivial
    · rcases Schema.exists_declared_of_parsePropertiesOf_ok hproperties with
        ⟨rfl, _⟩ | ⟨declared, hget, hread⟩
      · exact List.nodup_nil
      · have hdeclared := Json.everyObject_of_get? hvalue hget
        have hkeys := ((Json.everyObject_obj declared).mp hdeclared).1
        have hnames : properties.map Prod.fst = declared.map Prod.fst :=
          Schema.map_fst_of_forall₂ hread
        rw [NamesDistinct, hnames]
        exact of_decide_eq_true hkeys
  | bool flag =>
    cases h
    trivial
  | null | int | float | str | arr => cases h

theorem isOfKind_of_isOfType {typeName : String} (hname : typeName ∈ primitiveNames)
    {value : Json} (h : isOfType typeName value = true) : value.IsOfKind typeName := by
  have hcases : typeName = "boolean" ∨ typeName = "integer" ∨ typeName = "number" ∨
      typeName = "string" := by simpa [primitiveNames] using hname
  rcases hcases with rfl | rfl | rfl | rfl
  · cases value with
    | bool flag => exact .boolean flag
    | null | int | float | str | arr | obj => cases h
  · cases value with
    | int n => exact .whole (Or.inl rfl) n
    | float x => exact .float (Or.inl rfl) x
    | null | bool | str | arr | obj => cases h
  · cases value with
    | int n => exact .whole (Or.inr rfl) n
    | float x => exact .float (Or.inr rfl) x
    | null | bool | str | arr | obj => cases h
  · cases value with
    | str text => exact .string text
    | null | bool | int | float | arr | obj => cases h

/-- What conversions build is well-formed. -/
theorem builds_wellFormed
    (hrule : ∀ path raw type, context.formatType?.type? path raw = some type →
      ∃ name, type.val = .external name) :
    Builds context NamesDistinct TypeExpr.WellFormed where
  any := trivial
  null := trivial
  primitive _ hname := hname
  literals typeName hname values hne hall := by
    rw [List.all_eq_true] at hall
    exact ⟨hname, hne, fun value hvalue => isOfKind_of_isOfType hname (hall value hvalue)⟩
  overriding _ _ _ := trivial
  ruled {path raw type} hruled := by
    obtain ⟨name, hname⟩ := hrule path raw type hruled
    rw [hname]
    exact TypeExpr.everywhere_of_operands_eq_nil trivial rfl
  component _ := trivial
  array _ := trivial
  union _ _ _ := trivial
  composed {_ _ kind _ _ _} _ _ := by cases kind <;> trivial
  anyObject := ⟨List.nodup_nil, nofun⟩
  object {_ _ _ _ _ declared _ properties index?} hnode hnames hrequired := by
    constructor
    · have hfst := congrArg (List.map Prod.fst) hnames
      rw [List.map_map, List.map_map] at hfst
      have htexts : properties.map (·.name) = (declared.map Prod.fst).map Json.str := by
        rw [List.map_map]
        exact hfst
      rw [htexts]
      exact List.Nodup.map (fun _ _ h => Json.str.inj h) hnode
    · intro hindex property hproperty
      have hnone := hrequired hindex
      rw [List.any_eq_false] at hnone
      simpa using hnone property hproperty
  index _ := ⟨List.nodup_nil, nofun⟩
  beside _ _ := trivial

end Conversion

/-- Converted types are well-formed at every depth. In whatever state of a run a schema is
converted, with any settings and a format rule that gives names of types only: if the
conversion succeeds, no part of the type is missing, primitive types and listed values are
of the four primitive kinds, the values that are listed are of that kind and there are some,
and every object type has members with different names, all of which must be present if it
has an index signature. -/
theorem converted_wellFormed {context : Context} {point path : String} {schema parent : Json}
    {s s' : RunState} {type : TypeExpr}
    (hgraph : context.graph.everyObject Members.keysDistinct)
    (hschema : schema.everyObject Members.keysDistinct)
    (hrule : ∀ path raw type, context.formatType?.type? path raw = some type →
      ∃ name, type.val = .external name)
    (h : (context.convertSchema point schema path parent).run s = (.ok type, s')) :
    ∀ part ∈ type.parts, part.WellFormed := by
  have hbuilds := Conversion.builds_wellFormed hrule
  have hinherits : Conversion.Inherits context
      (fun _ value => value.everyObject Members.keysDistinct) := .everyObject hgraph
  have hreturns := Conversion.within_everywhere hbuilds hinherits
    (fun hvalue => Conversion.namesDistinct_of_parse_ok hvalue)
    (Conversion.maxNested context schema + 1) point parent path hschema
  exact hreturns s type s' h

/-- A document with a list of sizes, and a rule for the format of dates. -/
def Context.sizes : Context where
  graph := {
    documents := [("openapi.json", .obj [("size", .obj [("enum", .arr [.int 1, .int 2])])])]
    entryPoint := "openapi.json"
    componentRoot := .str "components"
    componentDirectories := [.str "schemas"] }
  formatType? := FormatRule.ofNames fun format =>
    if format = "date" then some (.str "Date") else none

/-- An object with an optional size and other members that are dates or missing. -/
def Json.sized : Json := .obj [
  ("properties", .obj [("size", .obj [("$ref", .str "#/size")])]),
  ("additionalProperties", .obj [
    ("type", .arr [.str "string", .str "null"]), ("format", .str "date")])]

/-- The optional size and the index signature stand in types of their own. -/
theorem sizes_wellFormed : ∃ type s',
    (Context.sizes.convertSchema "openapi.json" .sized "#").run (.initial .sizes) =
      (.ok type, s') ∧
    type = .intersection [
      .object [
        { name := .str "size", type := .literals "integer" [.int 1, .int 2], optional := true }]
        none,
      .object [] (some { key := .str "key", type := .union [.external (.str "Date"), .null] })] ∧
    ∀ part ∈ type.parts, part.WellFormed := by
  have hrun : ∃ s', (Context.sizes.convertSchema "openapi.json" .sized "#").run
      (.initial .sizes) = (.ok _, s') := ⟨_, rfl⟩
  obtain ⟨s', hrun⟩ := hrun
  refine ⟨_, s', hrun, rfl, converted_wellFormed (by decide) (by decide) ?_ hrun⟩
  intro path raw type hrule
  obtain ⟨name, _, rfl⟩ := Option.map_eq_some_iff.mp hrule
  exact ⟨name, rfl⟩

end ApiTypes
