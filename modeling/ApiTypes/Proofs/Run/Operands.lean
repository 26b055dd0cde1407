import ApiTypes.Proofs.Run.Built
import ApiTypes.Proofs.Run.Names
import ApiTypes.Proofs.Run.Reach
import ApiTypes.Proofs.Schema.Nodes
import ApiTypes.Proofs.TypeExpr.Texts

/-!
# Operands of converted types

The lists of types and of values that a schema gives are counted before they become a
union, but the members of a composition are not. So a converted type has operands wherever
there should be some, and is printed as a text, unless the conversion comes to a
composition without members.
-/

namespace ApiTypes

namespace Json

/-- Whether the composition that a schema is, if it is one, has members. The keyword that
counts decides, and an object with a reference is no composition. -/
def composesSome : Json → Bool
  | .obj raw => Members.has raw "$ref" || match Schema.composition? raw with
    | some kind => match Members.get? raw kind.keyword with
      | some (.arr members) => !members.isEmpty
      | _ => true
    | none => true
  | _ => true

/-- Whether the description in a schema is a text, if there is one. -/
def isDescribed (schema : Json) : Bool :=
  !schema.description.truthy || schema.description.text?.isSome

/-- Whether the descriptions of the declared properties of a schema are texts. -/
def describesProperties : Json → Bool
  | .obj raw => match Members.get? raw "properties" with
    | some (.obj declared) => declared.all fun pair => pair.2.isDescribed
    | _ => true
  | _ => true

theorem composesSome_of_everyObject {value : Json}
    (h : value.everyObject fun raw => (obj raw).composesSome) : value.composesSome := by
  cases value with
  | obj raw => exact ((everyObject_obj raw).mp h).1
  | _ => rfl

theorem describesProperties_of_everyObject {value : Json}
    (h : value.everyObject fun raw => (obj raw).describesProperties) :
    value.describesProperties := by
  cases value with
  | obj raw => exact ((everyObject_obj raw).mp h).1
  | _ => rfl

end Json

/-- The names that stand for formats are texts, and the types that the format rule gives
have operands and are made of texts. -/
structure Context.NamesFormats (context : Context) : Prop where
  /-- The names that the settings give. -/
  override : ∀ {overrides format name},
    context.settings.formatOverrides = .ok (.obj overrides) →
    Members.get? overrides format = some name → name.truthy → name.text?.isSome
  /-- The types that the rule gives. -/
  ruled : ∀ {path raw type}, context.formatType?.type? path raw = some type →
    ∀ part ∈ type.val.parts, part.isPrintable

namespace Conversion

variable {context : Context}

/-! ### Operands -/

/-- A composition has members. -/
def ComposesSome : Node → Prop
  | .composition _ _ _ members _ => members ≠ []
  | _ => True

/-- A schema that composes something is read as a node that does. -/
theorem composesSome_of_parse_ok {path : String} {value : Json} {node : Node}
    (hvalue : value.composesSome) (h : Schema.parse path value = .ok node) :
    ComposesSome node := by
  cases value with
  | obj raw =>
    rcases Schema.parse_obj_cases h with ⟨ref, _, rfl⟩ |
      ⟨kind, members, nullable, href, hkind, hmembers, rfl⟩ | ⟨_, _, _, _, _, _, _, _, rfl⟩
    · trivial
    · have hhas := (Schema.composition?_eq_some_iff.mp hkind).has
      obtain ⟨values, hget, hlength⟩ := Schema.exists_values_of_parseMembersOf_ok hhas hmembers
      have hvalues : values ≠ [] := by
        simpa [Json.composesSome, Members.has, href, hkind, hget] using hvalue
      exact List.ne_nil_of_length_pos (hlength ▸ List.length_pos_iff.mpr hvalues)
    · trivial
  | bool flag =>
    cases h
    trivial
  | null | int | float | str | arr => cases h

/-- What conversions build has operands. -/
theorem builds_hasOperands
    (hruled : ∀ path raw type, context.formatType?.type? path raw = some type →
      ∀ part ∈ type.val.parts, part.hasOperands) :
    Builds context ComposesSome fun part => part.hasOperands where
  any := rfl
  null := rfl
  primitive _ _ := rfl
  literals _ _ values hne _ := by simpa [TypeExpr.hasOperands] using hne
  overriding _ _ _ := rfl
  ruled h := hruled _ _ _ h
  component _ := rfl
  array _ := rfl
  union _ _ _ := rfl
  composed {_ _ kind nodes _ types} hnode hlength := by
    have htypes : types ≠ [] := by
      rintro rfl
      exact hnode (List.length_eq_zero_iff.mp hlength.symm)
    cases kind <;> simpa [composed, TypeExpr.hasOperands] using htypes
  anyObject := rfl
  object _ _ _ := rfl
  index _ := rfl
  beside _ _ := rfl

/-! ### Texts -/

/-- The descriptions of declared properties are texts. -/
def DescribesProperties : Node → Prop
  | .value _ _ _ _ _ properties _ =>
    ∀ property ∈ properties, !(property.2.keyword "description").truthy ||
      (property.2.keyword "description").text?.isSome
  | _ => True

/-- A schema whose properties have texts as descriptions is read as a node with these. -/
theorem describesProperties_of_parse_ok {path : String} {value : Json} {node : Node}
    (hvalue : value.describesProperties) (h : Schema.parse path value = .ok node) :
    DescribesProperties node := by
  cases value with
  | obj raw =>
    rcases Schema.parse_obj_cases h with ⟨ref, _, rfl⟩ | ⟨kind, members, nullable, _, _, _, rfl⟩ |
      ⟨type?, keywords, items, properties, additional, _, hproperties, _, rfl⟩
    · trivial
    · trivial
    · rcases Schema.exists_declared_of_parsePropertiesOf_ok hproperties with
        ⟨rfl, _⟩ | ⟨declared, hget, hread⟩
      · exact nofun
      · intro property hproperty
        have hdescribed : ∀ pair ∈ declared, pair.2.isDescribed := by
          simpa [Json.describesProperties, hget] using hvalue
        obtain ⟨i, hi, rfl⟩ := List.getElem_of_mem hproperty
        have hlt : i < declared.length := hread.length_eq ▸ hi
        have hraw : properties[i].2.raw = declared[i].2 := (hread.get hlt hi).raw_eq
        have hkeyword : properties[i].2.keyword "description" = declared[i].2.description := by
          rw [Node.keyword, hraw]
          rfl
        rw [hkeyword]
        exact hdescribed _ (List.getElem_mem hlt)
  | bool flag =>
    cases h
    trivial
  | null | int | float | str | arr => cases h

/-- A type is a component or made of texts. -/
def IsNamedOrPrintable (part : TypeExpr) : Prop :=
  (∃ identifier, part = .component identifier) ∨ part.isPrintable

/-- What conversions build are components and types that are made of texts. -/
theorem builds_isPrintable (h : context.NamesFormats) :
    Builds context DescribesProperties IsNamedOrPrintable where
  any := .inr rfl
  null := .inr rfl
  primitive typeName hname := by
    have hprintable : ∀ name ∈ primitiveNames, (TypeExpr.primitive name).isPrintable := by decide
    exact .inr (hprintable typeName hname)
  literals _ _ _ _ _ := .inr rfl
  overriding {overrides format name} hoverrides hget htruthy := by
    have htext := h.override hoverrides hget htruthy
    cases name with
    | str text => exact .inr htruthy
    | _ => cases htext
  ruled hrule part hpart := .inr (h.ruled hrule part hpart)
  component identifier := .inl ⟨identifier, rfl⟩
  array _ := .inr rfl
  union _ _ _ := .inr rfl
  composed {_ _ kind _ _ _} _ _ := by cases kind <;> exact .inr rfl
  anyObject := .inr rfl
  object {_ _ _ _ _ declared _ properties index?} hnode hnames _ := by
    refine .inr (List.all_eq_true.mpr fun property hproperty => ?_)
    have hmem := List.mem_map_of_mem
      (f := fun property : Property TypeExpr => (property.name, property.comment)) hproperty
    rw [hnames] at hmem
    obtain ⟨pair, hpair, heq⟩ := List.mem_map.mp hmem
    obtain ⟨hname, hcomment⟩ := Prod.mk.inj heq
    rw [TypeExpr.isNamed, ← hname, ← hcomment]
    exact hnode pair hpair
  index _ := .inr rfl
  beside _ _ := .inr rfl

end Conversion

/-- The components in a converted type have names that are not empty. -/
theorem Context.component_ne_empty_of_convertSchema {context : Context} {types : List TypeExpr}
    {s s' : RunState} (hreaches : context.Reaches types s) {point path identifier : String}
    {schema parent : Json} {type : TypeExpr}
    (h : (context.convertSchema point schema path parent).run s = (.ok type, s'))
    (hmem : .component identifier ∈ type.parts) : identifier ≠ "" := by
  have hcomponent : identifier ∈ type.components :=
    TypeExpr.mem_components.mpr (TypeExpr.names_subset_of_mem_parts hmem (by simp [TypeExpr.names]))
  obtain ⟨entry, hentry, rfl⟩ :=
    (Context.settles_of_convertSchema h).registered identifier hcomponent
  have hstate : (((Call.convertSchema point schema path parent).perform context).run s).2 = s' :=
    (Run.state_return _ (fun type => [type]) s).trans (congrArg Prod.snd h)
  have hnames := (hreaches.call (.convertSchema point schema path parent)).hasNames
  rw [hstate] at hnames
  exact (hnames entry hentry).ne_empty

section

variable {context : Context} {types : List TypeExpr} {s s' : RunState} {point path : String}
  {schema parent : Json} {type : TypeExpr}

/-- Converted types have operands everywhere. In whatever state of a run a schema is
converted, with any settings: if every composition that the conversion comes to has members
and the types of the format rule have operands, every union, intersection and list of
literals in the type has at least one member. Every part of the type is then printed as a
text that is not empty, if the indentation, the names for formats and the descriptions of
properties are texts. -/
theorem converted_parts_printed (hreaches : context.Reaches types s)
    (hrule : ∀ path raw type, context.formatType?.type? path raw = some type →
      ∀ part ∈ type.val.parts, part.hasOperands)
    (hcomposes : ∀ documentPoint value, context.Visits point schema documentPoint value →
      value.composesSome)
    (h : (context.convertSchema point schema path parent).run s = (.ok type, s')) :
    (∀ part ∈ type.parts, part.hasOperands) ∧
    (context.NamesFormats →
      (∀ documentPoint value, context.Visits point schema documentPoint value →
        value.describesProperties) →
      ∀ (layout : Layout) (unit : String), layout.indent = .str unit →
        ∀ part ∈ type.parts, ∀ level, ∃ text, part.print layout level = .ok text ∧ text ≠ "") := by
  have hvisits := Conversion.Inherits.visits context point schema
  have hoperands : ∀ part ∈ type.parts, part.hasOperands := by
    have hreturns := Conversion.within_everywhere (Conversion.builds_hasOperands hrule) hvisits
      (fun hvalue => Conversion.composesSome_of_parse_ok (hcomposes _ _ hvalue))
      (Conversion.maxNested context schema + 1) point parent path .refl
    exact hreturns s type s' h
  refine ⟨hoperands, fun hformats hdescribes layout unit hindent part hpart level => ?_⟩
  have hprintable : ∀ part ∈ type.parts, part.isPrintable := by
    have hreturns := Conversion.within_everywhere (Conversion.builds_isPrintable hformats) hvisits
      (fun hvalue => Conversion.describesProperties_of_parse_ok (hdescribes _ _ hvalue))
      (Conversion.maxNested context schema + 1) point parent path .refl
    intro part hpart
    rcases hreturns s type s' h part hpart with ⟨identifier, rfl⟩ | hprintable
    · simpa [TypeExpr.isPrintable] using
        Context.component_ne_empty_of_convertSchema hreaches h hpart
    · exact hprintable
  have hunit : layout.unit = .ok (some unit) := by rw [Layout.unit, hindent]
  have hinner := TypeExpr.parts_subset_of_mem_parts hpart
  obtain ⟨tokens, htokens, htext⟩ := TypeExpr.hasText hunit
    (fun inner hmem => hoperands inner (hinner hmem))
    (fun inner hmem => hprintable inner (hinner hmem)) level
  exact ⟨Token.textOf tokens, by rw [TypeExpr.print, htokens]; rfl, htext⟩

/-- A document with a component and a list of sizes, and a name for dates. -/
def Context.orders : Context where
  graph := {
    documents := [("openapi.json", .obj [
      ("components", .obj [("schemas", .obj [("Pet", .obj [("type", .str "object")])])]),
      ("size", .obj [("enum", .arr [.int 1, .int 2])])])]
    entryPoint := "openapi.json"
    componentRoot := .str "components"
    componentDirectories := [.str "schemas"] }
  settings := { formatOverrides? := some (.obj [("date", .str "Date")]) }

/-- An order of a pet, with a choice of a size or a date. -/
def Json.order : Json := .obj [("type", .str "object"), ("properties", .obj [
  ("pet", .obj [("$ref", .str "#/components/schemas/Pet"), ("description", .str "Who")]),
  ("due", .obj [("oneOf", .arr [.obj [("$ref", .str "#/size")],
    .obj [("type", .str "string"), ("format", .str "date")]])])])]

/-- All parts of the type of an order are printed. -/
theorem order_parts_printed : ∃ type s',
    (Context.orders.convertSchema "openapi.json" .order "#").run (.initial .orders) =
      (.ok type, s') ∧
    type = .object [
      { name := .str "pet", type := .component "Pet", optional := true, comment := .str "Who" },
      { name := .str "due", optional := true, type := .union [
        .literals "integer" [.int 1, .int 2], .external (.str "Date")] }] none ∧
    (∀ part ∈ type.parts, part.hasOperands) ∧
    ∀ part ∈ type.parts, ∀ level, ∃ text, part.print {} level = .ok text ∧ text ≠ "" := by
  have hrun : ∃ s', (Context.orders.convertSchema "openapi.json" .order "#").run
      (.initial .orders) = (.ok _, s') := ⟨_, rfl⟩
  obtain ⟨s', hrun⟩ := hrun
  have hnone (path : String) (raw : Members) :
      Context.orders.formatType?.type? path raw = none := by
    simp [Context.orders, FormatRule.ofNames]
  have hrule : ∀ path raw type, Context.orders.formatType?.type? path raw = some type →
      ∀ part ∈ type.val.parts, part.hasOperands :=
    fun path raw type hrule => nomatch (hnone path raw).symm.trans hrule
  obtain ⟨hoperands, hprinted⟩ := converted_parts_printed (.refl : Context.orders.Reaches [] _)
    hrule (fun _ _ hvisits => Json.composesSome_of_everyObject
      (hvisits.everyObject (by decide) (by decide))) hrun
  have hformats : Context.orders.NamesFormats := {
    override := by
      rintro overrides format name ⟨⟩ hget -
      obtain ⟨rfl, rfl⟩ : format = "date" ∧ name = .str "Date" := by
        rw [Members.get?] at hget
        split at hget
        · rename_i heq
          cases hget
          exact ⟨heq.symm, rfl⟩
        · cases hget
      rfl
    ruled := fun {path raw type} hrule => nomatch (hnone path raw).symm.trans hrule }
  have hparts := hprinted hformats (fun _ _ hvisits => Json.describesProperties_of_everyObject
    (hvisits.everyObject (by decide) (by decide))) {} "  " rfl
  exact ⟨_, s', hrun, rfl, hoperands, hparts⟩

/-- A choice of nothing is printed as an empty text. -/
theorem emptyChoice_printed_empty : ∃ s',
    (Context.orders.convertSchema "openapi.json" (.obj [("oneOf", .arr [])]) "#").run
      (.initial .orders) = (.ok (.union []), s') ∧
    (TypeExpr.union []).hasOperands = false ∧ (TypeExpr.union []).print {} 0 = .ok "" :=
  ⟨_, rfl, rfl, rfl⟩

end

end ApiTypes
