import ApiTypes.Proofs.Conversion.Value
import ApiTypes.Proofs.Run.Allowance
import Mathlib.Data.List.Nodup

/-!
# Converted objects

The conversion of an object has the declared properties, in their order. Each of them is
optional unless its name is required, and has the type that its own schema converts to.
There is an index signature if a schema describes the properties that are not declared.
It stands in an object type of its own if a property is optional.
-/

namespace ApiTypes

/-- The type of an object with some properties and perhaps an index signature. -/
inductive TypeExpr.ObjectOf (properties : List (Property TypeExpr)) :
    Option (IndexSignature TypeExpr) → TypeExpr → Prop
  /-- One object type, without an index signature or without optional properties. -/
  | together {index? : Option (IndexSignature TypeExpr)}
    (h : index? = none ∨ ∀ property ∈ properties, property.optional = false) :
    ObjectOf properties index? (.object properties index?)
  /-- An object type of the properties, some of them optional, and one of the index signature. -/
  | apart {index : IndexSignature TypeExpr}
    (h : ∃ property ∈ properties, property.optional = true) :
    ObjectOf properties (some index)
      (.intersection [.object properties none, .object [] (some index)])

/-- An object type is that of its members, perhaps beside the null type. -/
theorem Conversion.objectOf_objectType (properties : List (Property TypeExpr))
    (index? : Option (IndexSignature TypeExpr)) (nullable : Bool) :
    ∃ core, TypeExpr.ObjectOf properties index? core ∧
      (objectType properties index? nullable = core ∨
        objectType properties index? nullable = .union [core, .null]) := by
  have horNull (core : TypeExpr) :
      core.orNull nullable = core ∨ core.orNull nullable = .union [core, .null] := by
    cases nullable
    · exact Or.inl rfl
    · exact Or.inr rfl
  cases index? with
  | none => exact ⟨_, .together (.inl rfl), horNull _⟩
  | some index =>
    rw [objectType]
    split
    · rename_i hoptional
      exact ⟨_, .apart (by simpa using hoptional), horNull _⟩
    · rename_i hrequired
      exact ⟨_, .together (.inr (by simpa using hrequired)), Or.inl rfl⟩

namespace Context

open Conversion Schema

variable {context : Context} {point path : String} {parent : Json} {raw : Members}

/-- The index signature of a converted object, and the state after its conversion. -/
inductive ConvertsIndex (context : Context) (point path : String) (raw : Members)
    (s s' : RunState) : Option (IndexSignature TypeExpr) → Prop
  /-- A schema describes the properties that are not declared. -/
  | schema {additional : Members} {type : TypeExpr}
    (hget : raw.get? "additionalProperties" = some (.obj additional))
    (h : (context.convertSchema point (.obj additional)
      (Pointer.child path ["additionalProperties"]) (raw.get "properties")).run s =
        (.ok type, s')) :
    ConvertsIndex context point path raw s s' (some ⟨context.settings.indexKey, type⟩)
  /-- No schema does. -/
  | nothing (hget : ∀ additional, raw.get? "additionalProperties" ≠ some (.obj additional))
    (h : s' = s) : ConvertsIndex context point path raw s s' none

/-- The members of a converted object, of which some names are required, and the state after
their conversion. -/
structure ConvertsMembers (context : Context) (point path : String) (raw : Members)
    (names : List String) (s s' : RunState) (properties : List (Property TypeExpr))
    (index? : Option (IndexSignature TypeExpr)) : Prop where
  /-- The properties have the declared names, in their order. -/
  name_eq : properties.map (·.name) = (declared raw).map fun pair => .str pair.1
  /-- Each name is there once. -/
  nodup : ((declared raw).map Prod.fst).Nodup → (properties.map (·.name)).Nodup
  /-- Those that are not required are optional. -/
  optional_eq : properties.map (·.optional) =
    (declared raw).map fun pair => decide (pair.1 ∉ names)
  /-- What cannot be written is marked in the schema of the property. -/
  readOnly_eq : properties.map (·.readOnly) =
    (declared raw).map fun pair => (pair.2.keyword "readOnly").truthy
  /-- Comments are the descriptions. -/
  comment_eq : properties.map (·.comment) =
    (declared raw).map fun pair => pair.2.keyword "description"
  /-- The types are those of the schemas of the properties, which are converted one after
  another, and then the index signature. -/
  types : ∃ middle, ((declared raw).mapM fun pair => context.convertSchema point pair.2
      (Pointer.child path ["properties", pair.1]) (raw.get "properties")).run s =
        (.ok (properties.map (·.type)), middle) ∧
    context.ConvertsIndex point path raw middle s' index?

/-- Whether a name is among texts. -/
theorem any_isText_map (names : List String) (name : String) :
    (names.map Json.str).any (Json.isText name) = decide (name ∈ names) := by
  rw [List.any_map, Bool.eq_iff_iff]
  simp [Json.isText, Function.comp_def]

/-- Members that are put together from converted properties, beside a converted index
signature. -/
theorem ConvertsMembers.of_membersOf {names : List String} {s s' middle : RunState}
    {types : List TypeExpr} {index? : Option (IndexSignature TypeExpr)}
    (h : ((declared raw).mapM fun pair => context.convertSchema point pair.2
      (Pointer.child path ["properties", pair.1]) (raw.get "properties")).run s =
        (.ok types, middle))
    (hindex : context.ConvertsIndex point path raw middle s' index?) :
    context.ConvertsMembers point path raw names s s'
      (membersOf (names.map .str) (declared raw) types) index? := by
  have hlength := Run.length_of_mapM_ok h
  have hnames : (membersOf (names.map .str) (declared raw) types).map (·.name) =
      (declared raw).map fun pair => .str pair.1 := map_membersOf hlength fun _ _ => rfl
  have htypes : (membersOf (names.map .str) (declared raw) types).map (·.type) = types :=
    List.ext_getElem (by simp [membersOf, hlength]) fun i _ _ => by simp [membersOf, member]
  refine {
    name_eq := hnames
    nodup := fun hnodup => ?_
    optional_eq := map_membersOf hlength fun pair type => ?_
    readOnly_eq := map_membersOf hlength fun _ _ => rfl
    comment_eq := map_membersOf hlength fun _ _ => rfl
    types := ⟨middle, htypes.symm ▸ h, hindex⟩ }
  · rw [hnames, ← Function.comp_def, ← List.map_map]
    exact hnodup.map fun _ _ => Json.str.inj
  · rw [member, any_isText_map, decide_not]

/-- The declared properties of an object are converted like schemas of their own. -/
theorem ofProperties_eq_mapM {nodes : List (String × Node)}
    (h : parsePropertiesOf path raw = .ok nodes) (required : List Json) :
    ofProperties context (context.following (.obj raw)) point (raw.get "properties") required
        nodes = (do
      let types ← (declared raw).mapM fun pair => context.convertSchema point pair.2
        (Pointer.child path ["properties", pair.1]) (raw.get "properties")
      return membersOf required (declared raw) types) := by
  have hparts := (List.forall₂_and_left _ _).mpr
    ⟨fun _ => refs_subset_of_mem_declared, forall₂_declared h⟩
  refine ofProperties_eq (fun pair property hread => ?_) hparts required
  obtain ⟨hrefs, hread⟩ := hread
  exact ⟨hread.name_eq, hread.raw_eq, ofNode_eq_convertSchema hrefs hread.parse_eq point _⟩

/-- So is the schema of the properties that are not declared. -/
theorem convertsIndex_of_ofAdditional_ok {additional : Additional Node}
    (hread : ReadsAdditional path raw additional) {s s' : RunState}
    {index? : Option (IndexSignature TypeExpr)}
    (h : (ofAdditional context (context.following (.obj raw)) point (raw.get "properties")
      additional).run s = (.ok index?, s')) :
    context.ConvertsIndex point path raw s s' index? := by
  cases hread with
  | allowed hget =>
    cases h
    exact .nothing (fun members hobject => nomatch hget.symm.trans hobject) rfl
  | unspecified _ hobject =>
    cases h
    exact .nothing hobject rfl
  | schema hget hnode =>
    have hrefs := Json.refs_subset_of_mem_members (Members.mem_of_get? hget)
    rw [ofAdditional, ofNode_eq_convertSchema hrefs hnode] at h
    obtain ⟨type, last, hrun, hpure⟩ := Run.exists_of_run_bind_ok h
    cases hpure
    exact .schema hget hrun

/-- The members of an object are its declared properties with their types, and the index
signature. -/
theorem exists_types_of_objectMembers_ok {nodes : List (String × Node)}
    (hnodes : parsePropertiesOf path raw = .ok nodes) {additional : Additional Node}
    (hread : ReadsAdditional path raw additional) {required : List Json} {s s' : RunState}
    {properties : List (Property TypeExpr)} {index? : Option (IndexSignature TypeExpr)}
    (h : (objectMembers context (context.following (.obj raw)) point nodes additional (typed raw)
      required).run s = (.ok (properties, index?), s')) :
    ∃ types middle, ((declared raw).mapM fun pair => context.convertSchema point pair.2
        (Pointer.child path ["properties", pair.1]) (raw.get "properties")).run s =
          (.ok types, middle) ∧
      properties = membersOf required (declared raw) types ∧
      context.ConvertsIndex point path raw middle s' index? := by
  have hproperties : (typed raw).get "properties" = raw.get "properties" :=
    get_typed raw (by decide)
  simp only [objectMembers, hproperties, ofProperties_eq_mapM hnodes, bind_assoc, pure_bind] at h
  obtain ⟨types, middle, htypes, h⟩ := Run.exists_of_run_bind_ok h
  obtain ⟨_, _, hindex, hpure⟩ := Run.exists_of_run_bind_ok h
  cases hpure
  exact ⟨types, middle, htypes, rfl, convertsIndex_of_ofAdditional_ok hread hindex⟩

/-- The conversion of an object gives the type of its members. Their types are what their own
schemas convert to, in the order in which they are read. -/
theorem convertSchema_object_exact (hvalue : IsValue raw)
    (htype : typeOf? raw = some (.str "object"))
    (hadditional : raw.get? "additionalProperties" ≠ some (.bool true)) {names : List String}
    (hrequired : Requires raw names) {s s' : RunState} {type : TypeExpr}
    (h : (context.convertSchema point (.obj raw) path parent).run s = (.ok type, s')) :
    ∃ properties index? core, context.ConvertsMembers point path raw names s s' properties index? ∧
      TypeExpr.ObjectOf properties index? core ∧
      (type = core ∨ type = .union [core, .null]) := by
  obtain ⟨node, s₁, hlifted, hrun⟩ := Run.exists_of_run_bind_ok h
  obtain ⟨hparse, rfl⟩ : parse path (.obj raw) = .ok node ∧ s = s₁ := Prod.mk.inj hlifted
  obtain ⟨items, nodes, required, additional, _, hnodes, hnames, hread, rfl⟩ :=
    exists_parts_of_parse_ok hvalue hparse
  rw [hrequired.elements_eq] at hnames
  cases hnames
  have hread := readsAdditional_of_parseAdditionalOf_ok hread
  have hallowed : additional ≠ .allowed true := by
    rintro rfl
    cases hread with
    | allowed hget => exact hadditional hget
  have hnames : (liftM (requiredNames (names.map .str)) : Run (List Json)) =
      pure (names.map .str) := by
    rw [requiredNames_map]
    rfl
  rw [ofNode_of_typeOf? htype, byTypeName_object hallowed, keywords, hnames, pure_bind] at hrun
  obtain ⟨⟨properties, index?⟩, last, hmembers, hpure⟩ := Run.exists_of_run_bind_ok hrun
  cases hpure
  obtain ⟨types, middle, htypes, rfl, hindex⟩ :=
    exists_types_of_objectMembers_ok hnodes hread hmembers
  obtain ⟨core, hcore, hresult⟩ := objectOf_objectType (membersOf (names.map .str) (declared raw)
    types) index? ((raw.get "nullable").bool?.getD false)
  exact ⟨_, index?, core, .of_membersOf htypes hindex, hcore, hresult⟩

end Context

/-- A document without schemas. -/
def Context.tags : Context where
  graph := {
    documents := [("openapi.json", .obj [])]
    entryPoint := "openapi.json"
    componentRoot := .str "components"
    componentDirectories := [.str "schemas"] }

/-- A schema of objects with two properties, one of them required, and others that are texts. -/
def Members.tagged : Members := [
  ("properties", .obj [
    ("id", .obj [("type", .str "integer")]),
    ("tag", .obj [("type", .str "boolean"), ("description", .str "Marked.")])]),
  ("required", .arr [.str "id"]),
  ("additionalProperties", .obj [("type", .str "string")])]

/-- The index signature stands in an object type of its own. -/
theorem tagged_object_exact : ∃ s' properties index,
    (Context.tags.convertSchema "openapi.json" (.obj Members.tagged) "#").run
      (.initial Context.tags) =
        (.ok (.intersection [.object properties none, .object [] (some index)]), s') ∧
    Context.tags.ConvertsMembers "openapi.json" "#" Members.tagged ["id"] (.initial Context.tags) s'
      properties (some index) := by
  obtain ⟨type, s', hrun, htype⟩ : ∃ type s',
      (Context.tags.convertSchema "openapi.json" (.obj Members.tagged) "#").run
        (.initial Context.tags) = (.ok type, s') ∧
      ∃ properties index, type = .intersection [.object properties none, .object [] (some index)] :=
    ⟨_, _, rfl, _, _, rfl⟩
  have hnames : Schema.Requires Members.tagged ["id"] := .list rfl
  obtain ⟨properties, index?, core, hmembers, hcore, hresult⟩ :=
    Context.convertSchema_object_exact ⟨rfl, fun kind => by cases kind <;> rfl⟩ rfl (by nofun)
      hnames hrun
  obtain ⟨properties', index', rfl⟩ := htype
  rcases hresult with rfl | hunion
  · cases hcore
    exact ⟨s', properties, _, hrun, hmembers⟩
  · cases hunion

end ApiTypes
