import ApiTypes.Proofs.Run.Script
import ApiTypes.Proofs.Schema.Properties
import ApiTypes.Run.Convert

/-!
# Converting schemas of values

A schema of values is converted by the name of its type, declared or implied. The members
of an object are the types of its declared properties, put together with what is said of
them, and the index signature.
-/

namespace ApiTypes

namespace Schema

/-- A schema as if it declared the type that its keywords imply. -/
def typed (raw : Members) : Members :=
  if raw.has "type" then raw else (withImpliedType? raw).getD raw

theorem typed_of_get? {raw : Members} {type : Json} (h : raw.get? "type" = some type) :
    typed raw = raw := by
  rw [typed, Members.has, h]
  rfl

theorem typed_of_impliedType? {raw : Members} {name : String} (h : raw.get? "type" = none)
    (himplied : impliedType? raw = some name) :
    typed raw = Members.put "type" (.str name) raw := by
  rw [typed, Members.has, h, withImpliedType?, himplied]
  rfl

/-- Apart from its type, such a schema is the same. -/
theorem get?_typed (raw : Members) {key : String} (h : key ≠ "type") :
    (typed raw).get? key = raw.get? key := by
  rw [typed, withImpliedType?]
  split
  · rfl
  · cases impliedType? raw with
    | none => rfl
    | some name => rw [Option.map_some, Option.getD_some, Members.get?_put, if_neg h]

theorem get_typed (raw : Members) {key : String} (h : key ≠ "type") :
    (typed raw).get key = raw.get key := by
  rw [Members.get, Members.get, get?_typed raw h]

end Schema

namespace Conversion

variable {context : Context} {follow : Follow} {point path : String} {parent : Json}
  {raw : Members} {keywords : Keywords} {items : Items Node} {properties : List (String × Node)}
  {additional : Additional Node}

/-- The members of an object: its properties, and then the index signature. -/
def objectMembers (context : Context) (follow : Follow) (point : String)
    (properties : List (String × Node)) (additional : Additional Node) (raw : Members)
    (required : List Json) : Run ObjectMembers := do
  let members ←
    ofProperties context follow point (raw.get "properties") required properties
  let index? ← ofAdditional context follow point (raw.get "properties") additional
  return (members, index?)

/-- A schema of values of a known type is converted by the name of that type. -/
theorem ofNode_of_typeOf? {name : String} (h : Schema.typeOf? raw = some (.str name)) :
    ofNode context follow point parent
        (.value path raw (raw.get? "type") keywords items properties additional) =
      byTypeName context path keywords additional
        (fun raw => ofItems context follow point path raw items)
        (objectMembers context follow point properties additional) (Schema.typed raw) name := by
  rw [Schema.typeOf?] at h
  cases htype : raw.get? "type" with
  | some type =>
    rw [htype, Option.some_or, Option.some.injEq] at h
    subst h
    rw [Schema.typed_of_get? htype, ofNode, byDeclaredType]
    rfl
  | none =>
    rw [htype, Option.none_or, Option.map_eq_some_iff] at h
    obtain ⟨_, himplied, heq⟩ := h
    cases heq
    have hempty : raw.isEmpty = false := by
      cases raw with
      | nil => cases himplied
      | cons => rfl
    rw [Schema.typed_of_impliedType? htype himplied, ofNode]
    simp only [hempty, himplied]
    rfl

/-- A schema of a primitive type. -/
theorem byTypeName_primitive {item : Members → Run TypeExpr}
    {members : Members → List Json → Run ObjectMembers} {name : String}
    (hname : name ∈ ["boolean", "integer", "number", "string"]) (raw : Members) :
    byTypeName context path keywords additional item members raw name =
      Run.ofExcept (primitive context path raw name keywords) := by
  simp only [List.mem_cons, List.not_mem_nil, or_false] at hname
  rcases hname with rfl | rfl | rfl | rfl <;> rfl

/-- A type that is not known stands for any. -/
theorem byTypeName_unknown {item : Members → Run TypeExpr}
    {members : Members → List Json → Run ObjectMembers} {name : String}
    (hname : name ∉ Schema.typeNames) (raw : Members) :
    byTypeName context path keywords additional item members raw name = pure .any := by
  rw [byTypeName]
  all_goals
    rintro rfl
    exact hname (by decide)

/-- A schema of a type that is not known. -/
theorem ofNode_of_unknown {type : Json} (h : Schema.typeOf? raw = some type)
    (hlist : ∀ types, raw.get? "type" ≠ some (.arr types))
    (hunknown : ∀ name ∈ Schema.typeNames, type ≠ .str name) :
    ofNode context follow point parent
        (.value path raw (raw.get? "type") keywords items properties additional) = pure .any := by
  by_cases hname : ∃ name, type = .str name
  · obtain ⟨name, rfl⟩ := hname
    rw [ofNode_of_typeOf? h, byTypeName_unknown fun hmem => hunknown name hmem rfl]
  · have hdeclared : raw.get? "type" = some type := by
      rw [Schema.typeOf?] at h
      cases hget : raw.get? "type" with
      | some declared => rwa [hget] at h
      | none =>
        rw [hget, Option.none_or, Option.map_eq_some_iff] at h
        obtain ⟨name, _, rfl⟩ := h
        exact absurd ⟨name, rfl⟩ hname
    rw [hdeclared, ofNode, byDeclaredType]
    · intro name heq
      exact hname ⟨name, heq⟩
    · rintro types rfl
      exact hlist types hdeclared

/-- A schema of which no type is known. -/
theorem ofNode_of_untyped (hne : raw ≠ []) (h : Schema.typeOf? raw = none) :
    ofNode context follow point parent
        (.value path raw (raw.get? "type") keywords items properties additional) =
      untyped keywords.nullable? parent := by
  rw [Schema.typeOf?, Option.or_eq_none_iff, Option.map_eq_none_iff] at h
  rw [h.1, ofNode]
  simp only [List.isEmpty_eq_false_iff.mpr hne, h.2]
  rfl

/-- An object is converted through its members, unless all properties are allowed. -/
theorem byTypeName_object (h : additional ≠ .allowed true) (item : Members → Run TypeExpr)
    (members : Members → List Json → Run ObjectMembers) :
    byTypeName context path keywords additional item members raw "object" = (do
      let required ← requiredNames keywords.required
      let (properties, index?) ← members raw required
      return objectType properties index? (keywords.nullable?.getD false)) := by
  cases additional with
  | allowed flag =>
    cases flag with
    | true => exact absurd rfl h
    | false => rfl
  | unspecified | schema => rfl

theorem requiredNames_map (names : List String) :
    requiredNames (names.map .str) = .ok (names.map .str) := by
  rw [requiredNames, if_pos]
  simp [Json.isKey]

/-- A declared property with its converted type. -/
def member (required : List Json) (name : String) (schema : Json) (type : TypeExpr) :
    Property TypeExpr where
  name := .str name
  type
  optional := !required.any (Json.isText name)
  readOnly := (schema.keyword "readOnly").truthy
  comment := schema.keyword "description"

/-- Members that are put together from declared properties and their types. -/
def membersOf (required : List Json) (declared : Members) (types : List TypeExpr) :
    List (Property TypeExpr) :=
  List.zipWith (fun pair type => member required pair.1 pair.2 type) declared types

/-- What members have of their declarations, if there is a type for each of them. -/
theorem map_membersOf {α : Type} {required : List Json} {declared : Members}
    {types : List TypeExpr} (hlength : types.length = declared.length) {f : Property TypeExpr → α}
    {g : String × Json → α} (h : ∀ pair type, f (member required pair.1 pair.2 type) = g pair) :
    (membersOf required declared types).map f = declared.map g :=
  List.ext_getElem (by simp [membersOf, hlength]) fun i _ _ => by simp [membersOf, h]

/-- Some member is optional if its name is not required. -/
theorem any_optional_membersOf {required : List Json} {declared : Members}
    {types : List TypeExpr} (hlength : types.length = declared.length) :
    (membersOf required declared types).any (·.optional) =
      declared.any fun pair => !required.any (Json.isText pair.1) := by
  have hmap : (membersOf required declared types).map (·.optional) =
      declared.map fun pair => !required.any (Json.isText pair.1) :=
    map_membersOf hlength fun _ _ => rfl
  have hany := congrArg (List.any · id) hmap
  simpa only [List.any_map, Function.comp_def, id] using hany

/-- The members of an object are its declared properties with their types, which are
converted one after another. -/
theorem ofProperties_eq {declared : Members} {convert : String × Json → Run TypeExpr}
    {R : String × Json → String × Node → Prop}
    (hR : ∀ pair property, R pair property → property.1 = pair.1 ∧ property.2.raw = pair.2 ∧
      ofNode context follow point parent property.2 = convert pair)
    (h : List.Forall₂ R declared properties) (required : List Json) :
    ofProperties context follow point parent required properties = (do
      let types ← declared.mapM convert
      return membersOf required declared types) := by
  induction h with
  | nil => simp [ofProperties, membersOf]
  | @cons pair property rest others hfirst _ ih =>
    obtain ⟨name, node⟩ := property
    obtain ⟨hname, hraw, hconvert⟩ := hR pair (name, node) hfirst
    simp only at hname hraw hconvert
    subst hname
    simp only [ofProperties, ih, hconvert, List.mapM_cons, bind_assoc, pure_bind,
      membersOf, List.zipWith_cons_cons, member, Node.keyword_eq, hraw]

end Conversion

end ApiTypes
