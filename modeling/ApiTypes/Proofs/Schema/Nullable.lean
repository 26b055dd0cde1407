import ApiTypes.Proofs.Document.Load
import ApiTypes.Proofs.Schema.Properties

/-!
# Nullable schemas

A schema that is made nullable is read like before, but for the mark. Some schemas convert
to the same type with the mark and without it: those of the null type or of an unknown one,
and some of objects.
-/

namespace ApiTypes

namespace Schema

variable {path : String} {raw : Members}

/-- A schema with the mark that it is nullable. -/
def allowNull (raw : Members) : Members := Members.put "nullable" (.bool true) raw

/-- An object that allows null says so. -/
theorem get?_allowNull_self (raw : Members) :
    (allowNull raw).get? "nullable" = some (.bool true) := by
  rw [allowNull, Members.get?_put, if_pos rfl]

/-- An object that allows null is not empty. -/
theorem allowNull_ne_nil (raw : Members) : allowNull raw ≠ [] := by
  intro hnil
  have hget := get?_allowNull_self raw
  rw [hnil] at hget
  cases hget

/-- Allowing null keeps what is under the other keys. -/
theorem get?_allowNull (raw : Members) {key : String} (h : key ≠ "nullable") :
    (allowNull raw).get? key = raw.get? key := by
  rw [allowNull, Members.get?_put, if_neg h]

/-- Allowing null keeps what the other keys stand for, present or not. -/
theorem get_allowNull (raw : Members) {key : String} (h : key ≠ "nullable") :
    (allowNull raw).get key = raw.get key := by
  rw [Members.get, Members.get, get?_allowNull raw h]

/-- Allowing null adds no other key. -/
theorem has_allowNull (raw : Members) {key : String} (h : key ≠ "nullable") :
    (allowNull raw).has key = raw.has key := by
  rw [Members.has, Members.has, get?_allowNull raw h]

/-- Allowing null adds none of several other keys. -/
theorem any_has_allowNull (raw : Members) {keys : List String} (h : "nullable" ∉ keys) :
    keys.any (allowNull raw).has = keys.any raw.has := by
  rw [Bool.eq_iff_iff, List.any_eq_true, List.any_eq_true]
  refine exists_congr fun key => and_congr_right fun hkey => ?_
  rw [has_allowNull raw fun heq => h (heq ▸ hkey)]

/-- The mark implies no type. -/
theorem impliedType?_allowNull (raw : Members) :
    impliedType? (allowNull raw) = impliedType? raw := by
  have hobject := any_has_allowNull raw (show "nullable" ∉ objectKeywords by decide)
  have harray := any_has_allowNull raw (show "nullable" ∉ arrayKeywords by decide)
  have hstring := any_has_allowNull raw (show "nullable" ∉ stringKeywords by decide)
  have hnumber := any_has_allowNull raw (show "nullable" ∉ numberKeywords by decide)
  have henum := get?_allowNull raw (show "enum" ≠ "nullable" by decide)
  rw [impliedType?, impliedType?, enumType?, enumType?, hobject, harray, hstring, hnumber, henum]

/-- The declared type stays the same. -/
theorem typeOf?_allowNull (raw : Members) : typeOf? (allowNull raw) = typeOf? raw := by
  rw [typeOf?, typeOf?, impliedType?_allowNull, get?_allowNull raw (by decide)]

/-- The mark is no reference. -/
theorem refs_allowNull (h : raw.has "nullable" = false) :
    (Json.obj (allowNull raw)).refs = (Json.obj raw).refs := by
  have hnew : "nullable" ∉ raw.map Prod.fst := fun hmem => by
    rw [Members.has_iff.mpr hmem] at h
    cases h
  rw [Json.refs, Json.refs, get?_allowNull raw (by decide), allowNull, Members.put_of_not_mem hnew,
    Json.refsOfMembers_eq, Json.refsOfMembers_eq, List.flatMap_append]
  simp [Json.refs]

/-- A composition stays one. -/
theorem composition?_allowNull (raw : Members) :
    composition? (allowNull raw) = composition? raw := by
  have hkeyword (kind : Composition) : kind.keyword ≠ "nullable" := by cases kind <;> decide
  simp only [composition?, has_allowNull raw (hkeyword _)]

/-- The keywords of a schema with the mark are the same but for it. -/
theorem keywords_allowNull (raw : Members) (required : List Json) :
    keywords (allowNull raw) required = { keywords raw required with nullable? := some true } := by
  rw [keywords, keywords, get_allowNull raw (show "enum" ≠ "nullable" by decide),
    get_allowNull raw (show "format" ≠ "nullable" by decide),
    get_allowNull raw (show "readOnly" ≠ "nullable" by decide),
    get_allowNull raw (show "description" ≠ "nullable" by decide)]
  rw [Members.get, get?_allowNull_self]
  rfl

/-- Nothing is said about null where the key is missing. -/
theorem nullable?_keywords (h : raw.has "nullable" = false) (required : List Json) :
    (keywords raw required).nullable? = none := by
  rw [keywords, Members.get, Members.get?_eq_none_of_has h]
  rfl

end Schema

/-- A node of a schema with the mark that it is nullable. -/
def Node.allowNull : Node → Node
  | .composition path raw kind members _ =>
    .composition path (Schema.allowNull raw) kind members true
  | .value path raw type? keywords items properties additional =>
    .value path (Schema.allowNull raw) type? { keywords with nullable? := some true } items
      properties additional
  | node => node

namespace Schema

variable {path : String} {raw : Members}

/-- A schema with the mark is read as the node of the schema with the mark. -/
theorem parse_allowNull (hplain : raw.has "$ref" = false) :
    parse path (.obj (allowNull raw)) = (parse path (.obj raw)).map Node.allowNull := by
  have hplain' : (allowNull raw).has "$ref" = false := by
    rw [has_allowNull raw (by decide), hplain]
  rcases reference_or_composition_or_value raw with href | ⟨_, kind, hkind⟩ | hvalue
  · rw [hplain] at href
    cases href
  · have hkind' : Counts (allowNull raw) kind := by
      rw [← composition?_eq_some_iff, composition?_allowNull, composition?_eq_some_iff]
      exact hkind
    have hmembers : parseMembersOf path kind (allowNull raw) = parseMembersOf path kind raw := by
      have hkeyword : kind.keyword ≠ "nullable" := by cases kind <;> decide
      rw [parseMembersOf_eq, parseMembersOf_eq, get?_allowNull raw hkeyword]
    have hnullable : ((allowNull raw).get "nullable").truthy = true := by
      rw [Members.get, get?_allowNull_self]
      rfl
    rw [parse_composition_eq hplain' hkind', parse_composition_eq hplain hkind, hmembers, hnullable]
    cases parseMembersOf path kind raw <;> rfl
  · have hvalue' : IsValue (allowNull raw) := by
      refine ⟨hplain', ?_⟩
      rw [← composition?_eq_none_iff, composition?_allowNull, composition?_eq_none_iff]
      exact hvalue.single
    have hitems : parseItemsOf path (allowNull raw) = parseItemsOf path raw := by
      rw [parseItemsOf_eq, parseItemsOf_eq, get?_allowNull raw (by decide)]
    have hproperties : parsePropertiesOf path (allowNull raw) = parsePropertiesOf path raw := by
      rw [parsePropertiesOf_eq, parsePropertiesOf_eq, get?_allowNull raw (by decide)]
    have hadditional : parseAdditionalOf path (allowNull raw) = parseAdditionalOf path raw := by
      rw [parseAdditionalOf_eq, parseAdditionalOf_eq, get?_allowNull raw (by decide)]
    rw [parse_value_eq hvalue', parse_value_eq hvalue, hitems, hproperties, hadditional,
      get_allowNull raw (by decide), get?_allowNull raw (by decide)]
    simp only [keywords_allowNull]
    cases parseItemsOf path raw <;> cases parsePropertiesOf path raw <;>
      cases (raw.get "required").orNone.elements <;> cases parseAdditionalOf path raw <;> rfl

/-- A schema of values that converts to the same type with the mark that it is nullable. -/
inductive DropsNull (raw : Members) : Prop
  /-- Its type is null, declared or implied. -/
  | null (hvalue : IsValue raw) (htype : typeOf? raw = some (.str "null"))
  /-- Its type is not known. -/
  | unknown {type : Json} (hvalue : IsValue raw) (htype : typeOf? raw = some type)
    (hunknown : ∀ name ∈ typeNames, type ≠ .str name)
  /-- It is an object of which all properties are allowed. -/
  | anyObject (hvalue : IsValue raw) (htype : typeOf? raw = some (.str "object"))
    (hadditional : raw.get? "additionalProperties" = some (.bool true))
  /-- It is an object all of whose declared properties are required, and a schema describes the
  others. -/
  | required (hvalue : IsValue raw) (htype : typeOf? raw = some (.str "object"))
    {additional : Members} (hadditional : raw.get? "additionalProperties" = some (.obj additional))
    {required : List Json} (hrequired : (raw.get "required").orNone.elements = .ok required)
    (hall : ∀ pair ∈ declared raw, required.any (Json.isText pair.1))

/-- Only schemas of values drop the mark. -/
theorem DropsNull.isValue (h : DropsNull raw) : IsValue raw := by
  cases h <;> assumption

/-- Only schemas of some types drop the mark. -/
theorem DropsNull.exists_type (h : DropsNull raw) : ∃ type, typeOf? raw = some type ∧
    (type = .str "null" ∨ type = .str "object" ∨ ∀ name ∈ typeNames, type ≠ .str name) := by
  cases h with
  | null _ htype => exact ⟨_, htype, Or.inl rfl⟩
  | unknown _ htype hunknown => exact ⟨_, htype, Or.inr (Or.inr hunknown)⟩
  | anyObject _ htype => exact ⟨_, htype, Or.inr (Or.inl rfl)⟩
  | required _ htype => exact ⟨_, htype, Or.inr (Or.inl rfl)⟩

/-- A known type other than null and that of objects keeps the mark. -/
theorem not_dropsNull {name : String} (htype : typeOf? raw = some (.str name))
    (hname : name ∈ ["array", "boolean", "integer", "number", "string"]) : ¬ DropsNull raw := by
  intro hdrops
  obtain ⟨type, hother, hcases⟩ := hdrops.exists_type
  cases htype.symm.trans hother
  have hknown : ["array", "boolean", "integer", "number", "string"] ⊆ typeNames := by decide
  rcases hcases with hnull | hobject | hunknown
  · cases hnull
    exact absurd hname (by decide)
  · cases hobject
    exact absurd hname (by decide)
  · exact hunknown name (hknown hname) rfl

/-- A schema of which no type is known keeps the mark. -/
theorem not_dropsNull_of_untyped (h : typeOf? raw = none) : ¬ DropsNull raw := by
  intro hdrops
  obtain ⟨type, hother, _⟩ := hdrops.exists_type
  cases h.symm.trans hother

/-- When an object drops the mark. -/
theorem dropsNull_object_iff (hvalue : IsValue raw) (htype : typeOf? raw = some (.str "object"))
    {required : List Json} (hrequired : (raw.get "required").orNone.elements = .ok required) :
    DropsNull raw ↔ raw.get? "additionalProperties" = some (.bool true) ∨
      (∃ additional, raw.get? "additionalProperties" = some (.obj additional)) ∧
        ∀ pair ∈ declared raw, required.any (Json.isText pair.1) := by
  constructor
  · rintro (⟨_, hother⟩ | ⟨_, hother, hunknown⟩ | ⟨_, _, hget⟩ | ⟨_, _, hget, hnames, hall⟩)
    · exact absurd (htype.symm.trans hother) (by simp)
    · cases htype.symm.trans hother
      exact absurd rfl (hunknown "object" (by decide))
    · exact Or.inl hget
    · cases hrequired.symm.trans hnames
      exact Or.inr ⟨⟨_, hget⟩, hall⟩
  · rintro (hget | ⟨⟨additional, hget⟩, hall⟩)
    · exact .anyObject hvalue htype hget
    · exact .required hvalue htype hget hrequired hall

end Schema

end ApiTypes
