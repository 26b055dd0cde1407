import ApiTypes.Schema.Parse

/-!
# Keywords of schemas

Reading searches the members of a schema for each of its keywords. What it reads is
determined by the value of the keyword, wherever that stands among the members, and the
first of three keywords decides whether the schema is a composition.
-/

namespace ApiTypes

/-- Nothing is under a missing key. -/
theorem Members.get?_eq_none_of_has {members : Members} {key : String}
    (h : members.has key = false) : members.get? key = none :=
  Option.isNone_iff_eq_none.mp (Option.isSome_eq_false_iff.mp h)

namespace Schema

/-- The members of a composition are read from the list under its keyword. -/
theorem parseMembersOf_eq (path : String) (kind : Composition) (members : Members) :
    parseMembersOf path kind members = match members.get? kind.keyword with
      | some (.arr values) => parseAll path kind 0 values
      | some value => .error (.schema (.shape (.notMembers kind) value path))
      | none => .ok [] := by
  induction members with
  | nil => rfl
  | cons pair rest ih =>
    obtain ⟨key, value⟩ := pair
    rw [parseMembersOf.eq_def]
    by_cases hkey : key = kind.keyword
    · simp only [if_pos hkey, Members.get?]
      cases value <;> rfl
    · simpa only [if_neg hkey, Members.get?] using ih

/-- An object under `items` is read as a schema, and any other value is kept. -/
theorem parseItemsOf_eq (path : String) (members : Members) :
    parseItemsOf path members = match members.get? "items" with
      | some (.obj items) => (parse (Pointer.child path ["items"]) (.obj items)).map .schema
      | some value => .ok (.other value)
      | none => .ok (.other .null) := by
  induction members with
  | nil => rfl
  | cons pair rest ih =>
    obtain ⟨key, value⟩ := pair
    rw [parseItemsOf.eq_def]
    by_cases hkey : key = "items"
    · simp only [if_pos hkey, Members.get?]
      cases value <;> rfl
    · simpa only [if_neg hkey, Members.get?] using ih

/-- The declared properties are read from the object under `properties`. -/
theorem parsePropertiesOf_eq (path : String) (members : Members) :
    parsePropertiesOf path members = match members.get? "properties" with
      | some (.obj properties) => parseEach path properties
      | some value => if value.truthy then .error (.malformed .notMapping) else .ok []
      | none => .ok [] := by
  induction members with
  | nil => rfl
  | cons pair rest ih =>
    obtain ⟨key, value⟩ := pair
    rw [parsePropertiesOf.eq_def]
    by_cases hkey : key = "properties"
    · simp only [if_pos hkey, Members.get?]
      cases value <;> rfl
    · simpa only [if_neg hkey, Members.get?] using ih

/-- An object under `additionalProperties` is read as a schema, and a truth value is kept. -/
theorem parseAdditionalOf_eq (path : String) (members : Members) :
    parseAdditionalOf path members = match members.get? "additionalProperties" with
      | some (.obj additional) =>
        (parse (Pointer.child path ["additionalProperties"]) (.obj additional)).map .schema
      | some (.bool flag) => .ok (.allowed flag)
      | _ => .ok .unspecified := by
  induction members with
  | nil => rfl
  | cons pair rest ih =>
    obtain ⟨key, value⟩ := pair
    rw [parseAdditionalOf.eq_def]
    by_cases hkey : key = "additionalProperties"
    · simp only [if_pos hkey, Members.get?]
      cases value <;> rfl
    · simpa only [if_neg hkey, Members.get?] using ih

/-- The keyword that makes a schema a composition: the first one of `oneOf`, `allOf` and
`anyOf` that is there. -/
inductive Counts (raw : Members) : Composition → Prop
  /-- `oneOf` always counts. -/
  | oneOf (h : raw.has "oneOf") : Counts raw .oneOf
  /-- `allOf` counts without `oneOf`. -/
  | allOf (hone : raw.has "oneOf" = false) (h : raw.has "allOf") : Counts raw .allOf
  /-- `anyOf` counts if it stands alone. -/
  | anyOf (hone : raw.has "oneOf" = false) (hall : raw.has "allOf" = false)
    (h : raw.has "anyOf") : Counts raw .anyOf

/-- The keyword that counts is there. -/
theorem Counts.has {raw : Members} {kind : Composition} (h : Counts raw kind) :
    raw.has kind.keyword := by
  cases h <;> assumption

variable {raw : Members}

/-- The keywords of compositions are tried in order. -/
theorem composition?_eq (raw : Members) :
    composition? raw = if raw.has "oneOf" then some .oneOf
      else if raw.has "allOf" then some .allOf
      else if raw.has "anyOf" then some .anyOf else none := by
  cases hone : raw.has "oneOf" <;> cases hall : raw.has "allOf" <;>
    cases hany : raw.has "anyOf" <;>
    simp [composition?, Composition.keyword, hone, hall, hany]

/-- The composition of a schema is the one that counts. -/
theorem composition?_eq_some_iff {kind : Composition} :
    composition? raw = some kind ↔ Counts raw kind := by
  rw [composition?_eq]
  constructor
  · intro h
    split at h
    · rename_i hone
      cases h
      exact .oneOf hone
    · rename_i hone
      split at h
      · rename_i hall
        cases h
        exact .allOf (by simpa using hone) hall
      · rename_i hall
        split at h
        · rename_i hany
          cases h
          exact .anyOf (by simpa using hone) (by simpa using hall) hany
        · cases h
  · rintro (hone | ⟨hone, hall⟩ | ⟨hone, hall, hany⟩)
    · simp [hone]
    · simp [hone, hall]
    · simp [hone, hall, hany]

/-- A schema without the keywords is no composition. -/
theorem composition?_eq_none_iff :
    composition? raw = none ↔ ∀ kind : Composition, raw.has kind.keyword = false := by
  rw [composition?, List.find?_eq_none]
  constructor
  · intro h kind
    have hkind := h kind (by cases kind <;> decide)
    simpa using hkind
  · intro h kind _
    simp [h kind]

/-- An object that is a schema of values: neither a reference nor a composition. -/
structure IsValue (raw : Members) : Prop where
  /-- It is no reference. -/
  plain : raw.has "$ref" = false
  /-- It is no composition. -/
  single : ∀ kind : Composition, raw.has kind.keyword = false

/-- No keyword of compositions counts in a schema of values. -/
theorem IsValue.not_counts (h : IsValue raw) (kind : Composition) : ¬ Counts raw kind := by
  intro hkind
  have hnone := composition?_eq_none_iff.mpr h.single
  rw [composition?_eq_some_iff.mpr hkind] at hnone
  cases hnone

/-- An object is a reference, a composition or a schema of values. -/
theorem reference_or_composition_or_value (raw : Members) :
    raw.has "$ref" ∨ (raw.has "$ref" = false ∧ ∃ kind, Counts raw kind) ∨ IsValue raw := by
  cases hplain : raw.has "$ref" with
  | true => exact Or.inl rfl
  | false =>
    refine Or.inr ?_
    cases hkind : composition? raw with
    | some kind => exact Or.inl ⟨rfl, kind, composition?_eq_some_iff.mp hkind⟩
    | none => exact Or.inr ⟨hplain, composition?_eq_none_iff.mp hkind⟩

variable {path : String}

/-- A schema with a reference is read as one. -/
theorem parse_reference_eq {ref : Json} (href : raw.get? "$ref" = some ref) :
    parse path (.obj raw) = .ok (.reference path raw ref) := by
  rw [parse, href]

/-- A composition is read through its members. -/
theorem parse_composition_eq {kind : Composition} (hplain : raw.has "$ref" = false)
    (hkind : Counts raw kind) : parse path (.obj raw) = (do
      let members ← parseMembersOf path kind raw
      return .composition path raw kind members (raw.get "nullable").truthy) := by
  rw [parse, Members.get?_eq_none_of_has hplain, composition?_eq_some_iff.mpr hkind]

/-- A schema of values is read part by part. -/
theorem parse_value_eq (hvalue : IsValue raw) : parse path (.obj raw) = (do
      let items ← parseItemsOf path raw
      let properties ← parsePropertiesOf path raw
      let required ← (raw.get "required").orNone.elements
      let additional ← parseAdditionalOf path raw
      return .value path raw (raw.get? "type") (keywords raw required) items properties
        additional) := by
  rw [parse, Members.get?_eq_none_of_has hvalue.plain,
    composition?_eq_none_iff.mpr hvalue.single]

end Schema

end ApiTypes
