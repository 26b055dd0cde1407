import ApiTypes.Proofs.Schema.Keywords
import ApiTypes.Proofs.Schema.Parts

/-!
# The grammar of schemas

Which values write a schema is defined by their structure alone, and so is the first defect
of all others, in the order in which the parts of a schema are read. Reading gives a node for
exactly the well-formed values, and fails with the first defect of any other value.
-/

namespace ApiTypes

namespace Json

/-- Whether a value has elements that can be visited: a list, an object or a text. -/
def hasElements : Json → Bool
  | .arr _ | .obj _ | .str _ => true
  | _ => false

/-- Only a value without elements has none to visit. -/
theorem elements_cases (value : Json) :
    (value.hasElements ∧ ∃ items, value.elements = .ok items) ∨
      value.hasElements = false ∧ value.elements = .error (.malformed .notIterable) := by
  cases value with
  | arr | obj | str => exact Or.inl ⟨rfl, _, rfl⟩
  | null | bool | int | float => exact Or.inr ⟨rfl, rfl⟩

end Json

namespace Schema

/-- The values that write a schema. -/
inductive WellFormed : Json → Prop
  /-- A truth value. -/
  | boolean (flag : Bool) : WellFormed (.bool flag)
  /-- A reference, whatever else the object holds. -/
  | reference {raw : Members} (href : raw.has "$ref") : WellFormed (.obj raw)
  /-- A composition of a list of schemas, whatever else the object holds. -/
  | composition {raw : Members} {kind : Composition} {values : List Json}
    (hplain : raw.has "$ref" = false) (hkind : Counts raw kind)
    (hget : raw.get? kind.keyword = some (.arr values))
    (hvalues : ∀ value ∈ values, WellFormed value) : WellFormed (.obj raw)
  /-- A schema of values. The objects under `items`, `properties` and `additionalProperties`
  hold schemas, `properties` and `required` may be empty in any way, and what is required
  can be visited. -/
  | value {raw : Members} (hvalue : IsValue raw)
    (hitems : ∀ items, raw.get? "items" = some (.obj items) → WellFormed (.obj items))
    (hmapping : (raw.get "properties").truthy → (raw.get "properties").members?.isSome)
    (hproperties : ∀ properties, raw.get? "properties" = some (.obj properties) →
      ∀ pair ∈ properties, WellFormed pair.2)
    (hrequired : (raw.get "required").truthy → (raw.get "required").hasElements)
    (hadditional : ∀ additional, raw.get? "additionalProperties" = some (.obj additional) →
      WellFormed (.obj additional)) : WellFormed (.obj raw)

/-- The items of a schema of values have no defect. -/
def ItemsSound (raw : Members) : Prop :=
  ∀ items, raw.get? "items" = some (.obj items) → WellFormed (.obj items)

/-- The declared properties have no defect. -/
def PropertiesSound (raw : Members) : Prop :=
  ((raw.get "properties").truthy → (raw.get "properties").members?.isSome) ∧
    ∀ properties, raw.get? "properties" = some (.obj properties) →
      ∀ pair ∈ properties, WellFormed pair.2

/-- The required names have no defect. -/
def RequiredSound (raw : Members) : Prop :=
  (raw.get "required").truthy → (raw.get "required").hasElements

/-- The failure that stands for the first defect of a value which was read at a path: first
that it is no schema at all, then the defects of the members of a composition in their order,
or those of the items, the properties in their order, the required names and the additional
properties. -/
inductive FirstDefect : (path : String) → Json → Failure → Prop
  /-- A value that is neither a truth value nor an object. -/
  | notSchema {path : String} {value : Json} (hboolean : ∀ flag, value ≠ .bool flag)
    (hobject : ∀ raw, value ≠ .obj raw) :
    FirstDefect path value (.schema (.shape .notSchema value path))
  /-- A composition of something else than a list. -/
  | notMembers {path : String} {raw : Members} {kind : Composition} {value : Json}
    (hplain : raw.has "$ref" = false) (hkind : Counts raw kind)
    (hget : raw.get? kind.keyword = some value) (hlist : ∀ values, value ≠ .arr values) :
    FirstDefect path (.obj raw) (.schema (.shape (.notMembers kind) value path))
  /-- A member of a composition. -/
  | member {path : String} {raw : Members} {kind : Composition} {before after : List Json}
    {value : Json} {failure : Failure} (hplain : raw.has "$ref" = false)
    (hkind : Counts raw kind)
    (hget : raw.get? kind.keyword = some (.arr (before ++ value :: after)))
    (hbefore : ∀ other ∈ before, WellFormed other)
    (h : FirstDefect (Pointer.child path [kind.keyword, toString before.length]) value failure) :
    FirstDefect path (.obj raw) failure
  /-- The schema of the items. -/
  | items {path : String} {raw items : Members} {failure : Failure} (hvalue : IsValue raw)
    (hget : raw.get? "items" = some (.obj items))
    (h : FirstDefect (Pointer.child path ["items"]) (.obj items) failure) :
    FirstDefect path (.obj raw) failure
  /-- Properties that are not in an object. -/
  | notMapping {path : String} {raw : Members} (hvalue : IsValue raw) (hitems : ItemsSound raw)
    (htruthy : (raw.get "properties").truthy)
    (hmapping : (raw.get "properties").members? = none) :
    FirstDefect path (.obj raw) (.malformed .notMapping)
  /-- A declared property. -/
  | property {path : String} {raw before after : Members} {name : String} {value : Json}
    {failure : Failure} (hvalue : IsValue raw) (hitems : ItemsSound raw)
    (hget : raw.get? "properties" = some (.obj (before ++ (name, value) :: after)))
    (hbefore : ∀ pair ∈ before, WellFormed pair.2)
    (h : FirstDefect (Pointer.child path ["properties", name]) value failure) :
    FirstDefect path (.obj raw) failure
  /-- Required names that cannot be visited. -/
  | notIterable {path : String} {raw : Members} (hvalue : IsValue raw) (hitems : ItemsSound raw)
    (hproperties : PropertiesSound raw) (htruthy : (raw.get "required").truthy)
    (helements : (raw.get "required").hasElements = false) :
    FirstDefect path (.obj raw) (.malformed .notIterable)
  /-- The schema of the properties that are not declared. -/
  | additional {path : String} {raw additional : Members} {failure : Failure}
    (hvalue : IsValue raw) (hitems : ItemsSound raw) (hproperties : PropertiesSound raw)
    (hrequired : RequiredSound raw)
    (hget : raw.get? "additionalProperties" = some (.obj additional))
    (h : FirstDefect (Pointer.child path ["additionalProperties"]) (.obj additional) failure) :
    FirstDefect path (.obj raw) failure

section

variable {path : String}

variable {raw : Members}

end

/-! ### What reading accepts -/

/-- A value that is read at any path. -/
def Accepted (value : Json) : Prop :=
  ∀ path, ∃ node, parse path value = .ok node

section

variable {path : String} {raw : Members}

/-- Accepted members of a composition are read. -/
theorem exists_parseAll_ok {values : List Json} (h : ∀ value ∈ values, Accepted value)
    (path : String) (kind : Composition) (first : Nat) :
    ∃ nodes, parseAll path kind first values = .ok nodes := by
  induction values generalizing first with
  | nil => exact ⟨[], rfl⟩
  | cons value rest ih =>
    obtain ⟨hvalue, hrest⟩ := List.forall_mem_cons.mp h
    obtain ⟨node, hnode⟩ := hvalue (Pointer.child path [kind.keyword, toString first])
    obtain ⟨nodes, hnodes⟩ := ih hrest (first + 1)
    exact ⟨node :: nodes, by rw [parseAll, hnode, hnodes]; rfl⟩

/-- Accepted properties are read. -/
theorem exists_parseEach_ok {properties : Members} (h : ∀ pair ∈ properties, Accepted pair.2)
    (path : String) : ∃ nodes, parseEach path properties = .ok nodes := by
  induction properties with
  | nil => exact ⟨[], rfl⟩
  | cons pair rest ih =>
    obtain ⟨name, value⟩ := pair
    obtain ⟨hvalue, hrest⟩ := List.forall_mem_cons.mp h
    obtain ⟨node, hnode⟩ := hvalue (Pointer.child path ["properties", name])
    obtain ⟨nodes, hnodes⟩ := ih hrest
    exact ⟨(name, node) :: nodes, by rw [parseEach, hnode, hnodes]; rfl⟩

/-- Accepted items are read. -/
theorem exists_parseItemsOf_ok
    (h : ∀ items, raw.get? "items" = some (.obj items) → Accepted (.obj items)) (path : String) :
    ∃ items, parseItemsOf path raw = .ok items := by
  rw [parseItemsOf_eq]
  split
  · rename_i items hget
    obtain ⟨node, hnode⟩ := h items hget (Pointer.child path ["items"])
    exact ⟨.schema node, by rw [hnode]; rfl⟩
  · exact ⟨_, rfl⟩
  · exact ⟨_, rfl⟩

/-- Properties that are accepted or missing are read. -/
theorem exists_parsePropertiesOf_ok
    (hmapping : (raw.get "properties").truthy → (raw.get "properties").members?.isSome)
    (h : ∀ properties, raw.get? "properties" = some (.obj properties) →
      ∀ pair ∈ properties, Accepted pair.2) (path : String) :
    ∃ properties, parsePropertiesOf path raw = .ok properties := by
  rw [parsePropertiesOf_eq]
  split
  · rename_i properties hget
    exact exists_parseEach_ok (h properties hget) path
  · rename_i value hobject hget
    rw [Members.get, hget, Option.getD_some] at hmapping
    split
    · rename_i htruthy
      obtain ⟨properties, hproperties⟩ := Option.isSome_iff_exists.mp (hmapping htruthy)
      cases value with
      | obj properties => exact absurd rfl (hobject properties)
      | _ => cases hproperties
    · exact ⟨[], rfl⟩
  · exact ⟨[], rfl⟩

/-- Sound lists of required properties have elements. -/
theorem exists_required_ok (h : RequiredSound raw) :
    ∃ required, (raw.get "required").orNone.elements = .ok required := by
  rw [Json.orNone]
  split
  · rename_i htruthy
    rcases Json.elements_cases (raw.get "required") with ⟨_, items, hitems⟩ | ⟨hno, _⟩
    · exact ⟨items, hitems⟩
    · rw [h htruthy] at hno
      cases hno
  · exact ⟨[], rfl⟩

/-- Accepted additional properties are read. -/
theorem exists_parseAdditionalOf_ok
    (h : ∀ additional, raw.get? "additionalProperties" = some (.obj additional) →
      Accepted (.obj additional)) (path : String) :
    ∃ additional, parseAdditionalOf path raw = .ok additional := by
  rw [parseAdditionalOf_eq]
  split
  · rename_i additional hget
    obtain ⟨node, hnode⟩ := h additional hget (Pointer.child path ["additionalProperties"])
    exact ⟨.schema node, by rw [hnode]; rfl⟩
  · exact ⟨_, rfl⟩
  · exact ⟨_, rfl⟩

/-- A well-formed value is read, at any path. -/
theorem WellFormed.accepted {value : Json} (h : WellFormed value) : Accepted value := by
  induction h with
  | boolean flag => exact fun path => ⟨.boolean path flag, rfl⟩
  | @reference raw href =>
    obtain ⟨ref, href⟩ := Option.isSome_iff_exists.mp href
    exact fun path => ⟨.reference path raw ref, parse_reference_eq href⟩
  | @composition raw kind values hplain hkind hget _ ih =>
    intro path
    obtain ⟨nodes, hnodes⟩ := exists_parseAll_ok ih path kind 0
    rw [parse_composition_eq hplain hkind, parseMembersOf_eq, hget]
    simp only [hnodes]
    exact ⟨_, rfl⟩
  | value hvalue _ hmapping _ hrequired _ ihitems ihproperties ihadditional =>
    intro path
    obtain ⟨items, hitems⟩ := exists_parseItemsOf_ok ihitems path
    obtain ⟨properties, hproperties⟩ := exists_parsePropertiesOf_ok hmapping ihproperties path
    obtain ⟨required, hrequired⟩ := exists_required_ok hrequired
    obtain ⟨additional, hadditional⟩ := exists_parseAdditionalOf_ok ihadditional path
    rw [parse_value_eq hvalue, hitems, hproperties, hrequired, hadditional]
    exact ⟨_, rfl⟩

end

/-! ### What reading refuses -/

section

variable {path : String} {raw : Members} {failure : Failure}

/-- The failure of a value in a list, when all values before it are read. -/
theorem parseAll_eq_error {kind : Composition} {before after : List Json} {value : Json}
    {first : Nat} (hbefore : ∀ other ∈ before, WellFormed other)
    (h : parse (Pointer.child path [kind.keyword, toString (first + before.length)]) value =
      .error failure) :
    parseAll path kind first (before ++ value :: after) = .error failure := by
  induction before generalizing first with
  | nil =>
    rw [List.length_nil, Nat.add_zero] at h
    rw [List.nil_append, parseAll, h]
    rfl
  | cons other rest ih =>
    obtain ⟨hother, hrest⟩ := List.forall_mem_cons.mp hbefore
    obtain ⟨node, hnode⟩ := hother.accepted (Pointer.child path [kind.keyword, toString first])
    rw [List.length_cons, Nat.add_comm rest.length, ← Nat.add_assoc] at h
    rw [List.cons_append, parseAll, hnode, ih hrest h]
    rfl

/-- The first property that is not read stops the others. -/
theorem parseEach_eq_error {before after : Members} {name : String} {value : Json}
    (hbefore : ∀ pair ∈ before, WellFormed pair.2)
    (h : parse (Pointer.child path ["properties", name]) value = .error failure) :
    parseEach path (before ++ (name, value) :: after) = .error failure := by
  induction before with
  | nil =>
    rw [List.nil_append, parseEach, h]
    rfl
  | cons pair rest ih =>
    obtain ⟨other, value'⟩ := pair
    obtain ⟨hother, hrest⟩ := List.forall_mem_cons.mp hbefore
    obtain ⟨node, hnode⟩ := hother.accepted (Pointer.child path ["properties", other])
    rw [List.cons_append, parseEach, hnode, ih hrest]
    rfl

/-- Sound items are read. -/
theorem ItemsSound.exists_ok (h : ItemsSound raw) (path : String) :
    ∃ items, parseItemsOf path raw = .ok items :=
  exists_parseItemsOf_ok (fun items hget => (h items hget).accepted) path

/-- Sound properties are read. -/
theorem PropertiesSound.exists_ok (h : PropertiesSound raw) (path : String) :
    ∃ properties, parsePropertiesOf path raw = .ok properties :=
  exists_parsePropertiesOf_ok h.1 (fun properties hget pair hpair =>
    (h.2 properties hget pair hpair).accepted) path

/-- The first defect of a value is the failure of its reading. -/
theorem FirstDefect.parse_eq {value : Json} (h : FirstDefect path value failure) :
    parse path value = .error failure := by
  induction h with
  | @notSchema path value hboolean hobject =>
    cases value with
    | bool flag => exact absurd rfl (hboolean flag)
    | obj raw => exact absurd rfl (hobject raw)
    | _ => rfl
  | @notMembers path raw kind value hplain hkind hget hlist =>
    rw [parse_composition_eq hplain hkind, parseMembersOf_eq, hget]
    cases value with
    | arr values => exact absurd rfl (hlist values)
    | _ => rfl
  | member hplain hkind hget hbefore _ ih =>
    rw [← Nat.zero_add (List.length _)] at ih
    rw [parse_composition_eq hplain hkind, parseMembersOf_eq, hget]
    simp only [parseAll_eq_error hbefore ih]
    rfl
  | items hvalue hget _ ih =>
    rw [parse_value_eq hvalue, parseItemsOf_eq, hget]
    simp only [ih]
    rfl
  | @notMapping path raw hvalue hitems htruthy hmapping =>
    obtain ⟨items, hitems⟩ := hitems.exists_ok path
    rw [parse_value_eq hvalue, hitems, parsePropertiesOf_eq]
    cases hget : raw.get? "properties" with
    | none =>
      rw [Members.get, hget] at htruthy
      cases htruthy
    | some value =>
      rw [Members.get, hget, Option.getD_some] at htruthy hmapping
      cases value with
      | obj properties => cases hmapping
      | _ => simp only [if_pos htruthy]; rfl
  | @property path raw before after name value failure hvalue hitems hget hbefore _ ih =>
    obtain ⟨items, hitems⟩ := hitems.exists_ok path
    rw [parse_value_eq hvalue, hitems, parsePropertiesOf_eq, hget]
    simp only [parseEach_eq_error hbefore ih]
    rfl
  | @notIterable path raw hvalue hitems hproperties htruthy helements =>
    obtain ⟨items, hitems⟩ := hitems.exists_ok path
    obtain ⟨properties, hproperties⟩ := hproperties.exists_ok path
    rw [parse_value_eq hvalue, hitems, hproperties, Json.orNone, if_pos htruthy]
    rcases Json.elements_cases (raw.get "required") with ⟨hhas, _⟩ | ⟨_, herror⟩
    · rw [helements] at hhas
      cases hhas
    · rw [herror]
      rfl
  | @additional path raw additional failure hvalue hitems hproperties hrequired hget _ ih =>
    obtain ⟨items, hitems⟩ := hitems.exists_ok path
    obtain ⟨properties, hproperties⟩ := hproperties.exists_ok path
    obtain ⟨required, hrequired⟩ := exists_required_ok hrequired
    rw [parse_value_eq hvalue, hitems, hproperties, hrequired, parseAdditionalOf_eq, hget]
    simp only [ih]
    rfl

end

end Schema

end ApiTypes
