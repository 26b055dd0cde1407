import ApiTypes.TypeExpr.Basic

/-!
# Names inside types

A type refers to others by name. The names are listed from left to right, the
properties of an object before its index signature, and the names of declared
components can be replaced by others.
-/

namespace ApiTypes

/-- A name in a type. -/
inductive TypeName where
  /-- The name of a declared component. -/
  | component (identifier : String)
  /-- A name that the settings or a format rule give. -/
  | external (name : Json)

namespace TypeName

/-- The identifier of a declared component. -/
def identifier? : TypeName → Option String
  | .component identifier => some identifier
  | .external _ => none

/-- The name of a type that is not declared. -/
def external? : TypeName → Option Json
  | .component _ => none
  | .external name => some name

/-- A name with another identifier if it is that of a component. -/
def map (f : String → String) : TypeName → TypeName
  | .component identifier => .component (f identifier)
  | .external name => .external name

end TypeName

namespace TypeExpr

mutual

/-- The names in a type, from left to right. -/
def names : TypeExpr → List TypeName
  | .array item => item.names
  | .object properties index? => namesOfProperties properties ++ match index? with
    | some ⟨_, type⟩ => type.names
    | none => []
  | .union members => namesOfAll members
  | .intersection members => namesOfAll members
  | .component identifier => [.component identifier]
  | .external name => [.external name]
  | .missing | .any | .null | .primitive _ | .literals .. => []

/-- The names in types, one type after another. -/
def namesOfAll : List TypeExpr → List TypeName
  | [] => []
  | type :: rest => type.names ++ namesOfAll rest

/-- The names in the types of properties. -/
def namesOfProperties : List (Property TypeExpr) → List TypeName
  | [] => []
  | ⟨_, type, _, _, _⟩ :: rest => type.names ++ namesOfProperties rest

end

/-- The identifiers of the components in a type, from left to right. -/
def components (type : TypeExpr) : List String := type.names.filterMap TypeName.identifier?

/-- The names in a type that are not declared, from left to right. -/
def externals (type : TypeExpr) : List Json := type.names.filterMap TypeName.external?

mutual

/-- A type with other names for its components. -/
def rename (f : String → String) : TypeExpr → TypeExpr
  | .array item => .array (item.rename f)
  | .object properties index? => .object (renameProperties f properties) (match index? with
    | some ⟨key, type⟩ => some ⟨key, type.rename f⟩
    | none => none)
  | .union members => .union (renameAll f members)
  | .intersection members => .intersection (renameAll f members)
  | .component identifier => .component (f identifier)
  | type@(.external _) | type@.missing | type@.any | type@.null | type@(.primitive _)
  | type@(.literals ..) => type

/-- Types with other names for their components. -/
def renameAll (f : String → String) : List TypeExpr → List TypeExpr
  | [] => []
  | type :: rest => type.rename f :: renameAll f rest

/-- Properties with other names for the components in their types. -/
def renameProperties (f : String → String) : List (Property TypeExpr) → List (Property TypeExpr)
  | [] => []
  | ⟨name, type, optional, readOnly, comment⟩ :: rest =>
    ⟨name, type.rename f, optional, readOnly, comment⟩ :: renameProperties f rest

end

/-- The names in a list of types are those in each of them. -/
theorem namesOfAll_eq (types : List TypeExpr) : namesOfAll types = types.flatMap names := by
  induction types with
  | nil => rfl
  | cons type rest ih => simp [namesOfAll, ih]

/-- The names in properties are those in their types. -/
theorem namesOfProperties_eq (properties : List (Property TypeExpr)) :
    namesOfProperties properties = properties.flatMap fun p => p.type.names := by
  induction properties with
  | nil => rfl
  | cons property rest ih => simp [namesOfProperties, ih]

/-- A list of types is renamed type by type. -/
theorem renameAll_eq (f : String → String) (types : List TypeExpr) :
    renameAll f types = types.map (rename f) := by
  induction types with
  | nil => rfl
  | cons type rest ih => simp [renameAll, ih]

/-- Properties are renamed in their types. -/
theorem renameProperties_eq (f : String → String) (properties : List (Property TypeExpr)) :
    renameProperties f properties = properties.map fun p => { p with type := p.type.rename f } := by
  induction properties with
  | nil => rfl
  | cons property rest ih => simp [renameProperties, ih]

mutual

/-- Renaming acts on each name where it stands. -/
theorem names_rename (f : String → String) :
    (type : TypeExpr) → (type.rename f).names = type.names.map (TypeName.map f)
  | .array item => by simp only [rename, names, names_rename f item]
  | .object properties none => by simp [rename, names, namesOfProperties_rename f properties]
  | .object properties (some ⟨key, type⟩) => by
    simp [rename, names, namesOfProperties_rename f properties, names_rename f type]
  | .union members => by simp only [rename, names, namesOfAll_rename f members]
  | .intersection members => by simp only [rename, names, namesOfAll_rename f members]
  | .component _ | .external _ | .missing | .any | .null | .primitive _ | .literals .. => rfl

/-- The names in renamed types are renamed. -/
theorem namesOfAll_rename (f : String → String) : (types : List TypeExpr) →
    namesOfAll (renameAll f types) = (namesOfAll types).map (TypeName.map f)
  | [] => rfl
  | type :: rest => by
    simp only [renameAll, namesOfAll, names_rename f type, namesOfAll_rename f rest,
      List.map_append]

/-- The names in renamed properties are renamed. -/
theorem namesOfProperties_rename (f : String → String) :
    (properties : List (Property TypeExpr)) →
    namesOfProperties (renameProperties f properties) =
      (namesOfProperties properties).map (TypeName.map f)
  | [] => rfl
  | ⟨_, type, _, _, _⟩ :: rest => by
    simp only [renameProperties, namesOfProperties, names_rename f type,
      namesOfProperties_rename f rest, List.map_append]

end

mutual

/-- Only the identifiers that occur matter to a renaming. -/
theorem rename_congr {f g : String → String} : (type : TypeExpr) →
    (∀ identifier, .component identifier ∈ type.names → f identifier = g identifier) →
    type.rename f = type.rename g
  | .array item, h => by simp only [rename, rename_congr item h]
  | .object properties none, h => by
    simp only [rename, renameProperties_congr properties fun identifier hmem =>
      h identifier (List.mem_append_left _ hmem)]
  | .object properties (some ⟨key, type⟩), h => by
    simp only [rename,
      renameProperties_congr properties fun identifier hmem =>
        h identifier (List.mem_append_left _ hmem),
      rename_congr type fun identifier hmem => h identifier (List.mem_append_right _ hmem)]
  | .union members, h => by simp only [rename, renameAll_congr members h]
  | .intersection members, h => by simp only [rename, renameAll_congr members h]
  | .component identifier, h => by simp [rename, h identifier (by simp [names])]
  | .external _, _ | .missing, _ | .any, _ | .null, _ | .primitive _, _ | .literals .., _ => rfl

/-- Only the components in the types count for a renaming. -/
theorem renameAll_congr {f g : String → String} : (types : List TypeExpr) →
    (∀ identifier, .component identifier ∈ namesOfAll types → f identifier = g identifier) →
    renameAll f types = renameAll g types
  | [], _ => rfl
  | type :: rest, h => by
    simp only [renameAll,
      rename_congr type fun identifier hmem => h identifier (List.mem_append_left _ hmem),
      renameAll_congr rest fun identifier hmem => h identifier (List.mem_append_right _ hmem)]

/-- Only the components in the properties count for a renaming. -/
theorem renameProperties_congr {f g : String → String} :
    (properties : List (Property TypeExpr)) →
    (∀ identifier, .component identifier ∈ namesOfProperties properties →
      f identifier = g identifier) →
    renameProperties f properties = renameProperties g properties
  | [], _ => rfl
  | ⟨_, type, _, _, _⟩ :: rest, h => by
    simp only [renameProperties,
      rename_congr type fun identifier hmem => h identifier (List.mem_append_left _ hmem),
      renameProperties_congr rest fun identifier hmem =>
        h identifier (List.mem_append_right _ hmem)]

end

mutual

/-- Renaming twice is renaming once. -/
theorem rename_rename (f g : String → String) :
    (type : TypeExpr) → (type.rename f).rename g = type.rename (g ∘ f)
  | .array item => by simp only [rename, rename_rename f g item]
  | .object properties none => by simp only [rename, renameProperties_rename f g properties]
  | .object properties (some ⟨key, type⟩) => by
    simp only [rename, renameProperties_rename f g properties, rename_rename f g type]
  | .union members => by simp only [rename, renameAll_rename f g members]
  | .intersection members => by simp only [rename, renameAll_rename f g members]
  | .component _ | .external _ | .missing | .any | .null | .primitive _ | .literals .. => rfl

/-- Types that are renamed twice are renamed by the composition. -/
theorem renameAll_rename (f g : String → String) : (types : List TypeExpr) →
    renameAll g (renameAll f types) = renameAll (g ∘ f) types
  | [] => rfl
  | type :: rest => by
    simp only [renameAll, rename_rename f g type, renameAll_rename f g rest]

/-- Properties that are renamed twice are renamed by the composition. -/
theorem renameProperties_rename (f g : String → String) :
    (properties : List (Property TypeExpr)) →
    renameProperties g (renameProperties f properties) = renameProperties (g ∘ f) properties
  | [] => rfl
  | ⟨_, type, _, _, _⟩ :: rest => by
    simp only [renameProperties, rename_rename f g type, renameProperties_rename f g rest]

end

mutual

/-- A type stays when every component keeps its name. -/
theorem rename_id : (type : TypeExpr) → type.rename id = type
  | .array item => by simp only [rename, rename_id item]
  | .object properties none => by simp only [rename, renameProperties_id properties]
  | .object properties (some ⟨key, type⟩) => by
    simp only [rename, renameProperties_id properties, rename_id type]
  | .union members => by simp only [rename, renameAll_id members]
  | .intersection members => by simp only [rename, renameAll_id members]
  | .component _ | .external _ | .missing | .any | .null | .primitive _ | .literals .. => rfl

/-- Types stay when every component keeps its name. -/
theorem renameAll_id : (types : List TypeExpr) → renameAll id types = types
  | [] => rfl
  | type :: rest => by simp only [renameAll, rename_id type, renameAll_id rest]

/-- Properties stay when every component keeps its name. -/
theorem renameProperties_id :
    (properties : List (Property TypeExpr)) → renameProperties id properties = properties
  | [] => rfl
  | ⟨_, type, _, _, _⟩ :: rest => by
    simp only [renameProperties, rename_id type, renameProperties_id rest]

end

@[simp] theorem names_any : any.names = [] := rfl

@[simp] theorem names_null : null.names = [] := rfl

@[simp] theorem names_anyObject : anyObject.names = [] := rfl

/-- The null type beside a type adds no name. -/
@[simp] theorem names_orNull (type : TypeExpr) (nullable : Bool) :
    (type.orNull nullable).names = type.names := by
  cases nullable <;> simp [orNull, names, namesOfAll]

/-- Making a type nullable names nothing. -/
@[simp] theorem rename_orNull (f : String → String) (type : TypeExpr) (nullable : Bool) :
    (type.orNull nullable).rename f = (type.rename f).orNull nullable := by
  cases nullable <;> simp [orNull, rename, renameAll]

/-- A component occurs in a type when its name does. -/
theorem mem_components {type : TypeExpr} {identifier : String} :
    identifier ∈ type.components ↔ .component identifier ∈ type.names := by
  simp only [components, List.mem_filterMap]
  constructor
  · rintro ⟨⟨⟩, hmem, heq⟩ <;> cases heq
    exact hmem
  · intro hmem
    exact ⟨_, hmem, rfl⟩

/-- Renaming acts on each component where it stands. -/
theorem components_rename (f : String → String) (type : TypeExpr) :
    (type.rename f).components = type.components.map f := by
  simp only [components, names_rename, List.filterMap_map, List.map_filterMap]
  congr 1
  funext name
  cases name <;> rfl

/-- Without components there is nothing to rename. -/
theorem rename_of_components_eq_nil (f : String → String) {type : TypeExpr}
    (h : type.components = []) : type.rename f = type := by
  rw [rename_congr (g := id) type, rename_id]
  intro identifier hmem
  rw [← mem_components, h] at hmem
  cases hmem

/-- Renaming leaves the other names as they are. -/
theorem externals_rename (f : String → String) (type : TypeExpr) :
    (type.rename f).externals = type.externals := by
  simp only [externals, names_rename, List.filterMap_map]
  congr 1
  funext name
  cases name <;> rfl

end TypeExpr

end ApiTypes
