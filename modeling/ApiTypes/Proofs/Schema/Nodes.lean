import ApiTypes.Proofs.Schema.Keywords
import ApiTypes.Proofs.Schema.Parts

/-!
# Nodes and what was read

A node keeps what was read, and its parts correspond to the parts of that: the declared
properties to the members of `properties`, in their order, and the members of a
composition to the items of the keyword that counts.
-/

namespace ApiTypes.Schema

/-- A node keeps the path at which it was read. -/
theorem parse_path {path : String} {value : Json} {node : Node}
    (h : parse path value = .ok node) : node.path = path := by
  cases value with
  | bool flag =>
    cases h
    rfl
  | obj raw =>
    rcases parse_obj_cases h with ⟨ref, _, rfl⟩ | ⟨kind, members, nullable, _, _, _, rfl⟩ |
      ⟨type?, keywords, items, properties, additional, _, _, _, rfl⟩
    · rfl
    · rfl
    · rfl
  | null | int | float | str | arr => cases h

/-- A node keeps what was read. -/
theorem parse_raw {path : String} {value : Json} {node : Node}
    (h : parse path value = .ok node) : node.raw = value := by
  cases value with
  | bool flag =>
    cases h
    rfl
  | obj raw =>
    rcases parse_obj_cases h with ⟨ref, _, rfl⟩ | ⟨kind, members, nullable, _, _, _, rfl⟩ |
      ⟨type?, keywords, items, properties, additional, _, _, _, rfl⟩
    · rfl
    · rfl
    · rfl
  | null | int | float | str | arr => cases h

/-- A declared property is read under its name, at the path that this makes. -/
structure ReadAs (path : String) (pair : String × Json) (property : String × Node) : Prop where
  /-- The name is kept. -/
  name_eq : property.1 = pair.1
  /-- The node is what is read from the schema. -/
  parse_eq : parse (Pointer.child path ["properties", pair.1]) pair.2 = .ok property.2

/-- A property that is read keeps its schema. -/
theorem ReadAs.raw_eq {path : String} {pair : String × Json} {property : String × Node}
    (h : ReadAs path pair property) : property.2.raw = pair.2 :=
  parse_raw h.parse_eq

/-- Every declared property is read. -/
theorem forall₂_of_parseEach_ok {path : String} {declared : Members}
    {properties : List (String × Node)} (h : parseEach path declared = .ok properties) :
    List.Forall₂ (ReadAs path) declared properties := by
  induction declared generalizing properties with
  | nil =>
    cases h
    exact .nil
  | cons pair rest ih =>
    rw [parseEach] at h
    obtain ⟨node, hnode, hrest⟩ := Calculation.exists_of_bind_ok h
    obtain ⟨nodes, hnodes, hpure⟩ := Calculation.exists_of_bind_ok hrest
    cases hpure
    exact .cons ⟨rfl, hnode⟩ (ih hnodes)

/-- Properties that are read keep their names. -/
theorem map_fst_of_forall₂ {path : String} {declared : Members}
    {properties : List (String × Node)} (h : List.Forall₂ (ReadAs path) declared properties) :
    properties.map Prod.fst = declared.map Prod.fst := by
  induction h with
  | nil => rfl
  | cons hfirst _ ih => rw [List.map_cons, List.map_cons, hfirst.name_eq, ih]

/-- The declared properties are those of `properties`, and there are none without it. -/
theorem exists_declared_of_parsePropertiesOf_ok {path : String} {members : Members}
    {properties : List (String × Node)} (h : parsePropertiesOf path members = .ok properties) :
    (properties = [] ∧ (members.get "properties").members? = none) ∨
      ∃ declared, members.get? "properties" = some (.obj declared) ∧
        List.Forall₂ (ReadAs path) declared properties := by
  rw [parsePropertiesOf_eq] at h
  rw [Members.get]
  split at h
  · rename_i declared hget
    exact Or.inr ⟨declared, hget, forall₂_of_parseEach_ok h⟩
  · rename_i value hobject hget
    rw [hget]
    split at h
    · cases h
    · cases h
      refine Or.inl ⟨rfl, ?_⟩
      cases value with
      | obj declared => exact absurd rfl (hobject declared)
      | null | bool | int | float | str | arr => rfl
  · rename_i hnone
    cases h
    rw [hnone]
    exact Or.inl ⟨rfl, rfl⟩

/-- Every property that is read was declared. -/
theorem exists_mem_of_forall₂ {path : String} {declared : Members}
    {properties : List (String × Node)} (h : List.Forall₂ (ReadAs path) declared properties)
    {property : String × Node} (hmem : property ∈ properties) :
    ∃ pair ∈ declared, ReadAs path pair property := by
  induction h with
  | nil => cases hmem
  | @cons pair _ _ _ hfirst _ ih =>
    rcases List.mem_cons.mp hmem with rfl | hmem
    · exact ⟨pair, List.mem_cons_self .., hfirst⟩
    · obtain ⟨other, hother, hread⟩ := ih hmem
      exact ⟨other, List.mem_cons_of_mem _ hother, hread⟩

/-- What is read about the properties that are not declared. -/
inductive ReadsAdditional (path : String) (raw : Members) : Additional Node → Prop
  /-- A truth value. -/
  | allowed {flag : Bool} (h : raw.get? "additionalProperties" = some (.bool flag)) :
    ReadsAdditional path raw (.allowed flag)
  /-- A schema. -/
  | schema {members : Members} {node : Node}
    (h : raw.get? "additionalProperties" = some (.obj members))
    (hnode : parse (Pointer.child path ["additionalProperties"]) (.obj members) = .ok node) :
    ReadsAdditional path raw (.schema node)
  /-- Anything else. -/
  | unspecified (hflag : ∀ flag, raw.get? "additionalProperties" ≠ some (.bool flag))
    (hobject : ∀ members, raw.get? "additionalProperties" ≠ some (.obj members)) :
    ReadsAdditional path raw .unspecified

/-- Additional properties are read as they are declared. -/
theorem readsAdditional_of_parseAdditionalOf_ok {path : String} {raw : Members}
    {additional : Additional Node}
    (h : parseAdditionalOf path raw = .ok additional) : ReadsAdditional path raw additional := by
  rw [parseAdditionalOf_eq] at h
  split at h
  · rename_i members hget
    obtain ⟨node, hnode, rfl⟩ := Calculation.exists_of_map_ok h
    exact .schema hget hnode
  · rename_i flag hget
    cases h
    exact .allowed hget
  · rename_i hobject hflag
    cases h
    exact .unspecified hflag hobject

/-- As many members are read as there are. -/
theorem length_of_parseAll_ok {path : String} {kind : Composition} {first : Nat}
    {values : List Json} {nodes : List Node} (h : parseAll path kind first values = .ok nodes) :
    nodes.length = values.length := by
  induction values generalizing first nodes with
  | nil =>
    cases h
    rfl
  | cons value rest ih =>
    rw [parseAll] at h
    obtain ⟨node, _, hrest⟩ := Calculation.exists_of_bind_ok h
    obtain ⟨others, hothers, hpure⟩ := Calculation.exists_of_bind_ok hrest
    cases hpure
    exact congrArg (· + 1) (ih hothers)

/-- A composition has as many members as the list under its keyword. -/
theorem exists_values_of_parseMembersOf_ok {path : String} {kind : Composition}
    {members : Members} {nodes : List Node} (hhas : members.has kind.keyword)
    (h : parseMembersOf path kind members = .ok nodes) :
    ∃ values : List Json, members.get? kind.keyword = some (.arr values) ∧
      nodes.length = values.length := by
  rw [parseMembersOf_eq] at h
  split at h
  · rename_i values hget
    exact ⟨values, hget, length_of_parseAll_ok h⟩
  · cases h
  · rename_i hnone
    rw [Members.has, hnone] at hhas
    cases hhas

end ApiTypes.Schema
