import ApiTypes.Proofs.Schema.Parts

/-!
# References of nodes

The references inside a node are among those inside the value that it was read
from. Reading a node fails only for a defect of that value.
-/

namespace ApiTypes

namespace Node

mutual

/-- Every reference inside a node has a property. -/
def AllRefs (P : String → Prop) : Node → Prop
  | .boolean .. => True
  | .reference _ _ ref => ∀ written, ref = .str written → P written
  | .composition _ _ _ members _ => MembersRefs P members
  | .value _ _ _ _ items properties additional =>
    ItemsRefs P items ∧ PropertiesRefs P properties ∧ AdditionalRefs P additional

/-- Every reference inside the members of a composition has a property. -/
def MembersRefs (P : String → Prop) : List Node → Prop
  | [] => True
  | node :: rest => node.AllRefs P ∧ MembersRefs P rest

/-- Every reference inside the items of an array has a property. -/
def ItemsRefs (P : String → Prop) : Items Node → Prop
  | .schema node => node.AllRefs P
  | .other _ => True

/-- Every reference inside declared properties has a property. -/
def PropertiesRefs (P : String → Prop) : List (String × Node) → Prop
  | [] => True
  | (_, node) :: rest => node.AllRefs P ∧ PropertiesRefs P rest

/-- Every reference inside the properties that are not declared has a property. -/
def AdditionalRefs (P : String → Prop) : Additional Node → Prop
  | .schema node => node.AllRefs P
  | _ => True

end

/-- The reference that a node is, if it is one, has a property. -/
def RefIs (P : String → Prop) : Node → Prop
  | .reference _ _ ref => ∀ written, ref = .str written → P written
  | _ => True

section

variable {P : String → Prop}

mutual

/-- The references inside a node are the nodes inside it that are references. -/
theorem allRefs_iff : (node : Node) → (node.AllRefs P ↔ node.Everywhere (RefIs P))
  | .boolean .. => by simp [AllRefs, Everywhere, RefIs, Inside]
  | .reference .. => by simp [AllRefs, Everywhere, RefIs, Inside]
  | .composition _ _ _ members _ => by
    simp [AllRefs, Everywhere, RefIs, Inside, membersRefs_iff members]
  | .value _ _ _ _ items properties additional => by
    simp [AllRefs, Everywhere, RefIs, Inside, itemsRefs_iff items, propertiesRefs_iff properties,
      additionalRefs_iff additional]

/-- The references in the members of a composition are those of the nodes inside them. -/
theorem membersRefs_iff : (nodes : List Node) →
    (MembersRefs P nodes ↔ MembersInside (RefIs P) nodes)
  | [] => Iff.rfl
  | node :: rest => and_congr (allRefs_iff node) (membersRefs_iff rest)

/-- The references in items are those of the nodes inside them. -/
theorem itemsRefs_iff : (items : Items Node) → (ItemsRefs P items ↔ ItemsInside (RefIs P) items)
  | .schema node => allRefs_iff node
  | .other _ => Iff.rfl

/-- The references in declared properties are those of the nodes inside them. -/
theorem propertiesRefs_iff : (properties : List (String × Node)) →
    (PropertiesRefs P properties ↔ PropertiesInside (RefIs P) properties)
  | [] => Iff.rfl
  | (_, node) :: rest => and_congr (allRefs_iff node) (propertiesRefs_iff rest)

/-- The references in additional properties are those of the nodes inside them. -/
theorem additionalRefs_iff : (additional : Additional Node) →
    (AdditionalRefs P additional ↔ AdditionalInside (RefIs P) additional)
  | .schema node => allRefs_iff node
  | .unspecified | .allowed _ => Iff.rfl

end

end

end Node

namespace Schema

variable {P : String → Prop}

/-- The parts of a value have no other references than the value. -/
theorem carries_refs :
    Carries (fun _ value => ∀ ref ∈ value.refs, P ref) Failure.IsDefect (Node.RefIs P) := by
  have hvalue {raw : Members} {key : String} {value : Json} (h : raw.get? key = some value) :
      value.refs ⊆ (Json.obj raw).refs :=
    Json.refs_subset_of_mem_members (Members.mem_of_get? h)
  constructor
  case member =>
    intro path raw kind value members position h hget hmember ref href
    exact h ref (hvalue hget (Json.refs_subset_of_mem_items (List.mem_of_getElem? hmember) href))
  case items | additional =>
    intro path raw value h hget ref href
    exact h ref (hvalue hget href)
  case property =>
    intro path raw properties name value h hget hmem ref href
    exact h ref (hvalue hget (Json.refs_subset_of_mem_members hmem href))
  case malformed => exact fun _ => trivial
  case notSchema => exact fun _ => trivial
  case notMembers => exact fun _ _ => trivial
  case node =>
    intro path value node h hnode
    cases node with
    | reference path' raw ref =>
      rintro written rfl
      cases value with
      | obj raw' =>
        obtain ⟨ref, href, heq⟩ | ⟨_, _, _, _, _, _, heq⟩ | ⟨_, _, _, _, _, _, _, _, heq⟩ :=
          parse_obj_cases hnode
        · cases heq
          exact h written (by simp [Json.refs, href])
        · cases heq
        · cases heq
      | _ => cases hnode
    | _ => trivial

/-- A node has no other references than the value it was read from. -/
theorem parse_allRefs (path : String) (value : Json) (h : ∀ ref ∈ value.refs, P ref) :
    Gives (Node.AllRefs P) (parse path value) := by
  have hparse := parse_everywhere carries_refs path value h
  cases hresult : parse path value with
  | error failure =>
    rw [hresult] at hparse
    exact hparse
  | ok node =>
    rw [hresult] at hparse
    exact (Node.allRefs_iff node).mpr hparse

end Schema

end ApiTypes
