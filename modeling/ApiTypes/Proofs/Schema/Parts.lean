import ApiTypes.Proofs.Calculation
import ApiTypes.Proofs.Schema.Keywords

/-!
# Parts of schemas

Reading a schema reads its parts, each at a path made from that of the whole. What the
parts of a value inherit from it is therefore known of every value that is read: of the
one at which the reading fails, and of those that the nodes inside the node are made of.
-/

namespace ApiTypes

/-- A calculation gives a value with one property or fails with another one. -/
def Yields {α : Type} (E : Failure → Prop) (Q : α → Prop) : Except Failure α → Prop
  | .ok a => Q a
  | .error failure => E failure

namespace Yields

variable {α β : Type} {E : Failure → Prop} {Q : α → Prop} {R : β → Prop}

/-- A calculation goes on with what the first one yields. -/
theorem bind {first : Except Failure α} {next : α → Except Failure β} (hfirst : Yields E Q first)
    (hnext : ∀ a, Q a → Yields E R (next a)) : Yields E R (first >>= next) := by
  cases first with
  | error failure => exact hfirst
  | ok a => exact hnext a hfirst

/-- What is yielded can be put into something else. -/
theorem map {first : Except Failure α} {f : α → β} (hfirst : Yields E Q first)
    (h : ∀ a, Q a → R (f a)) : Yields E R (first.map f) := by
  cases first with
  | error failure => exact hfirst
  | ok a => exact h a hfirst

/-- Weaker properties will do. -/
theorem imp {E' : Failure → Prop} {Q' : α → Prop} {result : Except Failure α}
    (hresult : Yields E Q result) (hE : ∀ failure, E failure → E' failure)
    (hQ : ∀ a, Q a → Q' a) : Yields E' Q' result := by
  cases result with
  | error failure => exact hE failure hresult
  | ok a => exact hQ a hresult

/-- What is known of the value that is given holds beside what is shown of it. -/
theorem and {Q' : α → Prop} {result : Except Failure α} (hresult : Yields E Q result)
    (h : ∀ a, result = .ok a → Q' a) : Yields E (fun a => Q' a ∧ Q a) result := by
  cases result with
  | error failure => exact hresult
  | ok a => exact ⟨h a rfl, hresult⟩

end Yields

namespace Node

mutual

/-- All nodes inside a node, itself excepted, have a property. -/
def Inside (P : Node → Prop) : Node → Prop
  | .boolean .. => True
  | .reference .. => True
  | .composition _ _ _ members _ => MembersInside P members
  | .value _ _ _ _ items properties additional =>
    ItemsInside P items ∧ PropertiesInside P properties ∧ AdditionalInside P additional

/-- All members of a composition and the nodes inside them have a property. -/
def MembersInside (P : Node → Prop) : List Node → Prop
  | [] => True
  | node :: rest => (P node ∧ node.Inside P) ∧ MembersInside P rest

/-- The schema of the items of an array and the nodes inside it have a property. -/
def ItemsInside (P : Node → Prop) : Items Node → Prop
  | .schema node => P node ∧ node.Inside P
  | .other _ => True

/-- All declared properties and the nodes inside them have a property. -/
def PropertiesInside (P : Node → Prop) : List (String × Node) → Prop
  | [] => True
  | (_, node) :: rest => (P node ∧ node.Inside P) ∧ PropertiesInside P rest

/-- The schema of the properties that are not declared and the nodes inside it have a
property. -/
def AdditionalInside (P : Node → Prop) : Additional Node → Prop
  | .schema node => P node ∧ node.Inside P
  | _ => True

end

/-- A node and all nodes inside it have a property. -/
def Everywhere (P : Node → Prop) (node : Node) : Prop := P node ∧ node.Inside P

section

variable {P P' : Node → Prop}

mutual

/-- A weaker property will do. -/
theorem Inside.mono (h : ∀ node, P node → P' node) : (node : Node) → node.Inside P →
    node.Inside P'
  | .boolean .., _ => trivial
  | .reference .., _ => trivial
  | .composition _ _ _ members _, hinside => MembersInside.mono h members hinside
  | .value _ _ _ _ items properties additional, ⟨hitems, hproperties, hadditional⟩ =>
    ⟨ItemsInside.mono h items hitems, PropertiesInside.mono h properties hproperties,
      AdditionalInside.mono h additional hadditional⟩

/-- The members of a composition may have a weaker property. -/
theorem MembersInside.mono (h : ∀ node, P node → P' node) : (nodes : List Node) →
    MembersInside P nodes → MembersInside P' nodes
  | [], _ => trivial
  | node :: rest, ⟨⟨hnode, hinside⟩, hrest⟩ =>
    ⟨⟨h node hnode, Inside.mono h node hinside⟩, MembersInside.mono h rest hrest⟩

/-- The items of a list may have a weaker property. -/
theorem ItemsInside.mono (h : ∀ node, P node → P' node) : (items : Items Node) →
    ItemsInside P items → ItemsInside P' items
  | .schema node, ⟨hnode, hinside⟩ => ⟨h node hnode, Inside.mono h node hinside⟩
  | .other _, _ => trivial

/-- Declared properties may have a weaker property. -/
theorem PropertiesInside.mono (h : ∀ node, P node → P' node) :
    (properties : List (String × Node)) → PropertiesInside P properties →
    PropertiesInside P' properties
  | [], _ => trivial
  | (_, node) :: rest, ⟨⟨hnode, hinside⟩, hrest⟩ =>
    ⟨⟨h node hnode, Inside.mono h node hinside⟩, PropertiesInside.mono h rest hrest⟩

/-- Additional properties may have a weaker property. -/
theorem AdditionalInside.mono (h : ∀ node, P node → P' node) : (additional : Additional Node) →
    AdditionalInside P additional → AdditionalInside P' additional
  | .schema node, ⟨hnode, hinside⟩ => ⟨h node hnode, Inside.mono h node hinside⟩
  | .unspecified, _ | .allowed _, _ => trivial

end

end

/-- A weaker property will do. -/
theorem Everywhere.mono {P P' : Node → Prop} {node : Node} (heverywhere : node.Everywhere P)
    (h : ∀ node, P node → P' node) : node.Everywhere P' :=
  ⟨h node heverywhere.1, Inside.mono h node heverywhere.2⟩

end Node

namespace Schema

/-- The node that an object writes is a reference, a composition or a schema of values. -/
theorem parse_obj_cases {path : String} {raw : Members} {node : Node}
    (h : parse path (.obj raw) = .ok node) :
    (∃ ref, raw.get? "$ref" = some ref ∧ node = .reference path raw ref) ∨
    (∃ kind members nullable, raw.get? "$ref" = none ∧ composition? raw = some kind ∧
      parseMembersOf path kind raw = .ok members ∧
      node = .composition path raw kind members nullable) ∨
    ∃ type? keywords items properties additional, parseItemsOf path raw = .ok items ∧
      parsePropertiesOf path raw = .ok properties ∧
      parseAdditionalOf path raw = .ok additional ∧
      node = .value path raw type? keywords items properties additional := by
  rw [parse] at h
  split at h
  · rename_i ref href
    cases h
    exact Or.inl ⟨ref, href, rfl⟩
  · rename_i href
    split at h
    · rename_i kind hkind
      obtain ⟨members, hmembers, hnode⟩ := Calculation.exists_of_bind_ok h
      cases hnode
      exact Or.inr (Or.inl ⟨kind, members, _, href, hkind, hmembers, rfl⟩)
    · obtain ⟨items, hitems, hrest⟩ := Calculation.exists_of_bind_ok h
      obtain ⟨properties, hproperties, hrest⟩ := Calculation.exists_of_bind_ok hrest
      obtain ⟨required, _, hrest⟩ := Calculation.exists_of_bind_ok hrest
      obtain ⟨additional, hadditional, hnode⟩ := Calculation.exists_of_bind_ok hrest
      cases hnode
      exact Or.inr (Or.inr ⟨_, _, items, properties, additional, hitems, hproperties, hadditional,
        rfl⟩)

/-- Items that are no schema are missing or the value of `items`. -/
theorem parseItemsOf_other {path : String} {members : Members} {value : Json}
    (h : parseItemsOf path members = .ok (.other value)) :
    value = .null ∨ members.get? "items" = some value := by
  rw [parseItemsOf_eq] at h
  split at h
  · obtain ⟨node, _, heq⟩ := Calculation.exists_of_map_ok h
    cases heq
  · rename_i value' _ hget
    cases h
    exact Or.inr hget
  · cases h
    exact Or.inl rfl

/-- What is known of values at their paths passes on to their parts, and from there to the
failures of the reading and to the nodes that it gives. -/
structure Carries (At : String → Json → Prop) (E : Failure → Prop) (P : Node → Prop) : Prop where
  /-- The parts of a composition. -/
  member : ∀ {path raw kind value} {members : List Json} {position : Nat}, At path (.obj raw) →
    Members.get? raw (Composition.keyword kind) = some (.arr members) →
    members[position]? = some value →
    At (Pointer.child path [kind.keyword, toString position]) value
  /-- The schema of the items of an array. -/
  items : ∀ {path raw value}, At path (.obj raw) → Members.get? raw "items" = some value →
    At (Pointer.child path ["items"]) value
  /-- The declared properties. -/
  property : ∀ {path raw properties name value}, At path (.obj raw) →
    Members.get? raw "properties" = some (.obj properties) → (name, value) ∈ properties →
    At (Pointer.child path ["properties", name]) value
  /-- The schema of the properties that are not declared. -/
  additional : ∀ {path raw value}, At path (.obj raw) →
    Members.get? raw "additionalProperties" = some value →
    At (Pointer.child path ["additionalProperties"]) value
  /-- Failures that do not concern the shape of a schema. -/
  malformed : ∀ cause, E (.malformed cause)
  /-- The failure at a value that is no schema. -/
  notSchema : ∀ {path value}, At path value → E (.schema (.shape .notSchema value path))
  /-- The failure at a composition of something else than a list. -/
  notMembers : ∀ {path raw kind value}, At path (.obj raw) →
    Members.get? raw (Composition.keyword kind) = some value →
    E (.schema (.shape (.notMembers kind) value path))
  /-- A node that is read from a value. -/
  node : ∀ {path value node}, At path value → parse path value = .ok node → P node

variable {At : String → Json → Prop} {E : Failure → Prop} {P : Node → Prop}

/-- A value either has elements or is malformed. -/
theorem yields_elements (hE : ∀ cause, E (.malformed cause)) (value : Json) :
    Yields E (fun _ => True) value.elements := by
  cases value with
  | arr | obj | str => trivial
  | null | bool | int | float => exact hE _

/-- The schemas inside an object are read with what is carried. -/
def PartsRead (At : String → Json → Prop) (E : Failure → Prop) (P : Node → Prop)
    (raw : Members) : Prop :=
  ∀ path value, sizeOf value < sizeOf (Json.obj raw) → At path value →
    Yields E (Node.Everywhere P) (parse path value)

/-- The members of a composition have the property if each of them is read so. -/
theorem parseAll_inside {path : String} {kind : Composition} {values : List Json} (first : Nat)
    (h : ∀ (position : Nat) value, values[position]? = some value →
      Yields E (Node.Everywhere P)
        (parse (Pointer.child path [kind.keyword, toString (first + position)]) value)) :
    Yields E (Node.MembersInside P) (parseAll path kind first values) := by
  induction values generalizing first with
  | nil => trivial
  | cons value rest ih =>
    rw [parseAll]
    have hrest := ih (first + 1) fun position other hother => by
      rw [Nat.add_right_comm, Nat.add_assoc]
      exact h (position + 1) other hother
    exact (h 0 value rfl).bind fun node hnode => hrest.bind fun nodes hnodes => ⟨hnode, hnodes⟩

/-- The declared properties have it if each of them is read so. -/
theorem parseEach_inside {path : String} {properties : Members}
    (h : ∀ pair ∈ properties, Yields E (Node.Everywhere P)
      (parse (Pointer.child path ["properties", pair.1]) pair.2)) :
    Yields E (Node.PropertiesInside P) (parseEach path properties) := by
  induction properties with
  | nil => trivial
  | cons pair rest ih =>
    obtain ⟨hpair, hrest⟩ := List.forall_mem_cons.mp h
    rw [parseEach]
    exact hpair.bind fun node hnode => (ih hrest).bind fun nodes hnodes => ⟨hnode, hnodes⟩

section

variable {path : String} {raw : Members}

/-- The members of a composition have the property when it is carried to the parts. -/
theorem parseMembersOf_inside (h : Carries At E P) (hat : At path (.obj raw))
    (hparts : PartsRead At E P raw) (kind : Composition) :
    Yields E (Node.MembersInside P) (parseMembersOf path kind raw) := by
  rw [parseMembersOf_eq]
  split
  · rename_i values hget
    have hsize := Json.sizeOf_lt_of_mem_members (Members.mem_of_get? hget)
    refine parseAll_inside 0 fun position value hvalue => ?_
    have hlt := Json.sizeOf_lt_of_mem_items (List.mem_of_getElem? hvalue)
    rw [Nat.zero_add]
    exact hparts _ value (Nat.lt_trans hlt hsize) (h.member hat hget hvalue)
  · rename_i value _ hget
    exact h.notMembers hat hget
  · trivial

/-- The items of a list have the property when it is carried to the parts. -/
theorem parseItemsOf_inside (h : Carries At E P) (hat : At path (.obj raw))
    (hparts : PartsRead At E P raw) :
    Yields E (Node.ItemsInside P) (parseItemsOf path raw) := by
  rw [parseItemsOf_eq]
  split
  · rename_i items hget
    have hsize := Json.sizeOf_lt_of_mem_members (Members.mem_of_get? hget)
    exact (hparts _ _ hsize (h.items hat hget)).map fun node hnode => hnode
  · trivial
  · trivial

/-- Declared properties have the property when it is carried to the parts. -/
theorem parsePropertiesOf_inside (h : Carries At E P) (hat : At path (.obj raw))
    (hparts : PartsRead At E P raw) :
    Yields E (Node.PropertiesInside P) (parsePropertiesOf path raw) := by
  rw [parsePropertiesOf_eq]
  split
  · rename_i properties hget
    have hsize := Json.sizeOf_lt_of_mem_members (Members.mem_of_get? hget)
    refine parseEach_inside fun pair hpair => ?_
    have hlt := Json.sizeOf_lt_of_mem_members hpair
    exact hparts _ pair.2 (Nat.lt_trans hlt hsize) (h.property hat hget hpair)
  · split
    · exact h.malformed _
    · trivial
  · trivial

/-- Additional properties have the property when it is carried to the parts. -/
theorem parseAdditionalOf_inside (h : Carries At E P) (hat : At path (.obj raw))
    (hparts : PartsRead At E P raw) :
    Yields E (Node.AdditionalInside P) (parseAdditionalOf path raw) := by
  rw [parseAdditionalOf_eq]
  split
  · rename_i additional hget
    have hsize := Json.sizeOf_lt_of_mem_members (Members.mem_of_get? hget)
    exact (hparts _ _ hsize (h.additional hat hget)).map fun node hnode => hnode
  · trivial
  · trivial

end

/-- A node that is read and all nodes inside it have what is carried, and so has the
failure of a reading. -/
theorem parse_everywhere (h : Carries At E P) (path : String) : (value : Json) → At path value →
    Yields E (Node.Everywhere P) (parse path value)
  | .bool flag, hat => ⟨h.node hat rfl, trivial⟩
  | .obj raw, hat => by
    have hparts : PartsRead At E P raw := fun path value hlt hat =>
      parse_everywhere h path value hat
    refine Yields.and ?_ fun node hnode => h.node hat hnode
    rw [parse]
    split
    · exact trivial
    · split
      · rename_i kind _
        exact (parseMembersOf_inside h hat hparts kind).bind fun nodes hnodes => hnodes
      · refine (parseItemsOf_inside h hat hparts).bind fun items hitems => ?_
        refine (parsePropertiesOf_inside h hat hparts).bind fun properties hproperties => ?_
        refine (yields_elements h.malformed _).bind fun required _ => ?_
        refine (parseAdditionalOf_inside h hat hparts).bind fun additional hadditional => ?_
        exact ⟨hitems, hproperties, hadditional⟩
  | .null, hat | .int _, hat | .float _, hat | .str _, hat | .arr _, hat => h.notSchema hat
termination_by value => sizeOf value
decreasing_by exact hlt

end Schema

end ApiTypes
