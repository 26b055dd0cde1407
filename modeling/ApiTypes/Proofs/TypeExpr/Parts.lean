import ApiTypes.TypeExpr.Names

/-!
# Parts of types

A type consists of its operands and what these consist of. Properties of all parts are
proved from those of the operands: an operand is smaller than the type.
-/

namespace ApiTypes.TypeExpr

/-- The types that a type is put together from: the item of a list type, the types of the
members of an object type, the members of a union or of an intersection. -/
def operands : TypeExpr → List TypeExpr
  | .array item => [item]
  | .object properties index? => properties.map (·.type) ++ index?.toList.map (·.type)
  | .union members => members
  | .intersection members => members
  | _ => []

mutual

/-- The parts of a type, from left to right, each before its own parts. -/
def parts : TypeExpr → List TypeExpr
  | .array item => .array item :: item.parts
  | .object properties index? => .object properties index? ::
      (partsOfProperties properties ++ match index? with
        | some ⟨_, type⟩ => type.parts
        | none => [])
  | .union members => .union members :: partsOfAll members
  | .intersection members => .intersection members :: partsOfAll members
  | .missing => [.missing]
  | .any => [.any]
  | .null => [.null]
  | .primitive name => [.primitive name]
  | .literals base values => [.literals base values]
  | .component identifier => [.component identifier]
  | .external name => [.external name]

/-- The parts of types, one type after another. -/
def partsOfAll : List TypeExpr → List TypeExpr
  | [] => []
  | type :: rest => type.parts ++ partsOfAll rest

/-- The parts of the types of properties. -/
def partsOfProperties : List (Property TypeExpr) → List TypeExpr
  | [] => []
  | ⟨_, type, _, _, _⟩ :: rest => type.parts ++ partsOfProperties rest

end

theorem partsOfAll_eq (types : List TypeExpr) : partsOfAll types = types.flatMap parts := by
  induction types with
  | nil => rfl
  | cons type rest ih => rw [partsOfAll, ih, List.flatMap_cons]

theorem partsOfProperties_eq (properties : List (Property TypeExpr)) :
    partsOfProperties properties = (properties.map (·.type)).flatMap parts := by
  induction properties with
  | nil => rfl
  | cons property rest ih => rw [partsOfProperties, ih, List.map_cons, List.flatMap_cons]

/-- A type is the first of its parts, and the others are those of its operands. -/
theorem parts_eq (type : TypeExpr) : type.parts = type :: type.operands.flatMap parts := by
  cases type with
  | array item => simp only [parts, operands, List.flatMap_singleton]
  | object properties index? =>
    cases index? with
    | none => simp [parts, operands, partsOfProperties_eq]
    | some index => simp [parts, operands, partsOfProperties_eq]
  | union members => simp only [parts, operands, partsOfAll_eq]
  | intersection members => simp only [parts, operands, partsOfAll_eq]
  | _ => rfl

theorem self_mem_parts (type : TypeExpr) : type ∈ type.parts := by
  rw [parts_eq]
  exact List.mem_cons_self ..

/-- The parts of an operand are parts of the type. -/
theorem parts_subset_of_mem_operands {type operand : TypeExpr} (h : operand ∈ type.operands) :
    operand.parts ⊆ type.parts := by
  rw [parts_eq type]
  exact fun part hmem => List.mem_cons_of_mem _ (List.mem_flatMap.mpr ⟨operand, h, hmem⟩)

/-- An operand is smaller than the type. -/
theorem sizeOf_lt_of_mem_operands {type operand : TypeExpr} (h : operand ∈ type.operands) :
    sizeOf operand < sizeOf type := by
  cases type with
  | array item =>
    rw [List.mem_singleton.mp h, array.sizeOf_spec]
    omega
  | object properties index? =>
    rcases List.mem_append.mp h with h | h
    · obtain ⟨property, hmem, rfl⟩ := List.mem_map.mp h
      have hlist := List.sizeOf_lt_of_mem hmem
      cases property
      simp only [object.sizeOf_spec, Property.mk.sizeOf_spec] at hlist ⊢
      omega
    · obtain ⟨index, hmem, rfl⟩ := List.mem_map.mp h
      obtain rfl := Option.mem_toList.mp hmem
      cases index
      simp only [object.sizeOf_spec, Option.some.sizeOf_spec, IndexSignature.mk.sizeOf_spec]
      omega
  | union members =>
    have hlist : sizeOf operand < sizeOf members := List.sizeOf_lt_of_mem h
    simp only [union.sizeOf_spec]
    omega
  | intersection members =>
    have hlist : sizeOf operand < sizeOf members := List.sizeOf_lt_of_mem h
    simp only [intersection.sizeOf_spec]
    omega
  | _ => cases h

/-- What holds of a type whenever it holds of its operands holds of every type. -/
theorem operands_induction {motive : TypeExpr → Prop}
    (step : ∀ type, (∀ operand ∈ type.operands, motive operand) → motive type)
    (type : TypeExpr) : motive type :=
  step type fun operand _ => operands_induction step operand
termination_by sizeOf type
decreasing_by exact sizeOf_lt_of_mem_operands ‹_›

/-- The parts of a part are parts of the type. -/
theorem parts_subset_of_mem_parts {type part : TypeExpr} (h : part ∈ type.parts) :
    part.parts ⊆ type.parts := by
  induction type using operands_induction with
  | step type ih =>
  rw [parts_eq, List.mem_cons, List.mem_flatMap] at h
  obtain rfl | ⟨operand, hoperand, hpart⟩ := h
  · exact List.Subset.refl _
  · exact List.Subset.trans (ih operand hoperand hpart) (parts_subset_of_mem_operands hoperand)

/-- The names in an operand are names in the type. -/
theorem names_subset_of_mem_operands {type operand : TypeExpr} (h : operand ∈ type.operands) :
    operand.names ⊆ type.names := by
  intro name hname
  cases type with
  | array item =>
    rw [List.mem_singleton.mp h] at hname
    exact hname
  | object properties index? =>
    rw [names.eq_def]
    rcases List.mem_append.mp h with h | h
    · obtain ⟨property, hmem, rfl⟩ := List.mem_map.mp h
      refine List.mem_append_left _ ?_
      rw [namesOfProperties_eq]
      exact List.mem_flatMap.mpr ⟨property, hmem, hname⟩
    · obtain ⟨index, hmem, rfl⟩ := List.mem_map.mp h
      obtain rfl := Option.mem_toList.mp hmem
      exact List.mem_append_right _ hname
  | union members | intersection members =>
    rw [names, namesOfAll_eq]
    exact List.mem_flatMap.mpr ⟨operand, h, hname⟩
  | _ => cases h

/-- The names in a part are names in the type. -/
theorem names_subset_of_mem_parts {type part : TypeExpr} (h : part ∈ type.parts) :
    part.names ⊆ type.names := by
  induction type using operands_induction with
  | step type ih =>
  rw [parts_eq, List.mem_cons, List.mem_flatMap] at h
  obtain rfl | ⟨operand, hoperand, hpart⟩ := h
  · exact List.Subset.refl _
  · exact List.Subset.trans (ih operand hoperand hpart) (names_subset_of_mem_operands hoperand)

end ApiTypes.TypeExpr
