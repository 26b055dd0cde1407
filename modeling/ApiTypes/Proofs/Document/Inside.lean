import ApiTypes.Proofs.Calculation

/-!
# What is inside a value

The references of a value are those of the objects inside it, at any depth.
-/

namespace ApiTypes

/-- A value is inside another one: it is that value, or inside one of its items, or
inside the value of one of its keys. -/
inductive Json.Inside (value : Json) : Json → Prop
  /-- The value itself. -/
  | refl : value.Inside value
  /-- Inside an item of a list. -/
  | item {items : List Json} {item : Json} (hitem : item ∈ items) (h : value.Inside item) :
    value.Inside (.arr items)
  /-- Inside the value of a key. -/
  | member {members : Members} {key : String} {inner : Json} (hmember : (key, inner) ∈ members)
    (h : value.Inside inner) : value.Inside (.obj members)

/-- An object with a reference is inside a value. -/
def Json.Holds (value : Json) (written : String) : Prop :=
  ∃ members, (Json.obj members).Inside value ∧ Members.get? members "$ref" = some (.str written)

namespace Json

variable {written : String}

/-- What is inside a value has no other references. -/
theorem Inside.refs_subset {part value : Json} (h : part.Inside value) :
    part.refs ⊆ value.refs := by
  induction h with
  | refl => exact List.Subset.refl _
  | item hitem _ ih => exact List.Subset.trans ih (refs_subset_of_mem_items hitem)
  | member hmember _ ih => exact List.Subset.trans ih (refs_subset_of_mem_members hmember)

mutual

/-- The references inside a value are held by objects inside it. -/
theorem holds_of_mem_refs : (value : Json) → written ∈ value.refs → value.Holds written
  | .arr items, h => by
    obtain ⟨item, hitem, members, hinside, hget⟩ := exists_item_of_mem_refs items h
    exact ⟨members, .item hitem hinside, hget⟩
  | .obj members, h => by
    rw [refs, List.mem_append] at h
    rcases h with h | h
    · refine ⟨members, .refl, ?_⟩
      split at h
      · rename_i ref href
        rw [List.mem_singleton.mp h]
        exact href
      · cases h
    · obtain ⟨key, inner, hmember, object, hinside, hget⟩ := exists_member_of_mem_refs members h
      exact ⟨object, .member hmember hinside, hget⟩
  | .null, h | .bool _, h | .int _, h | .float _, h | .str _, h => nomatch h

theorem exists_item_of_mem_refs : (items : List Json) → written ∈ refsOfItems items →
    ∃ item ∈ items, item.Holds written
  | [], h => nomatch h
  | item :: rest, h => by
    rw [refsOfItems, List.mem_append] at h
    rcases h with h | h
    · exact ⟨item, List.mem_cons_self .., holds_of_mem_refs item h⟩
    · obtain ⟨other, hmem, hholds⟩ := exists_item_of_mem_refs rest h
      exact ⟨other, List.mem_cons_of_mem _ hmem, hholds⟩

theorem exists_member_of_mem_refs : (members : Members) → written ∈ refsOfMembers members →
    ∃ key value, (key, value) ∈ members ∧ value.Holds written
  | [], h => nomatch h
  | (key, value) :: rest, h => by
    rw [refsOfMembers, List.mem_append] at h
    rcases h with h | h
    · exact ⟨key, value, List.mem_cons_self .., holds_of_mem_refs value h⟩
    · obtain ⟨other, inner, hmem, hholds⟩ := exists_member_of_mem_refs rest h
      exact ⟨other, inner, List.mem_cons_of_mem _ hmem, hholds⟩

end

/-- The references of a value are those that objects inside it hold. -/
theorem mem_refs_iff {value : Json} : written ∈ value.refs ↔ value.Holds written := by
  constructor
  · exact holds_of_mem_refs value
  · rintro ⟨members, hinside, hget⟩
    refine hinside.refs_subset ?_
    rw [refs, hget]
    exact List.mem_append_left _ (List.mem_singleton_self written)

end Json

end ApiTypes
