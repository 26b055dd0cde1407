import ApiTypes.Proofs.Document.Inside
import ApiTypes.Proofs.Document.Place

/-!
# Objects inside values

What every object inside a value is like can be computed from the value, and is known of
everything that a path leads to from there.
-/

namespace ApiTypes

namespace Json

variable (p : Members → Bool)

mutual

/-- Whether every object inside a value passes a test. -/
def everyObject : Json → Bool
  | .arr items => everyObjectOfItems items
  | .obj members => p members && everyObjectOfMembers members
  | _ => true

/-- Whether every object inside items passes a test. -/
def everyObjectOfItems : List Json → Bool
  | [] => true
  | item :: rest => item.everyObject && everyObjectOfItems rest

/-- Whether every object inside the values of keys passes a test. -/
def everyObjectOfMembers : List (String × Json) → Bool
  | [] => true
  | (_, value) :: rest => value.everyObject && everyObjectOfMembers rest

end

variable {p : Members → Bool}

theorem everyObject_arr (items : List Json) :
    (arr items).everyObject p ↔ ∀ item ∈ items, item.everyObject p := by
  rw [everyObject]
  induction items with
  | nil => simp [everyObjectOfItems]
  | cons item rest ih => simp [everyObjectOfItems, ih]

theorem everyObject_obj (members : Members) :
    (obj members).everyObject p ↔ p members ∧ ∀ pair ∈ members, pair.2.everyObject p := by
  have hmembers : everyObjectOfMembers p members ↔ ∀ pair ∈ members, pair.2.everyObject p := by
    induction members with
    | nil => simp [everyObjectOfMembers]
    | cons pair rest ih => simp [everyObjectOfMembers, ih]
  rw [everyObject, Bool.and_eq_true, hmembers]

/-- What every object inside a value is like, is every object inside its parts. -/
theorem everyObject_of_inside {part value : Json} (h : value.everyObject p)
    (hinside : part.Inside value) : part.everyObject p := by
  induction hinside with
  | refl => exact h
  | item hitem _ ih => exact ih ((everyObject_arr _).mp h _ hitem)
  | member hmember _ ih => exact ih (((everyObject_obj _).mp h).2 _ hmember)

/-- The objects inside the value of a key. -/
theorem everyObject_of_get? {members : Members} {key : String} {value : Json}
    (h : (obj members).everyObject p) (hget : members.get? key = some value) :
    value.everyObject p :=
  ((everyObject_obj members).mp h).2 _ (Members.mem_of_get? hget)

/-- Walking along segments leads inside a value. -/
theorem inside_of_walk {value found : Json} {segments : List String}
    (h : value.walk segments = .ok found) : found.Inside value := by
  induction segments generalizing value with
  | nil =>
    cases h
    exact .refl
  | cons segment rest ih =>
    obtain ⟨next, hchild, hrest⟩ := exists_of_walk_cons_ok h
    rcases child_cases hchild with ⟨members, rfl, hget⟩ | ⟨items, position, rfl, _, hget⟩
    · exact .member (Members.mem_of_get? hget) (ih hrest)
    · exact .item (List.mem_of_getElem? hget) (ih hrest)

end Json

/-- Whether every object in the documents passes a test. -/
def Graph.everyObject (p : Members → Bool) (graph : Graph) : Bool :=
  graph.documents.all fun pair => pair.2.everyObject p

/-- What is looked up is inside a document. -/
theorem Graph.everyObject_of_lookup {p : Members → Bool} {graph : Graph}
    (h : graph.everyObject p) {point : String} {segments : List String} {value : Json}
    (hlookup : graph.lookup point segments = .ok value) : value.everyObject p := by
  obtain ⟨document, hmem, _, hwalk⟩ := exists_walk_of_lookup_ok hlookup
  have hdocument : document.everyObject p := List.all_eq_true.mp h _ hmem
  exact Json.everyObject_of_inside hdocument (Json.inside_of_walk hwalk)

end ApiTypes
