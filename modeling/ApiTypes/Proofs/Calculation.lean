import ApiTypes.Reference.Resolve
import ApiTypes.Schema.Parse
import Mathlib.Data.List.Forall2

/-!
# Calculations

Settings, documents, references and schemas are read without looking at the
state of a run. Such a calculation never fails because of what is being
expanded: its failures have a cause in what it reads. Only what looks something
up in a document can fail because that does not exist. What a calculation gives,
on the other hand, is often known to have a property.
-/

namespace ApiTypes

/-- A failure that has a cause of its own, neither a cycle of references nor an
allowance that is used up. -/
def Failure.IsPlain : Failure → Prop
  | .schema (.cycle ..) => False
  | .exhausted => False
  | _ => True

/-- A failure because of a defect in what is read, which is not that something
does not exist. -/
def Failure.IsDefect : Failure → Prop
  | .schema (.cycle ..) => False
  | .schema (.unresolved ..) => False
  | .exhausted => False
  | _ => True

theorem Failure.IsDefect.plain {failure : Failure} (h : failure.IsDefect) : failure.IsPlain := by
  rcases failure with (_ | _ | _ | _) | _ <;> trivial

/-- A calculation gives a value with a property or fails because of a defect. -/
def Gives {α : Type} (Q : α → Prop) : Except Failure α → Prop
  | .ok a => Q a
  | .error failure => failure.IsDefect

/-- A calculation that looks something up gives a value with a property or fails
for a cause of its own. -/
def Finds {α : Type} (Q : α → Prop) : Except Failure α → Prop
  | .ok a => Q a
  | .error failure => failure.IsPlain

/-- A weaker property will do. -/
theorem Finds.mono {α : Type} {Q Q' : α → Prop} {result : Except Failure α}
    (hresult : Finds Q result) (h : ∀ a, Q a → Q' a) : Finds Q' result := by
  cases result with
  | error failure => exact hresult
  | ok a => exact h a hresult

namespace Gives

variable {α β : Type} {Q : α → Prop} {R : β → Prop}

/-- What a calculation gives has a property when what its first part gives has
one and the rest preserves that. -/
theorem bind {first : Except Failure α} {next : α → Except Failure β} (hfirst : Gives Q first)
    (hnext : ∀ a, Q a → Gives R (next a)) : Gives R (first >>= next) := by
  cases first with
  | error failure => exact hfirst
  | ok a => exact hnext a hfirst

/-- What is given is known to be given. -/
theorem self {result : Except Failure α} (h : Gives Q result) :
    Gives (fun a => result = .ok a) result := by
  cases result with
  | error failure => exact h
  | ok a => rfl

/-- What needs no lookup can stand where one is allowed. -/
theorem finds {result : Except Failure α} (h : Gives Q result) : Finds Q result := by
  cases result with
  | error failure => exact Failure.IsDefect.plain h
  | ok a => exact h

end Gives

namespace Calculation

variable {α β : Type}

/-- Calculations that succeed together succeed one after another. -/
theorem exists_of_bind_ok {first : Except Failure α} {next : α → Except Failure β} {b : β}
    (h : first >>= next = .ok b) : ∃ a, first = .ok a ∧ next a = .ok b := by
  cases first with
  | error failure => cases h
  | ok a => exact ⟨a, rfl, h⟩

theorem exists_of_map_ok {first : Except Failure α} {f : α → β} {b : β}
    (h : first.map f = .ok b) : ∃ a, first = .ok a ∧ f a = b := by
  cases first with
  | error failure => cases h
  | ok a => exact ⟨a, rfl, Except.ok.inj h⟩

/-- A calculation for every element gives the results of all of them, in order. -/
theorem forall₂_of_mapM_ok {f : α → Except Failure β} {xs : List α} {ys : List β}
    (h : xs.mapM f = .ok ys) : List.Forall₂ (fun x y => f x = .ok y) xs ys := by
  induction xs generalizing ys with
  | nil =>
    cases h
    exact .nil
  | cons x rest ih =>
    rw [List.mapM_cons] at h
    obtain ⟨y, hy, hmore⟩ := exists_of_bind_ok h
    obtain ⟨more, hrest, hpure⟩ := exists_of_bind_ok hmore
    cases hpure
    exact .cons hy (ih hrest)

/-- What each result has of its element, all of them have. -/
theorem map_of_mapM_ok {γ : Type} {f : α → Except Failure β} {g : β → γ} {g' : α → γ}
    (hf : ∀ x y, f x = .ok y → g y = g' x) {xs : List α} {ys : List β}
    (h : xs.mapM f = .ok ys) : ys.map g = xs.map g' := by
  have hresults := forall₂_of_mapM_ok h
  clear h
  induction hresults with
  | nil => rfl
  | cons hxy _ ih => rw [List.map_cons, List.map_cons, hf _ _ hxy, ih]

end Calculation

/-- The elements of a value are read or missing. -/
theorem Json.gives_elements (value : Json) : Gives (fun _ => True) value.elements := by
  cases value <;> trivial

/-- A value that must be there is there or missing. -/
theorem gives_present {α : Type} (value? : Option α) :
    Gives (fun value => value? = some value) (present value?) := by
  cases value? with
  | none => trivial
  | some value => rfl

theorem Settings.gives_depth (settings : Settings) : Gives (fun _ => True) settings.depth := by
  simp only [depth]
  split <;> trivial

namespace Json

theorem refsOfItems_eq (items : List Json) : refsOfItems items = items.flatMap refs := by
  induction items with
  | nil => rfl
  | cons item rest ih => rw [refsOfItems, List.flatMap_cons, ih]

theorem refsOfMembers_eq (members : Members) :
    refsOfMembers members = members.flatMap fun pair => pair.2.refs := by
  induction members with
  | nil => rfl
  | cons pair rest ih => rw [refsOfMembers, List.flatMap_cons, ih]

/-- The references inside an item are inside the list. -/
theorem refs_subset_of_mem_items {items : List Json} {item : Json} (h : item ∈ items) :
    item.refs ⊆ (arr items).refs := by
  rw [refs, refsOfItems_eq]
  exact fun _ href => List.mem_flatMap.mpr ⟨item, h, href⟩

/-- The references inside the value of a key are inside the object. -/
theorem refs_subset_of_mem_members {members : Members} {key : String} {value : Json}
    (h : (key, value) ∈ members) : value.refs ⊆ (obj members).refs := by
  rw [refs, refsOfMembers_eq]
  exact List.subset_append_of_subset_right _ fun _ href => List.mem_flatMap.mpr ⟨_, h, href⟩

theorem sizeOf_lt_of_mem_items {items : List Json} {item : Json} (h : item ∈ items) :
    sizeOf item < sizeOf (arr items) := by
  have hlt := List.sizeOf_lt_of_mem h
  simp only [arr.sizeOf_spec]
  omega

theorem sizeOf_lt_of_mem_members {members : Members} {pair : String × Json}
    (h : pair ∈ members) : sizeOf pair.2 < sizeOf (obj members) := by
  have hlt := List.sizeOf_lt_of_mem h
  obtain ⟨key, value⟩ := pair
  simp only [obj.sizeOf_spec, Prod.mk.sizeOf_spec] at hlt ⊢
  omega

end Json

/-- A value that is found under a key is that of a member. -/
theorem Members.mem_of_get? {members : Members} {key : String} {value : Json}
    (h : members.get? key = some value) : (key, value) ∈ members := by
  induction members with
  | nil => cases h
  | cons pair rest ih =>
    obtain ⟨k, v⟩ := pair
    rw [get?] at h
    split at h
    · rename_i heq
      cases h
      exact heq ▸ List.mem_cons_self ..
    · exact List.mem_cons_of_mem _ (ih h)

namespace Json

/-- A child is the value of a key of an object or an item of a list. -/
theorem child_cases {node value : Json} {segment : String} (h : node.child segment = .ok value) :
    (∃ members, node = .obj members ∧ Members.get? members segment = some value) ∨
      ∃ (items : List Json) (position : Nat), node = .arr items ∧
        Text.isDigits segment.toList ∧ items[position]? = some value := by
  simp only [child] at h
  split at h
  · rename_i members
    split at h
    · rename_i found hget
      cases h
      exact Or.inl ⟨members, rfl, hget⟩
    · cases h
  · rename_i items
    split at h
    · rename_i hdigits
      split at h
      · rename_i position _
        split at h
        · rename_i item hget
          cases h
          exact Or.inr ⟨items, position, rfl, hdigits, hget⟩
        · cases h
      · cases h
    · cases h
  · cases h

/-- A walk along segments starts with a child. -/
theorem exists_of_walk_cons_ok {node value : Json} {segment : String} {rest : List String}
    (h : node.walk (segment :: rest) = .ok value) :
    ∃ next, node.child segment = .ok next ∧ next.walk rest = .ok value := by
  rw [walk] at h
  split at h
  · rename_i next hchild
    split at h
    · rename_i found hwalk
      cases h
      exact ⟨next, hchild, hwalk⟩
    · cases h
  · cases h

/-- A child has no other references than its parent. -/
theorem refs_subset_of_child {node value : Json} {segment : String}
    (h : node.child segment = .ok value) : value.refs ⊆ node.refs := by
  rcases child_cases h with ⟨members, rfl, hget⟩ | ⟨items, position, rfl, _, hget⟩
  · exact refs_subset_of_mem_members (Members.mem_of_get? hget)
  · exact refs_subset_of_mem_items (List.mem_of_getElem? hget)

/-- Walking into a value leads to no other references. -/
theorem refs_subset_of_walk {node value : Json} {segments : List String}
    (h : node.walk segments = .ok value) : value.refs ⊆ node.refs := by
  induction segments generalizing node with
  | nil =>
    cases h
    exact List.Subset.refl _
  | cons segment rest ih =>
    obtain ⟨next, hchild, hrest⟩ := exists_of_walk_cons_ok h
    exact List.Subset.trans (ih hrest) (refs_subset_of_child hchild)

end Json

namespace Graph

variable (graph : Graph)

/-- A document has no other references than its graph. -/
theorem finds_document (point : String) :
    Finds (fun value => Point.normalize point ∈ graph.points ∧ value.refs ⊆ graph.refs)
      ((graph.document point).mapError .schema) := by
  simp only [document]
  split
  · rename_i value hget
    have hmem := Members.mem_of_get? hget
    exact ⟨List.mem_map_of_mem hmem, fun _ href => List.mem_flatMap.mpr ⟨_, hmem, href⟩⟩
  · trivial

/-- What a path leads to has no other references than the graph. -/
theorem finds_lookup (point : String) (segments : List String) :
    Finds (fun value => Point.normalize point ∈ graph.points ∧ value.refs ⊆ graph.refs)
      (graph.lookup point segments) := by
  have hdocument := graph.finds_document point
  simp only [lookup]
  split
  · rename_i error herror
    rwa [herror] at hdocument
  · rename_i value hvalue
    rw [hvalue] at hdocument
    split
    · rename_i found hwalk
      exact ⟨hdocument.1, List.Subset.trans (Json.refs_subset_of_walk hwalk) hdocument.2⟩
    · trivial
    · trivial

theorem gives_partsFromEntry (point : String) :
    Gives (fun _ => True) (graph.partsFromEntry point) := by
  simp only [partsFromEntry]
  split
  · trivial
  · split <;> trivial

/-- A document part leads to the normal form of a path in the current directory. -/
theorem gives_target (currentPoint path : String) :
    Gives (fun target => target.point =
        Point.normalize (Point.join (Point.directory (Point.normalize currentPoint)) path))
      (graph.target currentPoint path) := by
  simp only [target]
  generalize Point.normalize (Point.join (Point.directory (Point.normalize currentPoint)) path) =
    point
  have hparts := graph.gives_partsFromEntry point
  exact hparts.bind fun parts _ => rfl

end Graph

end ApiTypes
