import ApiTypes.Identifier

/-!
# Registry of names

Every schema that needs a declaration is registered under its canonical path
and gets one identifier for the whole run. Entries are never changed and never
removed, and no two of them share an identifier.
-/

namespace ApiTypes

/-- A registered schema. -/
structure Entry where
  /-- Where the schema is, as document and pointer. -/
  canonicalPath : String
  /-- The name of its declaration. -/
  identifier : String
  /-- The document that holds it. -/
  documentPoint : String
  /-- The path to it inside the document. -/
  segments : List String
deriving DecidableEq, Repr

/-- The registered schemas. -/
structure Registry where
  /-- Whether preferred names are capitalised word by word. -/
  pascalNames : Bool
  /-- The entries in the order of their registration. -/
  entries : List Entry
  /-- The identifiers that were handed out, each with its canonical path. -/
  owners : List (String × String)
deriving DecidableEq, Repr

/-- A schema that needs a declaration. -/
structure NameRequest where
  /-- Where the schema is, as document and pointer. -/
  canonicalPath : String
  /-- The name to use when it is still free. -/
  preferred : String
  /-- A qualifier for the name when it is taken; none when empty. -/
  qualifier : String := ""
  /-- The document that holds the schema. -/
  documentPoint : String := ""
  /-- The path to it inside the document. -/
  segments : List String := []

namespace Registry

/-- The registry without entries. -/
def empty (pascalNames : Bool) : Registry := ⟨pascalNames, [], []⟩

/-- The entry of a canonical path. -/
def find? (r : Registry) (canonicalPath : String) : Option Entry :=
  r.entries.find? (·.canonicalPath = canonicalPath)

/-- The identifier of a canonical path. -/
def nameFor? (r : Registry) (canonicalPath : String) : Option String :=
  (r.find? canonicalPath).map (·.identifier)

/-- The canonical path of an identifier. -/
def pathOf? (r : Registry) (identifier : String) : Option String :=
  (r.owners.find? (·.1 = identifier)).map (·.2)

/-- The identifiers that are taken. -/
def identifiers (r : Registry) : List String := r.owners.map (·.1)

/-- The identifier that a name asks for. -/
def escape (r : Registry) (name : String) : String :=
  let capitalized := if r.pascalNames then Identifier.pascal name else ""
  Identifier.escape (if capitalized.isEmpty then name else capitalized)

/-- A name with its qualifier: the capitalised words of the qualifier before
the name with its first letter in upper case. -/
def qualify (qualifier base : String) : String :=
  Identifier.escape (Identifier.pascal qualifier ++ base.capitalize)

/-- The first of the texts `base` with `number`, `number + 1`, ... that is not
taken. A taken text is struck off the list before the next one is tried. -/
def firstFree (base : String) (taken : List String) (number : Nat) : String :=
  if _h : base ++ toString number ∈ taken then
    firstFree base (taken.erase (base ++ toString number)) (number + 1)
  else base ++ toString number
termination_by taken.length
decreasing_by
  have := List.length_erase_of_mem _h
  have := List.length_pos_of_mem _h
  omega

/-- Different numbers after one text give different texts. -/
theorem numbered_inj {base : String} {i j : Nat} (h : base ++ toString i = base ++ toString j) :
    i = j := by
  have hnumerals : toString i = toString j := (String.append_right_inj base).mp h
  have hdigits : Nat.toDigits 10 i = Nat.toDigits 10 j := by
    rwa [Nat.toString_eq_ofList_toDigits, Nat.toString_eq_ofList_toDigits,
      String.ofList_inj] at hnumerals
  rw [← Nat.ofDigitChars_ten_toDigits (n := i), hdigits, Nat.ofDigitChars_ten_toDigits]

/-- The number that is chosen is the first one whose text is not taken. -/
theorem firstFree_eq (base : String) (taken : List String) (number : Nat) :
    ∃ chosen, number ≤ chosen ∧ firstFree base taken number = base ++ toString chosen ∧
      base ++ toString chosen ∉ taken ∧
      ∀ k, number ≤ k → k < chosen → base ++ toString k ∈ taken := by
  fun_induction firstFree base taken number with
  | case1 taken number hmem ih =>
    obtain ⟨chosen, hle, heq, hfree, hbelow⟩ := ih
    refine ⟨chosen, by omega, heq, ?_, ?_⟩
    · intro h
      have hne : base ++ toString chosen ≠ base ++ toString number := by
        intro heq
        have := numbered_inj heq
        omega
      exact hfree ((List.mem_erase_of_ne hne).mpr h)
    · intro k hk hlt
      by_cases h : k = number
      · exact h ▸ hmem
      · exact List.mem_of_mem_erase (hbelow k (by omega) hlt)
  | case2 taken number hmem =>
    exact ⟨number, Nat.le_refl _, rfl, hmem, fun k hk hlt => absurd hk (by omega)⟩

/-- What is chosen is not taken. -/
theorem firstFree_not_mem (base : String) (taken : List String) (number : Nat) :
    firstFree base taken number ∉ taken := by
  obtain ⟨chosen, _, heq, hfree, _⟩ := firstFree_eq base taken number
  rwa [heq]

/-- An identifier that is not taken: the preferred one, else the qualified
one, else the last of these with the smallest free number from 2 up. -/
def allocate (r : Registry) (preferred qualifier : String) : String :=
  let base := r.escape preferred
  if base ∉ r.identifiers then base
  else if qualifier.isEmpty then firstFree base r.identifiers 2
  else
    let qualified := qualify qualifier base
    if qualified ∉ r.identifiers then qualified else firstFree qualified r.identifiers 2

/-- An allocated identifier is not taken. -/
theorem allocate_not_mem (r : Registry) (preferred qualifier : String) :
    r.allocate preferred qualifier ∉ r.identifiers := by
  simp only [allocate]
  split
  · assumption
  · split
    · exact firstFree_not_mem _ _ _
    · split
      · assumption
      · exact firstFree_not_mem _ _ _

/-- The registry with one more entry. -/
def add (r : Registry) (entry : Entry) : Registry :=
  { r with
    entries := r.entries ++ [entry]
    owners := r.owners ++ [(entry.identifier, entry.canonicalPath)] }

/-- The identifier of a schema, which is registered when its path is new. -/
def ensure (r : Registry) (request : NameRequest) : String × Registry :=
  match r.find? request.canonicalPath with
  | some entry => (entry.identifier, r)
  | none =>
    let identifier := r.allocate request.preferred request.qualifier
    (identifier, r.add
      ⟨request.canonicalPath, identifier, request.documentPoint, request.segments⟩)

/-- A registered path has the identifier that the registration gave. -/
@[simp] theorem nameFor?_ensure (r : Registry) (request : NameRequest) :
    (r.ensure request).2.nameFor? request.canonicalPath = some (r.ensure request).1 := by
  simp only [ensure]
  split
  · rename_i entry hfind
    simp [nameFor?, hfind]
  · rename_i hfind
    have hnone := List.find?_eq_none.mp hfind
    simp [nameFor?, find?, add, List.find?_append, List.find?_eq_none.mpr hnone]

/-- Entries are only added, at the end. -/
theorem entries_prefix_ensure (r : Registry) (request : NameRequest) :
    r.entries <+: (r.ensure request).2.entries := by
  simp only [ensure]
  split
  · exact List.prefix_refl _
  · exact List.prefix_append _ _

end Registry

end ApiTypes
