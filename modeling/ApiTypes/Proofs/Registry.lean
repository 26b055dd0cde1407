import ApiTypes.Registry

/-!
# Names are handed out once

The registry only grows, and what it has handed out it keeps: after any
requests the map from canonical paths to identifiers and the map back are
inverse to each other, every entry stays as it is, and a new path gets the
first free one of its candidates.
-/

namespace ApiTypes

/-- A key without repetition belongs to one element of a list, and a search for
the key finds that element. -/
theorem find?_key_eq_some_iff {α : Type} {key : α → String} {xs : List α}
    (hnodup : (xs.map key).Nodup) (k : String) (x : α) :
    xs.find? (key · = k) = some x ↔ x ∈ xs ∧ key x = k := by
  induction xs with
  | nil => simp
  | cons first rest ih =>
    simp only [List.map_cons, List.nodup_cons] at hnodup
    by_cases hfirst : key first = k
    · simp only [List.find?_cons, hfirst, decide_true, Option.some.injEq, List.mem_cons]
      constructor
      · rintro rfl
        exact ⟨Or.inl rfl, hfirst⟩
      · rintro ⟨rfl | hrest, hx⟩
        · rfl
        · exact absurd (List.mem_map.mpr ⟨x, hrest, hx.trans hfirst.symm⟩) hnodup.1
    · simp only [List.find?_cons, hfirst, decide_false, ih hnodup.2, List.mem_cons]
      constructor
      · rintro ⟨hrest, hx⟩
        exact ⟨Or.inr hrest, hx⟩
      · rintro ⟨rfl | hrest, hx⟩
        · exact absurd hx hfirst
        · exact ⟨hrest, hx⟩

namespace Registry

/-- The canonical paths of the entries in the order of their registration. -/
def paths (r : Registry) : List String := r.entries.map (·.canonicalPath)

/-- No canonical path has the identifier. -/
def IsFree (r : Registry) (identifier : String) : Prop := r.pathOf? identifier = none

/-- The registry after requests that are made one after another. -/
def ensureAll (r : Registry) (requests : List NameRequest) : Registry :=
  requests.foldl (fun r request => (r.ensure request).2) r

/-- What the registry keeps: no path is registered twice, no identifier is
handed out twice, and both maps hold the same pairs. -/
structure Sound (r : Registry) : Prop where
  /-- Every canonical path has one entry. -/
  paths_nodup : r.paths.Nodup
  /-- Every identifier belongs to one canonical path. -/
  identifiers_nodup : r.identifiers.Nodup
  /-- The owners of the identifiers are the paths of the entries. -/
  owners_eq : r.owners = r.entries.map fun entry => (entry.identifier, entry.canonicalPath)

/-- The identifier of a new path: the escaped preferred name if it is free, else
the qualified name if there is a qualifier and it is free, else the last of these
followed by the smallest number from two up that gives a free identifier. At most
one number more than there are entries is tried. -/
inductive Chosen (r : Registry) (preferred qualifier : String) : String → Prop where
  /-- The preferred name is free. -/
  | preferred (hfree : r.IsFree (r.escape preferred)) :
    Chosen r preferred qualifier (r.escape preferred)
  /-- The preferred name is taken and the qualified one is free. -/
  | qualified (htaken : ¬ r.IsFree (r.escape preferred)) (hqualifier : qualifier ≠ "")
    (hfree : r.IsFree (qualify qualifier (r.escape preferred))) :
    Chosen r preferred qualifier (qualify qualifier (r.escape preferred))
  /-- All names without a number are taken. -/
  | numbered (last : String) (number : Nat) (htaken : ¬ r.IsFree (r.escape preferred))
    (hlast : qualifier = "" ∧ last = r.escape preferred ∨
      qualifier ≠ "" ∧ last = qualify qualifier (r.escape preferred) ∧ ¬ r.IsFree last)
    (hfrom : 2 ≤ number) (hbound : number ≤ r.entries.length + 2)
    (hfree : r.IsFree (last ++ toString number))
    (hbelow : ∀ k, 2 ≤ k → k < number → ¬ r.IsFree (last ++ toString k)) :
    Chosen r preferred qualifier (last ++ toString number)

/-- An identifier is free when it was not handed out. -/
theorem isFree_iff (r : Registry) (identifier : String) :
    r.IsFree identifier ↔ identifier ∉ r.identifiers := by
  simp only [IsFree, pathOf?, identifiers, Option.map_eq_none_iff, List.find?_eq_none,
    decide_eq_true_eq, List.mem_map, not_exists, not_and]

/-- The registry without entries keeps its promises. -/
theorem Sound.empty (pascalNames : Bool) : (empty pascalNames).Sound :=
  ⟨List.nodup_nil, List.nodup_nil, rfl⟩

/-- As many identifiers are handed out as there are entries. -/
theorem Sound.length_identifiers {r : Registry} (h : r.Sound) :
    r.identifiers.length = r.entries.length := by
  simp [identifiers, h.owners_eq]

/-- The identifiers in the order of registration. -/
theorem Sound.identifiers_eq {r : Registry} (h : r.Sound) :
    r.identifiers = r.entries.map (·.identifier) := by
  simp [identifiers, h.owners_eq]

/-- The search for a path finds the entry that has it. -/
theorem Sound.find?_eq_some_iff {r : Registry} (h : r.Sound) (path : String) (entry : Entry) :
    r.find? path = some entry ↔ entry ∈ r.entries ∧ entry.canonicalPath = path :=
  find?_key_eq_some_iff h.paths_nodup path entry

/-- An identifier belongs to one entry. -/
theorem Sound.entry_eq {r : Registry} (h : r.Sound) {entry entry' : Entry}
    (hentry : entry ∈ r.entries) (hentry' : entry' ∈ r.entries)
    (heq : entry.identifier = entry'.identifier) : entry = entry' := by
  have hnodup : (r.entries.map (·.identifier)).Nodup := h.identifiers_eq ▸ h.identifiers_nodup
  have hfind := (find?_key_eq_some_iff hnodup entry'.identifier entry).mpr ⟨hentry, heq⟩
  rw [(find?_key_eq_some_iff hnodup entry'.identifier entry').mpr ⟨hentry', rfl⟩] at hfind
  exact (Option.some.inj hfind).symm

/-- The identifier of a path is that of its entry. -/
theorem Sound.nameFor?_eq_some_iff {r : Registry} (h : r.Sound) (path identifier : String) :
    r.nameFor? path = some identifier ↔
      ∃ entry ∈ r.entries, entry.canonicalPath = path ∧ entry.identifier = identifier := by
  simp only [nameFor?, Option.map_eq_some_iff, h.find?_eq_some_iff, and_assoc]

/-- The path of an identifier is that of its entry. -/
theorem Sound.pathOf?_eq_some_iff {r : Registry} (h : r.Sound) (path identifier : String) :
    r.pathOf? identifier = some path ↔
      ∃ entry ∈ r.entries, entry.canonicalPath = path ∧ entry.identifier = identifier := by
  have hnodup : (r.owners.map (·.1)).Nodup := h.identifiers_nodup
  simp only [pathOf?, Option.map_eq_some_iff, find?_key_eq_some_iff hnodup]
  simp only [h.owners_eq, List.mem_map]
  constructor
  · rintro ⟨_, ⟨⟨entry, hentry, rfl⟩, hidentifier⟩, hpath⟩
    exact ⟨entry, hentry, hpath, hidentifier⟩
  · rintro ⟨entry, hentry, hpath, hidentifier⟩
    exact ⟨_, ⟨⟨entry, hentry, rfl⟩, hidentifier⟩, hpath⟩

/-- The two maps are inverse to each other. -/
theorem Sound.nameFor?_iff_pathOf? {r : Registry} (h : r.Sound) (path identifier : String) :
    r.nameFor? path = some identifier ↔ r.pathOf? identifier = some path := by
  rw [h.nameFor?_eq_some_iff, h.pathOf?_eq_some_iff]

/-- A path is registered when it has an entry. -/
theorem find?_eq_none_iff (r : Registry) (path : String) :
    r.find? path = none ↔ path ∉ r.paths := by
  simp [find?, paths]

/-- A request either finds its path registered and changes nothing, or adds an
entry with an allocated identifier. -/
theorem ensure_cases (r : Registry) (request : NameRequest) :
    (∃ entry, r.find? request.canonicalPath = some entry ∧
      r.ensure request = (entry.identifier, r)) ∨
    (r.find? request.canonicalPath = none ∧
      r.ensure request = (r.allocate request.preferred request.qualifier,
        r.add ⟨request.canonicalPath, r.allocate request.preferred request.qualifier,
          request.documentPoint, request.segments⟩)) := by
  cases hfind : r.find? request.canonicalPath with
  | some entry => exact Or.inl ⟨entry, rfl, by simp [ensure, hfind]⟩
  | none => exact Or.inr ⟨rfl, by simp [ensure, hfind]⟩

/-- An entry with a new path and a free identifier can be added. -/
theorem Sound.add {r : Registry} (h : r.Sound) {entry : Entry}
    (hpath : entry.canonicalPath ∉ r.paths) (hidentifier : entry.identifier ∉ r.identifiers) :
    (r.add entry).Sound where
  paths_nodup := by
    simp only [paths, Registry.add, List.map_append, List.map_cons, List.map_nil]
    exact List.nodup_append.mpr ⟨h.paths_nodup, by simp, by
      rintro path hmem _ hlast rfl
      exact hpath (List.mem_singleton.mp hlast ▸ hmem)⟩
  identifiers_nodup := by
    simp only [identifiers, Registry.add, List.map_append, List.map_cons, List.map_nil]
    exact List.nodup_append.mpr ⟨h.identifiers_nodup, by simp, by
      rintro identifier hmem _ hlast rfl
      exact hidentifier (List.mem_singleton.mp hlast ▸ hmem)⟩
  owners_eq := by simp [Registry.add, h.owners_eq]

theorem ensureAll_append (r : Registry) (first second : List NameRequest) :
    r.ensureAll (first ++ second) = (r.ensureAll first).ensureAll second :=
  List.foldl_append

/-- Requests only add entries, at the end. -/
theorem entries_prefix_ensureAll (r : Registry) (requests : List NameRequest) :
    r.entries <+: (r.ensureAll requests).entries := by
  induction requests generalizing r with
  | nil => exact List.prefix_refl _
  | cons request rest ih => exact (r.entries_prefix_ensure request).trans (ih _)

/-- Every entry was there or is what one of the requests asked for. -/
theorem mem_entries_ensureAll {r : Registry} {requests : List NameRequest} {entry : Entry}
    (h : entry ∈ (r.ensureAll requests).entries) : entry ∈ r.entries ∨ ∃ request ∈ requests,
      entry.canonicalPath = request.canonicalPath ∧
      entry.documentPoint = request.documentPoint ∧ entry.segments = request.segments := by
  induction requests generalizing r with
  | nil => exact Or.inl h
  | cons request rest ih =>
    rw [ensureAll, List.foldl_cons] at h
    rcases ih h with h | ⟨other, hmem, hother⟩
    · rcases r.ensure_cases request with ⟨_, _, heq⟩ | ⟨_, heq⟩
      · rw [heq] at h
        exact Or.inl h
      · rw [heq] at h
        refine (List.mem_append.mp h).imp id fun hlast => ?_
        rw [List.mem_singleton.mp hlast]
        exact ⟨request, List.mem_cons_self .., rfl, rfl, rfl⟩
    · exact Or.inr ⟨other, List.mem_cons_of_mem _ hmem, hother⟩

/-- One request keeps what the registry promises. -/
theorem Sound.ensure {r : Registry} (h : r.Sound) (request : NameRequest) :
    (r.ensure request).2.Sound := by
  rcases r.ensure_cases request with ⟨entry, _, heq⟩ | ⟨hnone, heq⟩
  · rwa [heq]
  · rw [heq]
    exact h.add ((r.find?_eq_none_iff _).mp hnone) (r.allocate_not_mem _ _)

/-- So does every sequence of requests. -/
theorem Sound.ensureAll {r : Registry} (h : r.Sound) (requests : List NameRequest) :
    (r.ensureAll requests).Sound := by
  induction requests generalizing r with
  | nil => exact h
  | cons request rest ih => exact ih (h.ensure request)

/-- Entries that were registered are found again after further requests. -/
theorem find?_ensure_of_some {r : Registry} {path : String} {entry : Entry}
    (h : r.find? path = some entry) (request : NameRequest) :
    (r.ensure request).2.find? path = some entry := by
  have hfind : r.entries.find? (·.canonicalPath = path) = some entry := h
  rcases r.ensure_cases request with ⟨_, _, heq⟩ | ⟨_, heq⟩
  · rwa [heq]
  · simp [heq, find?, add, List.find?_append, hfind]

theorem find?_ensureAll_of_some {r : Registry} {path : String} {entry : Entry}
    (h : r.find? path = some entry) (requests : List NameRequest) :
    (r.ensureAll requests).find? path = some entry := by
  induction requests generalizing r with
  | nil => exact h
  | cons request rest ih => exact ih (find?_ensure_of_some h request)

/-- Items with further ones at the end, each of them when it is new. -/
def appendNew (items more : List String) : List String :=
  more.foldl (fun items item => if item ∈ items then items else items ++ [item]) items

/-- Items that are there stay where they are. -/
theorem prefix_appendNew (items more : List String) : items <+: appendNew items more := by
  induction more generalizing items with
  | nil => exact List.prefix_refl _
  | cons item rest ih =>
    rw [appendNew, List.foldl_cons]
    split
    · exact ih items
    · exact (List.prefix_append items [item]).trans (ih (items ++ [item]))

/-- An item is there in the end when it was there or is a further one. -/
theorem mem_appendNew {item : String} {items more : List String} :
    item ∈ appendNew items more ↔ item ∈ items ∨ item ∈ more := by
  induction more generalizing items with
  | nil => simp [appendNew]
  | cons first rest ih =>
    rw [appendNew, List.foldl_cons]
    split
    · rename_i hmem
      refine ih.trans ?_
      rw [List.mem_cons]
      constructor
      · rintro (h | h)
        · exact Or.inl h
        · exact Or.inr (Or.inr h)
      · rintro (h | rfl | h)
        · exact Or.inl h
        · exact Or.inl hmem
        · exact Or.inr h
    · refine ih.trans ?_
      simp only [List.mem_append, List.mem_cons, List.not_mem_nil, or_false, or_assoc]

/-- Items that are there are not added again. -/
theorem appendNew_of_subset {items more : List String} (h : more ⊆ items) :
    appendNew items more = items := by
  induction more with
  | nil => rfl
  | cons item rest ih =>
    rw [appendNew, List.foldl_cons, if_pos (h (List.mem_cons_self ..))]
    exact ih fun other hmem => h (List.mem_cons_of_mem _ hmem)

/-- What is added are further items, each of them once. -/
theorem exists_appendNew_eq (items more : List String) :
    ∃ added, appendNew items more = items ++ added ∧ added.Nodup ∧
      ∀ item ∈ added, item ∉ items ∧ item ∈ more := by
  induction more generalizing items with
  | nil => exact ⟨[], (List.append_nil items).symm, List.nodup_nil, nofun⟩
  | cons first rest ih =>
    rw [appendNew, List.foldl_cons]
    split
    · obtain ⟨added, heq, hnodup, hadded⟩ := ih items
      exact ⟨added, heq, hnodup, fun item hmem =>
        ⟨(hadded item hmem).1, List.mem_cons_of_mem _ (hadded item hmem).2⟩⟩
    · rename_i hnew
      obtain ⟨added, heq, hnodup, hadded⟩ := ih (items ++ [first])
      refine ⟨first :: added, heq.trans (by simp), ?_, fun item hmem => ?_⟩
      · refine List.nodup_cons.mpr ⟨fun hmem => (hadded first hmem).1 ?_, hnodup⟩
        exact List.mem_append_right _ (List.mem_singleton_self first)
      · rcases List.mem_cons.mp hmem with rfl | hmem
        · exact ⟨hnew, List.mem_cons_self ..⟩
        · obtain ⟨hnotMem, hrest⟩ := hadded item hmem
          exact ⟨fun h => hnotMem (List.mem_append_left _ h), List.mem_cons_of_mem _ hrest⟩

theorem paths_ensure (r : Registry) (request : NameRequest) :
    (r.ensure request).2.paths =
      if request.canonicalPath ∈ r.paths then r.paths else r.paths ++ [request.canonicalPath] := by
  rcases r.ensure_cases request with ⟨_, hfind, heq⟩ | ⟨hnone, heq⟩
  · have hmem : request.canonicalPath ∈ r.paths := by
      by_cases hmem : request.canonicalPath ∈ r.paths
      · exact hmem
      · rw [(r.find?_eq_none_iff _).mpr hmem] at hfind
        cases hfind
    rw [heq, if_pos hmem]
  · rw [heq, if_neg ((r.find?_eq_none_iff _).mp hnone)]
    simp [paths, add]

/-- Requests add the paths that are new, in the order of the requests. -/
theorem paths_ensureAll (r : Registry) (requests : List NameRequest) :
    (r.ensureAll requests).paths = appendNew r.paths (requests.map (·.canonicalPath)) := by
  induction requests generalizing r with
  | nil => rfl
  | cons request rest ih =>
    have hrest := ih (r.ensure request).2
    rw [paths_ensure] at hrest
    exact hrest

/-- A request adds an entry exactly when its path is new. -/
theorem length_entries_ensure (r : Registry) (request : NameRequest) :
    (r.ensure request).2.entries.length =
      r.entries.length + if request.canonicalPath ∈ r.paths then 0 else 1 := by
  have hlength := congrArg List.length (r.paths_ensure request)
  rw [paths, List.length_map] at hlength
  rw [hlength]
  split <;> simp [paths]

/-- A search that passes over taken numbers ends after at most as many numbers
as there are taken texts. -/
theorem numbers_below_le {base : String} {taken : List String} {number : Nat}
    (h : ∀ k, 2 ≤ k → k < number → base ++ toString k ∈ taken) : number ≤ taken.length + 2 := by
  let tried := (List.range (number - 2)).map fun k => base ++ toString (k + 2)
  have hnodup : tried.Nodup := by
    refine List.Pairwise.map _ ?_ List.nodup_range
    intro i j hne heq
    exact hne (Nat.add_right_cancel (numbered_inj heq))
  have hsubset : tried ⊆ taken := by
    intro text htext
    obtain ⟨k, hk, rfl⟩ := List.mem_map.mp htext
    have hlt := List.mem_range.mp hk
    exact h (k + 2) (by omega) (by omega)
  have hlength : tried.length = number - 2 := by simp [tried]
  have := hnodup.length_le_of_subset hsubset
  omega

/-- The search for a number among the identifiers chooses the first free text. -/
theorem Sound.chosen_firstFree {r : Registry} (h : r.Sound) {preferred qualifier last : String}
    (htaken : ¬ r.IsFree (r.escape preferred))
    (hlast : qualifier = "" ∧ last = r.escape preferred ∨
      qualifier ≠ "" ∧ last = qualify qualifier (r.escape preferred) ∧ ¬ r.IsFree last) :
    r.Chosen preferred qualifier (firstFree last r.identifiers 2) := by
  obtain ⟨number, hfrom, heq, hfree, hbelow⟩ := firstFree_eq last r.identifiers 2
  have hbound := numbers_below_le hbelow
  rw [h.length_identifiers] at hbound
  rw [heq]
  refine .numbered last number htaken hlast hfrom hbound ((r.isFree_iff _).mpr hfree) ?_
  intro k hk hlt hfree'
  exact (r.isFree_iff _).mp hfree' (hbelow k hk hlt)

/-- The identifier of a new path is the first free one of its candidates. -/
theorem Sound.chosen_allocate {r : Registry} (h : r.Sound) (preferred qualifier : String) :
    r.Chosen preferred qualifier (r.allocate preferred qualifier) := by
  simp only [allocate]
  split
  case isTrue hfree => exact .preferred ((r.isFree_iff _).mpr hfree)
  case isFalse hmem =>
    have htaken : ¬ r.IsFree (r.escape preferred) := by rwa [r.isFree_iff]
    split
    case isTrue hempty =>
      exact h.chosen_firstFree htaken (Or.inl ⟨String.isEmpty_iff.mp hempty, rfl⟩)
    case isFalse hempty =>
      have hqualifier : qualifier ≠ "" := fun h => hempty (String.isEmpty_iff.mpr h)
      split
      case isTrue hfree => exact .qualified htaken hqualifier ((r.isFree_iff _).mpr hfree)
      case isFalse hmem' =>
        exact h.chosen_firstFree htaken
          (Or.inr ⟨hqualifier, rfl, by rwa [r.isFree_iff]⟩)

/-- **The registry is an append-only injective map.** After any requests, the
maps between canonical paths and identifiers are inverse to each other; the next
request keeps all entries in their places and adds one exactly when its path is
new; an entry stays the same through all later requests; and a new path gets the
first free one of its candidates. -/
theorem ensure_appendOnly_injective (pascalNames : Bool) (before : List NameRequest)
    (request : NameRequest) :
    let r := (empty pascalNames).ensureAll before
    let identifier := (r.ensure request).1
    let after := (r.ensure request).2
    (∀ path name, r.nameFor? path = some name ↔ r.pathOf? name = some path) ∧
      (∀ entry ∈ r.entries, ∀ entry' ∈ r.entries,
        entry.identifier = entry'.identifier → entry = entry') ∧
      r.entries <+: after.entries ∧
      after.entries.length =
        r.entries.length + (if request.canonicalPath ∈ r.paths then 0 else 1) ∧
      after.nameFor? request.canonicalPath = some identifier ∧
      (∀ path entry later, after.find? path = some entry →
        (after.ensureAll later).find? path = some entry) ∧
      (request.canonicalPath ∉ r.paths →
        r.Chosen request.preferred request.qualifier identifier ∧
        after.find? request.canonicalPath =
          some ⟨request.canonicalPath, identifier, request.documentPoint, request.segments⟩) := by
  intro r identifier after
  have hsound : r.Sound := (Sound.empty pascalNames).ensureAll before
  refine ⟨hsound.nameFor?_iff_pathOf?, ?_, entries_prefix_ensure r request,
    length_entries_ensure r request, nameFor?_ensure r request,
    fun path entry later h => find?_ensureAll_of_some h later, ?_⟩
  · intro entry hentry entry' hentry' heq
    have hpath := (hsound.pathOf?_eq_some_iff entry.canonicalPath entry.identifier).mpr
      ⟨entry, hentry, rfl, rfl⟩
    have hpath' := (hsound.pathOf?_eq_some_iff entry'.canonicalPath entry.identifier).mpr
      ⟨entry', hentry', rfl, heq.symm⟩
    have hfind := (hsound.find?_eq_some_iff entry.canonicalPath entry).mpr ⟨hentry, rfl⟩
    have hfind' := (hsound.find?_eq_some_iff entry.canonicalPath entry').mpr
      ⟨hentry', Option.some.inj (hpath'.symm.trans hpath)⟩
    exact Option.some.inj (hfind.symm.trans hfind')
  · intro hnew
    rcases r.ensure_cases request with ⟨entry, hfind, _⟩ | ⟨hnone, heq⟩
    · rw [(r.find?_eq_none_iff _).mpr hnew] at hfind
      cases hfind
    · have hidentifier : identifier = r.allocate request.preferred request.qualifier := by
        simp only [identifier, heq]
      refine ⟨hidentifier ▸ hsound.chosen_allocate _ _, ?_⟩
      have hfind : r.entries.find? (·.canonicalPath = request.canonicalPath) = none := hnone
      simp [after, hidentifier, heq, find?, add, List.find?_append, hfind]

end Registry

end ApiTypes
