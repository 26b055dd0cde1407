import ApiTypes.Proofs.Document.Moved
import ApiTypes.Proofs.Reference

/-!
# One form for every point

A point in normal form is at most two slashes, parts that lead up if there are no slashes, and
names that lead down. Every point has such a form, and exactly the points of that form are
their own. So it does not matter how the document part of a reference is spelled, nor from
which document it is read: where the path that is read has one normal form, the reference
leads to one document in the same way.
-/

namespace ApiTypes

namespace Point

open Text

/-- How many slashes a point starts with. -/
def slashes (point : String) : Nat := (point.toList.takeWhile (· == '/')).length

/-- The parts of a point between its slashes, apart from those at its start. -/
def components (point : String) : List (List Char) :=
  match point.toList.dropWhile (· == '/') with
  | [] => []
  | c :: rest => splitAt '/' (c :: rest)

/-- A point in normal form. -/
structure IsNormal (point : String) : Prop where
  /-- It has no backslash. -/
  backslash_not_mem : '\\' ∉ point.toList
  /-- It starts with two slashes at most. -/
  slashes_le : slashes point ≤ 2
  /-- None of its parts is empty or stays where it is. -/
  named : ∀ part ∈ components point, part ≠ [] ∧ part ≠ ['.']
  /-- Only its first parts lead up. -/
  ups_first : ∃ levels names, components point = List.replicate levels up ++ names ∧ up ∉ names
  /-- From the root of the file system none of them does. -/
  rooted : IsAbsolute point → up ∉ components point

/-- Every point is made of the slashes at its start and its parts. -/
theorem toList_eq (point : String) :
    point.toList = List.replicate (slashes point) '/' ++ joinWith '/' (components point) := by
  have hslashes : point.toList.takeWhile (· == '/') = List.replicate (slashes point) '/' :=
    List.eq_replicate_iff.mpr ⟨rfl, fun c hc => by simpa using List.mem_takeWhile_imp hc⟩
  have hparts : point.toList.dropWhile (· == '/') = joinWith '/' (components point) := by
    unfold components
    split
    · rename_i hnil
      rw [hnil]
      rfl
    · rename_i hcons
      rw [hcons, joinWith_splitAt]
  rw [← hslashes, ← hparts, List.takeWhile_append_dropWhile]

/-- No part of a point has a slash. -/
theorem slash_not_mem_of_mem_components {point : String} {part : List Char}
    (h : part ∈ components point) : '/' ∉ part := by
  unfold components at h
  split at h
  · cases h
  · exact not_mem_of_mem_splitAt h

/-- Slashes and parts that can be kept make a point with those slashes and parts. -/
theorem components_eq {point : String} {n : Nat} {parts : List (List Char)} {rooted : Bool}
    (h : point.toList = List.replicate n '/' ++ joinWith '/' parts)
    (hparts : Kept rooted parts.reverse) : slashes point = n ∧ components point = parts := by
  have hslash : ∀ c ∈ List.replicate n '/', (c == '/') = true := fun c hc => by
    rw [List.eq_of_mem_replicate hc]
    rfl
  have htake : (joinWith '/' parts).takeWhile (· == '/') = [] := by
    have hhead := hparts.head?_joinWith
    generalize joinWith '/' parts = joined at hhead
    cases joined with
    | nil => rfl
    | cons c rest => exact List.takeWhile_cons_of_neg (by simpa using hhead)
  have hdrop : point.toList.dropWhile (· == '/') = joinWith '/' parts := by
    have hwhole := List.takeWhile_append_dropWhile (p := (· == '/')) (l := joinWith '/' parts)
    rw [htake, List.nil_append] at hwhole
    rw [h, List.dropWhile_append_of_pos hslash, hwhole]
  constructor
  · rw [slashes, h, List.takeWhile_append_of_pos hslash, htake, List.append_nil,
      List.length_replicate]
  · by_cases hnil : parts = []
    · rw [components, hdrop, hnil]
      rfl
    · have hsplit : splitAt '/' (joinWith '/' parts) = parts := splitAt_joinWith hnil
        fun part hmem => (hparts.named part (List.mem_reverse.mpr hmem)).2
      cases hjoined : joinWith '/' parts with
      | nil =>
        -- Nothing is joined to nothing but an empty part, and that is not kept.
        rw [hjoined] at hsplit
        have hempty := hparts.named [] (by rw [← hsplit]; exact List.mem_singleton_self _)
        exact absurd rfl hempty.1
      | cons c rest =>
        rw [hjoined] at hsplit hdrop
        rw [components, hdrop]
        exact hsplit

theorem isAbsolute_iff {point : String} : IsAbsolute point ↔ slashes point ≠ 0 := by
  rw [IsAbsolute, slashes]
  cases point.toList with
  | nil => simp
  | cons c rest => by_cases hc : c = '/' <;> simp [hc]

/-- Points without backslashes are read as they are. -/
theorem slashed_eq_self_iff {point : String} :
    slashed point = point.toList ↔ '\\' ∉ point.toList := by
  constructor
  · intro hself hmem
    rw [← hself] at hmem
    obtain ⟨c, _, heq⟩ := List.mem_map.mp hmem
    split at heq
    · cases heq
    · contradiction
  · intro hno
    refine (List.map_congr_left fun c hc => ?_).trans (List.map_id _)
    have hne : c ≠ '\\' := fun heq => hno (heq ▸ hc)
    rw [if_neg hne, id]

/-- Parts that lead up can be kept in a path that is not rooted. -/
theorem kept_ups (levels : Nat) : Kept false (List.replicate levels up) := by
  induction levels with
  | zero => trivial
  | succ levels ih =>
    exact ⟨by decide, fun _ => ⟨rfl, fun _ hmem => List.eq_of_mem_replicate hmem⟩, ih⟩

/-- Names can be kept after anything. -/
theorem Kept.down_append {rooted : Bool} {down kept : List (List Char)} (h : Kept rooted kept)
    (hdown : ∀ part ∈ down, (part ≠ [] ∧ part ≠ ['.'] ∧ '/' ∉ part) ∧ part ≠ up) :
    Kept rooted (down ++ kept) := by
  induction down with
  | nil => exact h
  | cons part rest ih =>
    obtain ⟨⟨hnamed, hup⟩, hrest⟩ := List.forall_mem_cons.mp hdown
    exact ⟨hnamed, fun heq => absurd heq hup, ih hrest⟩

/-- What is kept from the root does not lead up. -/
theorem Kept.up_not_mem {kept : List (List Char)} (h : Kept true kept) : up ∉ kept := by
  induction kept with
  | nil => exact List.not_mem_nil
  | cons part rest ih =>
    intro hmem
    rcases List.mem_cons.mp hmem with rfl | hmem
    · cases (h.2.1 rfl).1
    · exact ih h.2.2 hmem

/-- The parts of a point in normal form can be kept. -/
theorem IsNormal.kept {point : String} (h : IsNormal point) :
    Kept (slashes point != 0) (components point).reverse := by
  obtain ⟨levels, names, heq, hup⟩ := h.ups_first
  have hnames : ∀ part ∈ names.reverse,
      (part ≠ [] ∧ part ≠ ['.'] ∧ '/' ∉ part) ∧ part ≠ up := by
    intro part hmem
    have hpart : part ∈ components point := heq ▸ List.mem_append_right _ (List.mem_reverse.mp hmem)
    obtain ⟨hne, hdot⟩ := h.named part hpart
    exact ⟨⟨hne, hdot, slash_not_mem_of_mem_components hpart⟩,
      fun heq => hup (heq ▸ List.mem_reverse.mp hmem)⟩
  have hkept : Kept (slashes point != 0) (List.replicate levels up) := by
    by_cases hzero : slashes point = 0
    · rw [hzero]
      exact kept_ups levels
    · have hroot := h.rooted (isAbsolute_iff.mpr hzero)
      have hlevels : levels = 0 := by
        by_contra hne
        exact hroot (heq ▸ List.mem_append_left _ (List.mem_replicate.mpr ⟨hne, rfl⟩))
      rw [hlevels]
      trivial
  rw [heq, List.reverse_append, List.reverse_replicate]
  exact hkept.down_append hnames

/-- The points that are their own normal form are those in normal form. -/
theorem normalize_eq_self_iff {point : String} : normalize point = point ↔ IsNormal point := by
  constructor
  · intro hself
    have hkept := kept_normalParts (slashed point)
    have hchars : point.toList = List.replicate (rootSlashes (slashed point)) '/' ++
        joinWith '/' (route point) := by
      conv_lhs => rw [← hself, normalize, String.toList_ofList]
      rfl
    obtain ⟨hslashes, hcomponents⟩ := components_eq hchars hkept
    have hslashed := slashed_normalize point
    rw [hself] at hslashed
    have hrooted : rootSlashes (slashed point) ≠ 0 → up ∉ route point := fun hroot hmem => by
      rw [bne_iff_ne.mpr hroot] at hkept
      exact hkept.up_not_mem (List.mem_reverse.mpr hmem)
    have hups : ∃ levels names, route point = List.replicate levels up ++ names ∧ up ∉ names := by
      by_cases hroot : rootSlashes (slashed point) = 0
      · obtain ⟨hroute, hup, _⟩ := route_eq_append hroot
        exact ⟨climb point, descent point, hroute, hup⟩
      · exact ⟨0, route point, rfl, hrooted hroot⟩
    refine ⟨slashed_eq_self_iff.mp hslashed, hslashes ▸ rootSlashes_le _, ?_,
      hcomponents ▸ hups, ?_⟩
    · rw [hcomponents]
      exact fun part hmem => hkept.isName part (List.mem_reverse.mpr hmem)
    · rw [isAbsolute_iff, hslashes, hcomponents]
      exact hrooted
  · intro h
    have hkept := h.kept
    have hslashed := slashed_eq_self_iff.mpr h.backslash_not_mem
    have hchars := toList_eq point
    have hroot := rootSlashes_replicate h.slashes_le hkept.head?_joinWith
    rw [← hchars] at hroot
    have hparts : normalParts point.toList = components point := by
      rw [normalParts, hroot, hchars, foldl_push_splitAt_replicate, hkept.foldl_push_splitAt,
        List.reverse_reverse]
    have hnormal : normalChars (slashed point) = point.toList := by
      rw [hslashed, normalChars, hroot, hparts, ← hchars]
    exact String.toList_injective ((String.toList_ofList).trans hnormal)

/-- Every point has a normal form. -/
theorem normalize_isNormal (point : String) : IsNormal (normalize point) :=
  normalize_eq_self_iff.mp (normalize_normalize point)

end Point

/-- The parts of a point are not found just if it is empty and the entry document has a
directory. -/
theorem Graph.partsFromEntry_eq_error_iff (g : Graph) {point : String} {failure : Failure} :
    g.partsFromEntry point = .error failure ↔
      failure = .malformed .emptyPoint ∧ Point.directory g.entryPoint ≠ "" ∧ point = "" := by
  simp only [partsFromEntry, String.isEmpty_iff]
  by_cases hdirectory : Point.directory g.entryPoint = ""
  · simp [hdirectory]
  · by_cases hpoint : point = ""
    · simp [hdirectory, hpoint, eq_comm]
    · simp [hdirectory, hpoint]

namespace Reference

variable {current current' written written' : String}

/-- The path at which a reference finds its document: its document part, read from the
directory of the document that holds it. -/
def joinedPath (current written : String) : String :=
  Point.join (Point.directory (Point.normalize current)) (splitWritten written).1

/-- How a reference with the given path inside its document leads there: as to a component if the
document is one and the path is empty. -/
def kindOf : Option Component → List String → ReferenceKind
  | some component, [] => .componentDocument component
  | _, _ => .otherDocument

/-- The document that a reference leads to, and the way in which it does. -/
def aim (reference : Reference) : String × ReferenceKind :=
  (reference.documentPoint, reference.kind)

/-- A reference to another document is told by the normal form of its path and by its
fragment. -/
theorem classify_eq (hhash : written.toList.head? ≠ some '#') (graph : Graph) (current : String) :
    classify graph current written =
      (graph.partsFromEntry (Point.normalize (joinedPath current written))).map fun parts =>
        ⟨written, Point.normalize current,
          kindOf (graph.component? parts) (Pointer.split (splitWritten written).2),
          Point.normalize (joinedPath current written),
          Pointer.split (splitWritten written).2⟩ := by
  simp only [classify, if_neg hhash, Graph.target, Point.normalize_normalize, joinedPath]
  cases graph.partsFromEntry (Point.normalize
      (Point.join (Point.directory (Point.normalize current)) (splitWritten written).1)) with
  | error failure => rfl
  | ok parts =>
    simp only [Except.map, Except.bind, Except.pure, bind, pure]
    cases graph.component? parts with
    | none => rfl
    | some component =>
      cases Pointer.split (splitWritten written).2 with
      | nil => rfl
      | cons first rest => rfl

/-- References with one fragment that find their documents at paths of one normal form lead to
one document in one way, or none of them does. -/
theorem classify_congr (graph : Graph) (hhash : written.toList.head? ≠ some '#')
    (hhash' : written'.toList.head? ≠ some '#')
    (hfragment : (splitWritten written).2 = (splitWritten written').2)
    (hpath : Point.normalize (joinedPath current written) =
      Point.normalize (joinedPath current' written')) :
    (classify graph current written).map aim = (classify graph current' written').map aim := by
  rw [classify_eq hhash, classify_eq hhash', hfragment, hpath]
  cases graph.partsFromEntry (Point.normalize (joinedPath current' written')) with
  | error failure => rfl
  | ok parts => rfl

/-- A reference to another document leads to none just if its path has the empty normal form,
while the entry document has a directory. -/
theorem classify_eq_error_iff (graph : Graph) (hhash : written.toList.head? ≠ some '#')
    {failure : Failure} : classify graph current written = .error failure ↔
      failure = .malformed .emptyPoint ∧ Point.directory graph.entryPoint ≠ "" ∧
        Point.normalize (joinedPath current written) = "" := by
  rw [classify_eq hhash, ← graph.partsFromEntry_eq_error_iff]
  cases graph.partsFromEntry (Point.normalize (joinedPath current written)) with
  | error cause => simp only [Except.map, Except.error.injEq]
  | ok parts => exact iff_of_false nofun nofun

/-- Points have one normal form, and references are read by it. The normal form of a point is
in normal form and its own. References with one fragment that find their documents at paths of
one normal form lead to one document in one way. A reference to another document leads to
none just if that normal form is empty and the entry document has a directory. -/
theorem classify_by_normal_form :
    (∀ point, Point.IsNormal (Point.normalize point) ∧
      Point.normalize (Point.normalize point) = Point.normalize point) ∧
    ∀ (graph : Graph) (current written current' written' : String),
      written.toList.head? ≠ some '#' → written'.toList.head? ≠ some '#' →
      (splitWritten written).2 = (splitWritten written').2 →
      Point.normalize (joinedPath current written) =
        Point.normalize (joinedPath current' written') →
      (classify graph current written).map aim = (classify graph current' written').map aim ∧
      ∀ failure, classify graph current written = .error failure ↔
        failure = .malformed .emptyPoint ∧ Point.directory graph.entryPoint ≠ "" ∧
          Point.normalize (joinedPath current written) = "" :=
  ⟨fun point => ⟨Point.normalize_isNormal point, Point.normalize_normalize point⟩,
    fun graph _ _ _ _ hhash hhash' hfragment hpath =>
      ⟨classify_congr graph hhash hhash' hfragment hpath,
        fun _ => classify_eq_error_iff graph hhash⟩⟩

/-- A reference to the description of a pet from the one of the interface. -/
def petByInterface : String := "components\\schemas/./Pet.json"

/-- A reference to it from the description of an owner. -/
def petByOwner : String := "../schemas/cats/..//Pet.json#"

/-- Both references lead to the component, although they are spelled differently. -/
theorem pet_classified_alike :
    petByInterface.toList.head? ≠ some '#' ∧ petByOwner.toList.head? ≠ some '#' ∧
    (splitWritten petByInterface).2 = (splitWritten petByOwner).2 ∧
    Point.normalize (joinedPath "./openapi.json" petByInterface) =
      Point.normalize (joinedPath "components/schemas/Owner.json" petByOwner) ∧
    (classify Graph.ownerGraph "./openapi.json" petByInterface).map aim =
      .ok ("components/schemas/Pet.json", .componentDocument ⟨"schemas", "Pet"⟩) ∧
    (classify Graph.ownerGraph "components/schemas/Owner.json" petByOwner).map aim =
      .ok ("components/schemas/Pet.json", .componentDocument ⟨"schemas", "Pet"⟩) ∧
    Point.IsNormal "components/schemas/Pet.json" := by
  have hhash : petByInterface.toList.head? ≠ some '#' := by decide +kernel
  have hhash' : petByOwner.toList.head? ≠ some '#' := by decide +kernel
  have hfragment : (splitWritten petByInterface).2 = (splitWritten petByOwner).2 := by
    decide +kernel
  have hpoint : Point.normalize (joinedPath "./openapi.json" petByInterface) =
      "components/schemas/Pet.json" := by decide +kernel
  have hpoint' : Point.normalize (joinedPath "components/schemas/Owner.json" petByOwner) =
      "components/schemas/Pet.json" := by decide +kernel
  have hpath := hpoint.trans hpoint'.symm
  have hsegments : Pointer.split (splitWritten petByInterface).2 = [] := by decide +kernel
  have hfound : (classify Graph.ownerGraph "./openapi.json" petByInterface).map aim =
      .ok ("components/schemas/Pet.json", .componentDocument ⟨"schemas", "Pet"⟩) := by
    rw [classify_eq hhash, hpoint, hsegments]
    rfl
  obtain ⟨hnormal, hclassify⟩ := classify_by_normal_form
  obtain ⟨hsame, _⟩ := hclassify Graph.ownerGraph _ _ _ _ hhash hhash' hfragment hpath
  exact ⟨hhash, hhash', hfragment, hpath, hfound, hsame ▸ hfound, hpoint ▸ (hnormal _).1⟩

end Reference

end ApiTypes
