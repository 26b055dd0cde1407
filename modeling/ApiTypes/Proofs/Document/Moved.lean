import ApiTypes.Proofs.Document.Names

/-!
# Graphs in another directory

All points of a graph, that of the entry document too, can be moved into a directory. When they
stay inside the directory that they are read from, references lead from the moved documents to
the moved targets, and these are the components that they were. The empty point is an exception:
it has no name that could be moved, so that it becomes the directory itself, and what is read
from there is read from the directory above.
-/

namespace ApiTypes

namespace Members

/-- Members under new keys. -/
def rekey (f : String → String) (members : Members) : Members :=
  members.map fun pair => (f pair.1, pair.2)

theorem keys_rekey (f : String → String) (members : Members) :
    (members.rekey f).map Prod.fst = (members.map Prod.fst).map f := by
  rw [rekey, List.map_map, List.map_map]
  rfl

theorem rekey_rekey (f g : String → String) (members : Members) :
    (members.rekey f).rekey g = members.rekey (g ∘ f) := List.map_map ..

theorem rekey_congr {f g : String → String} {members : Members}
    (h : ∀ key ∈ members.map Prod.fst, f key = g key) : members.rekey f = members.rekey g :=
  List.map_congr_left fun pair hmem => congrArg (·, pair.2) (h _ (List.mem_map_of_mem hmem))

theorem rekey_id {f : String → String} {members : Members}
    (h : ∀ key ∈ members.map Prod.fst, f key = key) : members.rekey f = members :=
  (rekey_congr (g := id) h).trans (List.map_id _)

section

variable {f : String → String} {keys : Set String} (hf : Set.InjOn f keys)

include hf

/-- A key that is set is set under its new key too, when no two keys become the same. -/
theorem rekey_put {members : Members} {key : String}
    (hmembers : ∀ k ∈ members.map Prod.fst, k ∈ keys) (hkey : key ∈ keys) (value : Json) :
    (put key value members).rekey f = put (f key) value (members.rekey f) := by
  induction members with
  | nil => rfl
  | cons pair rest ih =>
    obtain ⟨k, v⟩ := pair
    obtain ⟨hk, hrest⟩ := List.forall_mem_cons.mp hmembers
    by_cases heq : k = key
    · simp [put, rekey, heq]
    · have hne : f k ≠ f key := fun h => heq (hf hk hkey h)
      rw [put, if_neg heq, rekey, List.map_cons, rekey, List.map_cons, put, if_neg hne]
      exact congrArg _ (ih hrest)

/-- Pairs under new keys are read as the members that they make, under new keys. -/
theorem ofPairs_rekey {pairs : Members} (hpairs : ∀ k ∈ pairs.map Prod.fst, k ∈ keys) :
    ofPairs (pairs.rekey f) = (ofPairs pairs).rekey f := by
  suffices hfold : ∀ members : Members, (∀ k ∈ members.map Prod.fst, k ∈ keys) →
      (pairs.rekey f).foldl (fun members pair => put pair.1 pair.2 members) (members.rekey f) =
        (pairs.foldl (fun members pair => put pair.1 pair.2 members) members).rekey f from
    hfold [] (by simp)
  induction pairs with
  | nil => exact fun _ _ => rfl
  | cons pair rest ih =>
    intro members hmembers
    obtain ⟨hpair, hrest⟩ := List.forall_mem_cons.mp hpairs
    have hput : ∀ k ∈ (put pair.1 pair.2 members).map Prod.fst, k ∈ keys := by
      intro k hk
      rw [keys_put] at hk
      split at hk
      · exact hmembers k hk
      · rcases List.mem_append.mp hk with hk | hk
        · exact hmembers k hk
        · exact List.mem_singleton.mp hk ▸ hpair
    rw [List.foldl_cons, ← ih hrest _ hput, rekey_put hf hmembers hpair]
    rfl

end

end Members

namespace Point

/-- A point moved into a directory. -/
def into (directory point : String) : String := normalize (join directory point)

/-- The point that a path in the document at a point leads to. -/
def resolve (current path : String) : String :=
  normalize (join (directory (normalize current)) path)

theorem normalize_into (directory point : String) :
    normalize (into directory point) = into directory point := normalize_normalize _

theorem normalize_resolve (current path : String) :
    normalize (resolve current path) = resolve current path := normalize_normalize _

/-- The names of a directory come before those of a point that is moved into it. -/
theorem into_ofNames {above names : List (List Char)} (habove : AreNames above)
    (hnames : AreNames names) {point : String} (h : normalize point = ofNames names) :
    into (ofNames above) point = ofNames (above ++ names) := by
  have hjoin : normalize (join (ofNames []) point) = ofNames names := by
    rw [← h]
    exact congrArg normalize (join_empty point)
  have hnil : AreNames [] := fun _ hmem => absurd hmem List.not_mem_nil
  have hmoved := normalize_join_append habove hnil hnames hjoin
  rwa [List.append_nil] at hmoved

/-- A point is moved as its normal form is. -/
theorem into_normalize {above point : String} (hnormal : normalize above = above)
    (habove : StaysInside above) (hpoint : StaysInside (normalize point)) :
    into above (normalize point) = into above point := by
  obtain ⟨directories, hdirectories, rfl⟩ := exists_names hnormal habove
  obtain ⟨names, hnames, heq⟩ := exists_names (normalize_normalize point) hpoint
  rw [into_ofNames hdirectories hnames heq,
    into_ofNames hdirectories hnames ((normalize_normalize point).trans heq)]

/-- Different points stay different when they are moved. -/
theorem into_injOn (directory : String) :
    Set.InjOn (into directory) {point | normalize point = point ∧ StaysInside point} := by
  rintro point ⟨hpoint, hinside⟩ other ⟨hother, hinside'⟩ heq
  exact hinside.eq hinside' hpoint hother heq

/-- Moving points into no directory leaves them where they are. -/
theorem into_empty {point : String} (h : normalize point = point) : into "" point = point := by
  rw [into, join_empty, h]

/-- What a path leads to moves with the document that the path is in. -/
theorem resolve_into {above current path : String} (hnormal : normalize above = above)
    (habove : StaysInside above) (hcurrent : normalize current = current)
    (hinside : StaysInside current) (hne : current ≠ "")
    (hreached : StaysInside (resolve current path)) :
    resolve (into above current) path = into above (resolve current path) := by
  obtain ⟨directories, hdirectories, rfl⟩ := exists_names hnormal habove
  obtain ⟨names, hnames, rfl⟩ := exists_names hcurrent hinside
  obtain ⟨reached, hnames', hresolve⟩ := exists_names (normalize_resolve ..) hreached
  rcases List.eq_nil_or_concat' names with rfl | ⟨init, last, rfl⟩
  · exact absurd rfl hne
  · have hinit := hnames.of_append_left
    have hboth : AreNames (directories ++ init ++ [last]) :=
      List.append_assoc .. ▸ hdirectories.append hnames
    have hjoin : normalize (join (ofNames init) path) = ofNames reached := by
      rw [← hresolve, resolve, hcurrent, directory_ofNames hnames]
    calc resolve (into (ofNames directories) (ofNames (init ++ [last]))) path
        = normalize (join (ofNames (directories ++ init)) path) := by
          rw [resolve, normalize_into, into_ofNames hdirectories hnames hcurrent,
            ← List.append_assoc, directory_ofNames hboth]
      _ = ofNames (directories ++ reached) :=
          normalize_join_append hdirectories hinit hnames' hjoin
      _ = into (ofNames directories) (resolve (ofNames (init ++ [last])) path) :=
          (into_ofNames hdirectories hnames' ((normalize_resolve ..).trans hresolve)).symm

end Point

namespace Graph

variable {documents : Members} {entryPoint : String} {root directories : Json} {g : Graph}

/-- A graph with all its points in a directory. -/
def movedInto (g : Graph) (directory : String) : Graph :=
  { g with
    documents := g.documents.rekey (Point.into directory)
    entryPoint := Point.into directory g.entryPoint }

/-- A path leads to a point, and the component there is told by the parts of the point. -/
theorem target_eq_ok {current path : String} {parts : List (Option String)}
    (h : g.partsFromEntry (Point.resolve current path) = .ok parts) :
    g.target current path = .ok ⟨Point.resolve current path, g.component? parts⟩ := by
  simp only [Point.resolve] at h
  simp only [target, h, Point.resolve]
  rfl

/-- The parts of every point but the empty one are found. -/
theorem exists_partsFromEntry (g : Graph) {point : String} (h : point ≠ "") :
    ∃ parts, g.partsFromEntry point = .ok parts := by
  unfold partsFromEntry
  dsimp only
  split
  · exact ⟨_, rfl⟩
  · rw [if_neg (mt String.isEmpty_iff.mp h)]
    exact ⟨_, rfl⟩

/-- The parts of a point are those on the way to it from the directory of the entry document. -/
theorem partsFromEntry_ofNames {above names : List (List Char)} {last : List Char}
    (hentry : Point.AreNames (above ++ [last])) (hnames : Point.AreNames names) (hne : names ≠ [])
    (h : g.entryPoint = Point.ofNames (above ++ [last])) :
    g.partsFromEntry (Point.ofNames names) = .ok (Point.partsBetween above names) := by
  have habove := hentry.of_append_left
  have hpoint : Point.ofNames names ≠ "" := mt (Point.ofNames_eq_empty_iff hnames).mp hne
  rw [partsFromEntry, h, Point.directory_ofNames hentry]
  by_cases hnil : above = []
  · subst hnil
    rw [Point.parts_ofNames hnames hne, Point.partsBetween_nil, List.map_map]
    rfl
  · have hdirectory : Point.ofNames above ≠ "" := mt (Point.ofNames_eq_empty_iff habove).mp hnil
    simp only [String.isEmpty_iff, hdirectory, hpoint, if_false,
      Point.partsFrom_ofNames habove hnames]

/-- Points have the same parts when they and the entry document are moved. -/
theorem partsFromEntry_movedInto {directory point : String}
    (hnormal : Point.normalize directory = directory) (hdirectory : Point.StaysInside directory)
    (hentry : Point.normalize g.entryPoint = g.entryPoint)
    (hinside : Point.StaysInside g.entryPoint) (hne : g.entryPoint ≠ "")
    (hpoint : Point.normalize point = point) (hinside' : Point.StaysInside point)
    (hne' : point ≠ "") :
    (g.movedInto directory).partsFromEntry (Point.into directory point) =
      g.partsFromEntry point := by
  obtain ⟨above, habove, rfl⟩ := Point.exists_names hnormal hdirectory
  obtain ⟨entry, hentryNames, heq⟩ := Point.exists_names hentry hinside
  obtain ⟨names, hnames, rfl⟩ := Point.exists_names hpoint hinside'
  rcases List.eq_nil_or_concat' entry with rfl | ⟨init, last, rfl⟩
  · exact absurd heq hne
  · have hnil : names ≠ [] := mt (Point.ofNames_eq_empty_iff hnames).mpr hne'
    have hboth : Point.AreNames (above ++ init ++ [last]) :=
      List.append_assoc .. ▸ habove.append hentryNames
    have hmoved : (g.movedInto (Point.ofNames above)).entryPoint =
        Point.ofNames (above ++ init ++ [last]) := by
      rw [List.append_assoc]
      exact Point.into_ofNames habove hentryNames (hentry.trans heq)
    rw [Point.into_ofNames habove hnames hpoint,
      partsFromEntry_ofNames hboth (habove.append hnames) (by simp [hnil]) hmoved,
      partsFromEntry_ofNames hentryNames hnames hnil heq, Point.partsBetween_append]

/-- The documents of a graph, given under moved points, make the moved graph. -/
theorem ofDocuments_rekey_into
    (h : ofDocuments documents entryPoint root directories = .ok g)
    (hpoints : ∀ point ∈ g.points, Point.StaysInside point) {directory : String}
    (hnormal : Point.normalize directory = directory) (hdirectory : Point.StaysInside directory) :
    ofDocuments (documents.rekey (Point.into directory)) (Point.into directory entryPoint) root
      directories = .ok (g.movedInto directory) := by
  obtain ⟨hhas, listed, hlisted, rfl⟩ := ofDocuments_eq_ok_iff.mp h
  have hinside : ∀ key ∈ documents.map Prod.fst, Point.StaysInside (Point.normalize key) :=
    fun key hmem => hpoints _ ((mem_points_iff h).mpr ⟨key, hmem, rfl⟩)
  have hentry := hpoints _ (Members.has_iff.mp hhas)
  -- Each document is kept under a moved point in normal form, and none of them become one.
  have hdocuments : normalDocuments (documents.rekey (Point.into directory)) =
      (normalDocuments documents).rekey (Point.into directory) := by
    have hkeys : ∀ key ∈ (documents.rekey Point.normalize).map Prod.fst,
        key ∈ {point | Point.normalize point = point ∧ Point.StaysInside point} := by
      intro key hmem
      rw [Members.keys_rekey] at hmem
      obtain ⟨written, hwritten, rfl⟩ := List.mem_map.mp hmem
      exact ⟨Point.normalize_normalize _, hinside written hwritten⟩
    calc Members.ofPairs ((documents.rekey (Point.into directory)).rekey Point.normalize)
        = Members.ofPairs ((documents.rekey Point.normalize).rekey (Point.into directory)) := by
          rw [Members.rekey_rekey, Members.rekey_rekey]
          refine congrArg _ (Members.rekey_congr fun key hmem => ?_)
          exact (Point.normalize_into ..).trans
            (Point.into_normalize hnormal hdirectory (hinside key hmem)).symm
      _ = (normalDocuments documents).rekey (Point.into directory) :=
          Members.ofPairs_rekey (Point.into_injOn directory) hkeys
  have hmoved : Point.normalize (Point.into directory entryPoint) =
      Point.into directory (Point.normalize entryPoint) :=
    (Point.normalize_into ..).trans (Point.into_normalize hnormal hdirectory hentry).symm
  refine ofDocuments_eq_ok_iff.mpr ⟨?_, listed, hlisted, ?_⟩
  · rw [hdocuments, hmoved, Members.has_iff, Members.keys_rekey]
    exact List.mem_map_of_mem (Members.has_iff.mp hhas)
  · rw [hdocuments, hmoved]
    rfl

/-- A graph is the same when its points are moved into no directory. -/
theorem movedInto_empty (hnormal : ∀ point ∈ g.points, Point.normalize point = point)
    (hentry : Point.normalize g.entryPoint = g.entryPoint) : g.movedInto "" = g := by
  have hdocuments := Members.rekey_id fun point hmem => Point.into_empty (hnormal point hmem)
  rw [movedInto, hdocuments, Point.into_empty hentry]

/-- Where the documents are does not matter to what references lead to. When the points of a
graph stay inside their directory, the same documents under moved points make the moved graph.
A path leads from a moved document to the moved point, which is the same component, if the path
stays inside that directory and does not lead to the empty point. Neither the entry document nor
the one that the path is read from may be at the empty point, unless the graph is not moved. -/
theorem target_movedInto (h : ofDocuments documents entryPoint root directories = .ok g)
    (hpoints : ∀ point ∈ g.points, Point.StaysInside point) {directory current path : String}
    (hnormal : Point.normalize directory = directory) (hdirectory : Point.StaysInside directory)
    (hcurrent : current ∈ g.points) (hinside : Point.StaysInside (Point.resolve current path))
    (hne : Point.resolve current path ≠ "")
    (hnamed : directory ≠ "" → g.entryPoint ≠ "" ∧ current ≠ "") :
    ofDocuments (documents.rekey (Point.into directory)) (Point.into directory entryPoint) root
        directories = .ok (g.movedInto directory) ∧
      ∃ component?,
        g.target current path = .ok ⟨Point.resolve current path, component?⟩ ∧
        (g.movedInto directory).target (Point.into directory current) path =
          .ok ⟨Point.into directory (Point.resolve current path), component?⟩ := by
  have hnormals : ∀ point ∈ g.points, Point.normalize point = point :=
    fun _ => normalize_of_mem_points h
  have hentry : g.entryPoint ∈ g.points := Members.has_iff.mp (of_ofDocuments h).2.2
  obtain ⟨parts, hparts⟩ := g.exists_partsFromEntry hne
  refine ⟨ofDocuments_rekey_into h hpoints hnormal hdirectory, g.component? parts,
    target_eq_ok hparts, ?_⟩
  by_cases hempty : directory = ""
  · subst hempty
    rw [movedInto_empty hnormals (hnormals _ hentry), Point.into_empty (hnormals _ hcurrent),
      Point.into_empty (Point.normalize_resolve ..)]
    exact target_eq_ok hparts
  · obtain ⟨hentryNe, hcurrentNe⟩ := hnamed hempty
    have hresolve : Point.resolve (Point.into directory current) path = _ :=
      Point.resolve_into hnormal hdirectory (hnormals _ hcurrent) (hpoints _ hcurrent) hcurrentNe
        hinside
    have hmoved : (g.movedInto directory).partsFromEntry
        (Point.resolve (Point.into directory current) path) = .ok parts := by
      rw [hresolve, ← hparts]
      exact partsFromEntry_movedInto hnormal hdirectory (hnormals _ hentry) (hpoints _ hentry)
        hentryNe (Point.normalize_resolve ..) hinside hne
    rw [← hresolve]
    exact target_eq_ok hmoved

/-- The documents of a small interface: its description and that of an owner of pets. -/
def ownerDocuments : Members :=
  [("openapi.json", .obj []), ("components/schemas/Owner.json", .obj [("type", .str "object")])]

/-- The graph of these documents. -/
def ownerGraph : Graph where
  documents := ownerDocuments
  entryPoint := "openapi.json"
  componentRoot := .str "components"
  componentDirectories := [.str "schemas"]

/-- From the description of an owner a path leads to that of a pet, also in another directory. -/
theorem ownerGraph_movedInto :
    ofDocuments [("api/v1/openapi.json", .obj []),
        ("api/v1/components/schemas/Owner.json", .obj [("type", .str "object")])]
      "api/v1/openapi.json" (.str "components") (.arr [.str "schemas"]) =
        .ok (ownerGraph.movedInto "api/v1") ∧
      ownerGraph.target "components/schemas/Owner.json" "cats/../Pet.json" =
        .ok ⟨"components/schemas/Pet.json", some ⟨"schemas", "Pet"⟩⟩ ∧
      (ownerGraph.movedInto "api/v1").target "api/v1/components/schemas/Owner.json"
          "cats/../Pet.json" =
        .ok ⟨"api/v1/components/schemas/Pet.json", some ⟨"schemas", "Pet"⟩⟩ := by
  have hgraph : ofDocuments ownerDocuments "openapi.json" (.str "components")
      (.arr [.str "schemas"]) = .ok ownerGraph := rfl
  have htarget : ownerGraph.target "components/schemas/Owner.json" "cats/../Pet.json" =
      .ok ⟨"components/schemas/Pet.json", some ⟨"schemas", "Pet"⟩⟩ := rfl
  have hinside : Point.StaysInside
      (Point.resolve "components/schemas/Owner.json" "cats/../Pet.json") := by decide +kernel
  have hdirectory : Point.normalize "api/v1" = "api/v1" := by decide +kernel
  obtain ⟨hmoved, component?, hfound, hfound'⟩ := target_movedInto hgraph (by decide +kernel)
    hdirectory (by decide +kernel) (by decide +kernel) hinside (by decide +kernel)
    fun _ => ⟨by decide, by decide⟩
  rw [htarget] at hfound
  cases hfound
  exact ⟨hmoved, htarget, hfound'⟩

/-- It is not so that moving a graph moves what every path in it leads to: a document at the
empty point becomes one beside the directory that the others are moved into, and a path from it
leads to a document that is beside that directory too. When it is the entry document, components
are no longer seen in the directory, also by paths from other documents. -/
theorem emptyPoint_not_movedInto :
    (¬ ∀ (documents : Members) (entryPoint : String) (root directories : Json) (g : Graph),
      ofDocuments documents entryPoint root directories = .ok g →
      (∀ point ∈ g.points, Point.StaysInside point) →
      ∀ directory, Point.normalize directory = directory → Point.StaysInside directory →
      ∀ current ∈ g.points, ∀ path, Point.StaysInside (Point.resolve current path) →
        Point.resolve current path ≠ "" →
        (g.movedInto directory).target (Point.into directory current) path =
          (g.target current path).map fun target =>
            ⟨Point.into directory target.point, target.component?⟩) ∧
    ∃ g, ofDocuments [("", .obj []), ("shop.json", .obj [])] "" (.str "components")
        (.arr [.str "schemas"]) = .ok g ∧
      g.target "shop.json" "components/schemas/Pet.json" =
        .ok ⟨"components/schemas/Pet.json", some ⟨"schemas", "Pet"⟩⟩ ∧
      (g.movedInto "api").target "api/shop.json" "components/schemas/Pet.json" =
        .ok ⟨"api/components/schemas/Pet.json", none⟩ := by
  refine ⟨fun hmoves => ?_, _, rfl, rfl, rfl⟩
  have htarget := hmoves [("", .obj [])] "" (.str "components") (.arr [.str "schemas"]) _ rfl
    (by decide +kernel) "api" (by decide +kernel) (by decide +kernel) "" (by decide +kernel)
    "pet.json" (by decide +kernel) (by decide +kernel)
  have hpoint := congrArg (fun found => found.toOption.map Target.point) htarget
  exact absurd hpoint (by decide +kernel)

end Graph

end ApiTypes
