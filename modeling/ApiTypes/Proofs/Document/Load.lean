import ApiTypes.Document.Load
import ApiTypes.Proofs.Reference

/-!
# Loaded documents are closed

When loading ends with documents, every document is there that a reference in one
of them leads to, under the point that the reference leads to when it is read.
Documents are loaded under normal forms of their points, so a graph of them holds
them as they are.
-/

namespace ApiTypes

open Text

namespace Members

variable {members : Members} {key : String} {value : Json}

/-- A key is there when it is one of the keys. -/
theorem has_iff : members.has key ↔ key ∈ members.map Prod.fst := by
  induction members with
  | nil => simp [has, get?]
  | cons pair rest ih =>
    obtain ⟨k, v⟩ := pair
    by_cases h : k = key
    · simp [has, get?, h]
    · simp only [has, get?, if_neg h, List.map_cons, List.mem_cons, Ne.symm h, false_or]
      exact ih

/-- A new key goes to the end. -/
theorem put_of_not_mem (h : key ∉ members.map Prod.fst) :
    put key value members = members ++ [(key, value)] := by
  induction members with
  | nil => rfl
  | cons pair rest ih =>
    obtain ⟨k, v⟩ := pair
    rw [List.map_cons, List.mem_cons, not_or] at h
    rw [put, if_neg (Ne.symm h.1), ih h.2, List.cons_append]

/-- Members without a repeated key are read as they are. -/
theorem ofPairs_of_nodup {pairs : Members} (h : (pairs.map Prod.fst).Nodup) :
    ofPairs pairs = pairs := by
  have hfold : ∀ rest before : Members, ((before ++ rest).map Prod.fst).Nodup →
      rest.foldl (fun members pair => put pair.1 pair.2 members) before = before ++ rest := by
    intro rest
    induction rest with
    | nil => exact fun before _ => (List.append_nil before).symm
    | cons pair rest ih =>
      intro before hnodup
      have hnew : pair.1 ∉ before.map Prod.fst := by
        intro hmem
        rw [List.map_append, List.map_cons] at hnodup
        exact (List.nodup_append.mp hnodup).2.2 _ hmem _ (List.mem_cons_self ..) rfl
      rw [List.foldl_cons, put_of_not_mem hnew]
      have hassoc : before ++ [(pair.1, pair.2)] ++ rest = before ++ pair :: rest := by simp
      rw [ih _ (hassoc ▸ hnodup), hassoc]
  exact hfold pairs [] h

end Members

namespace Point

/-- What follows the last slash of a text is found at its end. -/
theorem afterLastSlash_append {head last : List Char} (hlast : '/' ∉ last)
    (hhead : head = [] ∨ ∃ before, head = before ++ ['/']) :
    afterLastSlash (head ++ last) = last := by
  have hkept : ∀ c ∈ last.reverse, (c != '/') = true := by
    intro c hmem
    have hne : c ≠ '/' := fun h => hlast (h ▸ List.mem_reverse.mp hmem)
    simpa using hne
  rcases hhead with rfl | ⟨before, rfl⟩
  · rw [List.nil_append, afterLastSlash, ← List.append_nil last.reverse,
      List.takeWhile_append_of_pos hkept]
    simp
  · rw [afterLastSlash, List.reverse_append, List.takeWhile_append_of_pos hkept]
    simp

/-- The name at the end of joined names follows the last slash. -/
theorem afterLastSlash_joinWith {before : List Char} {names : List (List Char)} {last : List Char}
    (hbefore : before = [] ∨ before = ['/']) (hlast : '/' ∉ last) :
    afterLastSlash (before ++ joinWith '/' (names ++ [last])) = last := by
  by_cases hnames : names = []
  · rw [hnames]
    exact afterLastSlash_append hlast (hbefore.imp_right fun h => ⟨[], h⟩)
  · have hsplit : before ++ joinWith '/' (names ++ [last]) =
        (before ++ joinWith '/' names ++ ['/']) ++ last := by
      rw [joinWith_concat '/' hnames]
      simp
    rw [hsplit]
    exact afterLastSlash_append hlast (Or.inr ⟨_, rfl⟩)

/-- A name without slashes is in normal form. -/
theorem normalize_of_name {name : List Char} (hslash : '/' ∉ name) (hbackslash : '\\' ∉ name)
    (hdot : name ≠ ['.']) : normalize (String.ofList name) = String.ofList name := by
  have hmap : name.map (fun c => if c = '\\' then '/' else c) = name := by
    refine (List.map_congr_left fun c hmem => ?_).trans (List.map_id name)
    have hne : c ≠ '\\' := fun h => hbackslash (h ▸ hmem)
    rw [if_neg hne, id]
  have hroot : rootSlashes name = 0 := by
    unfold rootSlashes
    split
    all_goals first | rfl | simp at hslash
  have hsplit : splitAt '/' (joinWith '/' [name]) = [name] :=
    splitAt_joinWith (by simp) (by simpa using hslash)
  rw [joinWith] at hsplit
  have hparts : joinWith '/' (normalParts name) = name := by
    rw [normalParts, hsplit, hroot]
    by_cases hempty : name = []
    · subst hempty
      rfl
    · by_cases hup : name = up
      · subst hup
        rfl
      · simp [push, hempty, hdot, hup, joinWith]
  rw [normalize, String.toList_ofList, hmap, normalChars, hroot, hparts]
  rfl

end Point

namespace Graph

variable {documents : Members} {entryPoint : String} {root directories : Json} {graph : Graph}

/-- The document at a point is kept under the normal form of the point. -/
theorem document_eq_ok_iff {point : String} {value : Json} :
    graph.document point = .ok value ↔
      graph.documents.get? (Point.normalize point) = some value := by
  simp only [document]
  cases graph.documents.get? (Point.normalize point) <;> simp

/-- A document is found at the normal form of its point. -/
theorem document_normalize (graph : Graph) (point : String) :
    graph.document (Point.normalize point) = graph.document point := by
  simp only [document, Point.normalize_normalize]

/-- Documents make a graph when the directories are listed and the entry document is one of
them. They are kept under the normal forms of their points. -/
theorem ofDocuments_eq_ok_iff :
    ofDocuments documents entryPoint root directories = .ok graph ↔
      (normalDocuments documents).has (Point.normalize entryPoint) ∧
        ∃ listed, directories.elements = .ok listed ∧
          graph =
            { documents := normalDocuments documents
              entryPoint := Point.normalize entryPoint
              componentRoot := root
              componentDirectories := listed } := by
  unfold ofDocuments
  cases directories.elements with
  | error failure => simp [Bind.bind, Except.bind]
  | ok listed =>
    by_cases hhas : (normalDocuments documents).has (Point.normalize entryPoint)
    · simp [Bind.bind, Except.bind, Pure.pure, Except.pure, hhas, eq_comm]
    · simp [Bind.bind, Except.bind, hhas, throw, throwThe, MonadExceptOf.throw]

/-- A graph of documents holds them under normal forms of their points, and the
entry document among them. -/
theorem of_ofDocuments (h : ofDocuments documents entryPoint root directories = .ok graph) :
    graph.documents = normalDocuments documents ∧ graph.entryPoint = Point.normalize entryPoint ∧
      graph.documents.has graph.entryPoint := by
  obtain ⟨hhas, _, _, rfl⟩ := ofDocuments_eq_ok_iff.mp h
  exact ⟨rfl, rfl, hhas⟩

/-- The entry document of a graph is the document at its point. -/
theorem document_entryPoint (h : ofDocuments documents entryPoint root directories = .ok graph) :
    graph.document graph.entryPoint = .ok graph.rootDocument := by
  obtain ⟨_, hentryPoint, hhas⟩ := of_ofDocuments h
  obtain ⟨document, hdocument⟩ := Option.isSome_iff_exists.mp hhas
  have hnormal : Point.normalize graph.entryPoint = graph.entryPoint := by
    rw [hentryPoint, Point.normalize_normalize]
  rw [document_eq_ok_iff, hnormal, rootDocument, Members.get, hdocument]
  rfl

end Graph

/-- The name of an entry file is a single name, or empty if the path has none. -/
theorem exists_name_splitFile (path : String) :
    ∃ name, (splitFile path).2 = String.ofList name ∧ '/' ∉ name ∧ name ≠ ['.'] := by
  have hnames : ∀ name ∈ FileTree.names path, '/' ∉ name ∧ name ≠ ['.'] := by
    intro name hmem
    obtain ⟨hsplit, hkept⟩ := List.mem_filter.mp hmem
    exact ⟨not_mem_of_mem_splitAt hsplit, by simpa using (Bool.and_eq_true_iff.mp hkept).2⟩
  rcases List.eq_nil_or_concat (FileTree.names path) with hnil | ⟨before, last, hconcat⟩
  · refine ⟨[], ?_, by simp, by simp⟩
    simp only [splitFile, FileTree.pathTo, hnil]
    split <;> rfl
  · rw [List.concat_eq_append] at hconcat
    obtain ⟨hslash, hdot⟩ := hnames last (by rw [hconcat]; simp)
    refine ⟨last, ?_, hslash, hdot⟩
    simp only [splitFile, FileTree.pathTo, List.reverse_reverse, hconcat, Point.fileName,
      String.toList_ofList]
    rw [Point.afterLastSlash_joinWith _ hslash]
    split
    · exact Or.inr rfl
    · exact Or.inl rfl

/-- The name of an entry file without backslashes is a point in normal form. -/
theorem normalize_splitFile {path : String} (h : '\\' ∉ (splitFile path).2.toList) :
    Point.normalize (splitFile path).2 = (splitFile path).2 := by
  obtain ⟨name, heq, hslash, hdot⟩ := exists_name_splitFile path
  rw [heq, String.toList_ofList] at h
  rw [heq]
  exact Point.normalize_of_name hslash h hdot

namespace Loading

/-- Documents with points that wait to be loaded: no document is there twice, and what a
reference in a document leads to is there or waits. -/
structure Complete (loaded : Members) (pending : List String) : Prop where
  /-- No document is there twice. -/
  nodup : (loaded.map Prod.fst).Nodup
  /-- What references lead to is there or waits. -/
  targets : ∀ pair ∈ loaded, ∀ target ∈ remoteTargets pair.1 pair.2,
    loaded.has target ∨ target ∈ pending

section

variable {loaded : Members} {pending rest : List String} {point : String}

/-- Points of documents that are there need not wait. -/
theorem mem_dropWhile {target : String} (h : target ∈ pending) :
    loaded.has target ∨ target ∈ pending.dropWhile loaded.has := by
  rw [← List.takeWhile_append_dropWhile (p := loaded.has) (l := pending), List.mem_append] at h
  exact h.imp (fun hmem => List.all_eq_true.mp List.all_takeWhile target hmem) id

/-- The point that is loaded next and those after it waited. -/
theorem mem_pending (hnext : pending.dropWhile loaded.has = point :: rest) {other : String}
    (h : other ∈ point :: rest) : other ∈ pending :=
  (List.dropWhile_sublist loaded.has).subset (hnext ▸ h)

/-- The point that is loaded next is new. -/
theorem not_has_next (hnext : pending.dropWhile loaded.has = point :: rest) :
    ¬ loaded.has point := by
  have hhead := List.head?_dropWhile_not loaded.has pending
  rw [hnext] at hhead
  simpa using hhead

/-- A document that is loaded adds its point. -/
theorem map_fst_append (loaded : Members) (point : String) (document : Json) :
    (loaded ++ [(point, document)]).map Prod.fst = loaded.map Prod.fst ++ [point] := by
  simp

namespace Complete

/-- Nothing is loaded twice in the beginning. -/
theorem initial (name : String) : Complete [] [name] := ⟨List.nodup_nil, nofun⟩

/-- Nothing is missing once all points that wait are there. -/
theorem done (h : Complete loaded pending) (hdone : pending.dropWhile loaded.has = []) :
    Complete loaded [] where
  nodup := h.nodup
  targets pair hpair target htarget := by
    rcases h.targets pair hpair target htarget with hhas | hmem
    · exact Or.inl hhas
    · refine (mem_dropWhile hmem).imp id fun hdrop => ?_
      rw [hdone] at hdrop
      exact hdrop

/-- The next document is loaded, and what its references lead to waits. -/
theorem load (h : Complete loaded pending) (hnext : pending.dropWhile loaded.has = point :: rest)
    (document : Json) :
    Complete (loaded ++ [(point, document)])
      ((remoteTargets point document).reverse ++ rest) := by
  constructor
  · rw [map_fst_append]
    refine List.nodup_append.mpr ⟨h.nodup, by simp, fun other hother last hlast heq => ?_⟩
    rw [List.mem_singleton.mp hlast] at heq
    exact not_has_next hnext (Members.has_iff.mpr (heq ▸ hother))
  · intro pair hpair target htarget
    rw [Members.has_iff, map_fst_append, List.mem_append, List.mem_singleton]
    rcases List.mem_append.mp hpair with hpair | hpair
    · have hthere : loaded.has target ∨ target ∈ pending.dropWhile loaded.has :=
        (h.targets pair hpair target htarget).elim Or.inl mem_dropWhile
      rw [hnext, Members.has_iff, List.mem_cons] at hthere
      rcases hthere with hmem | rfl | hmem
      · exact Or.inl (Or.inl hmem)
      · exact Or.inl (Or.inr rfl)
      · exact Or.inr (List.mem_append_right _ hmem)
    · rw [List.mem_singleton.mp hpair] at htarget
      exact Or.inr (List.mem_append_left _ (List.mem_reverse.mpr htarget))

end Complete

/-- Documents with points that wait to be loaded, all of which are in normal form. -/
structure Closed (loaded : Members) (pending : List String) : Prop
    extends Complete loaded pending where
  /-- The points of the documents are in normal form. -/
  loaded_normal : ∀ pair ∈ loaded, Point.normalize pair.1 = pair.1
  /-- The points that wait are in normal form. -/
  pending_normal : ∀ point ∈ pending, Point.normalize point = point

namespace Closed

/-- Nothing but the entry file is pending in the beginning. -/
theorem initial {name : String} (h : Point.normalize name = name) : Closed [] [name] where
  toComplete := .initial name
  loaded_normal := nofun
  pending_normal _ hmem := List.mem_singleton.mp hmem ▸ h

/-- Once nothing is left to load, nothing is pending. -/
theorem done (h : Closed loaded pending) (hdone : pending.dropWhile loaded.has = []) :
    Closed loaded [] where
  toComplete := h.toComplete.done hdone
  loaded_normal := h.loaded_normal
  pending_normal := nofun

/-- References lead to points in normal form. -/
theorem load (h : Closed loaded pending) (hnext : pending.dropWhile loaded.has = point :: rest)
    (document : Json) :
    Closed (loaded ++ [(point, document)]) ((remoteTargets point document).reverse ++ rest) := by
  refine ⟨h.toComplete.load hnext document, fun pair hmem => ?_, fun other hmem => ?_⟩
  · rcases List.mem_append.mp hmem with hmem | hmem
    · exact h.loaded_normal pair hmem
    · rw [List.mem_singleton.mp hmem]
      exact h.pending_normal point (mem_pending hnext (List.mem_cons_self ..))
  · rcases List.mem_append.mp hmem with hmem | hmem
    · obtain ⟨ref, _, rfl⟩ := List.mem_map.mp (List.mem_reverse.mp hmem)
      exact Point.normalize_normalize _
    · exact h.pending_normal other (mem_pending hnext (List.mem_cons_of_mem _ hmem))

end Closed

end

/-- Loading that ends with documents leaves nothing missing. -/
theorem loadFrom_closed {yaml : YamlReader} {tree : FileTree} {base : String} {allowance : Nat}
    {loaded documents : Members} {pending : List String} (hclosed : Closed loaded pending)
    (h : (loadFrom yaml tree base allowance loaded pending).result = .ok documents) :
    Closed documents [] := by
  induction allowance generalizing loaded pending with
  | zero =>
    rw [loadFrom] at h
    split at h
    · rename_i hdone
      cases h
      exact hclosed.done hdone
    · cases h
  | succ allowance ih =>
    rw [loadFrom] at h
    split at h
    · rename_i hdone
      cases h
      exact hclosed.done hdone
    · rename_i point rest hnext
      split at h
      · cases h
      · cases h
      · cases h
      · split at h
        · cases h
        · rename_i document _
          exact ih (hclosed.load hnext document) h

end Loading

section

variable {yaml : YamlReader} {tree : FileTree} {entryPath : String} {settings : Settings}
  {graph : Graph}

/-- A loaded graph is that of the documents that were loaded. -/
theorem exists_of_loadGraph_ok (h : yaml.loadGraph tree entryPath settings = .ok graph) :
    ∃ documents directories, (yaml.load tree entryPath).result = .ok documents ∧
      Graph.ofDocuments documents (splitFile entryPath).2 settings.componentRoot directories =
        .ok graph := by
  unfold YamlReader.loadGraph at h
  cases hload : (yaml.load tree entryPath).result with
  | error failure =>
    rw [hload] at h
    cases h
  | ok documents =>
    cases hdirectories : settings.componentDirectories with
    | error failure =>
      rw [hload, hdirectories] at h
      cases h
    | ok directories =>
      rw [hload, hdirectories] at h
      exact ⟨documents, directories, rfl, h⟩

/-- The entry document of a loaded graph is there. -/
theorem loadGraph_document_entryPoint
    (h : yaml.loadGraph tree entryPath settings = .ok graph) :
    graph.document graph.entryPoint = .ok graph.rootDocument := by
  obtain ⟨_, _, _, hgraph⟩ := exists_of_loadGraph_ok h
  exact Graph.document_entryPoint hgraph

/-- Loaded documents are closed if the name of the entry file has no backslash. -/
theorem load_closed {documents : Members} (hname : '\\' ∉ (splitFile entryPath).2.toList)
    (h : (yaml.load tree entryPath).result = .ok documents) : Loading.Closed documents [] :=
  Loading.loadFrom_closed (.initial (normalize_splitFile hname)) h

/-- A loaded graph holds the documents as they were loaded. -/
theorem loadGraph_documents (hname : '\\' ∉ (splitFile entryPath).2.toList)
    (h : yaml.loadGraph tree entryPath settings = .ok graph) :
    (yaml.load tree entryPath).result = .ok graph.documents := by
  obtain ⟨documents, directories, hload, hgraph⟩ := exists_of_loadGraph_ok h
  have hclosed := load_closed hname hload
  have hkeys : documents.map (fun pair => (Point.normalize pair.1, pair.2)) = documents :=
    (List.map_congr_left fun pair hmem => by rw [hclosed.loaded_normal pair hmem]; rfl).trans
      (List.map_id documents)
  obtain ⟨hdocuments, _⟩ := Graph.of_ofDocuments hgraph
  rw [hdocuments, Graph.normalDocuments, hkeys, Members.ofPairs_of_nodup hclosed.nodup]
  exact hload

/-- Nothing is missing in a loaded graph. -/
theorem loadGraph_closed (hname : '\\' ∉ (splitFile entryPath).2.toList)
    (h : yaml.loadGraph tree entryPath settings = .ok graph) :
    Loading.Closed graph.documents [] :=
  load_closed hname (loadGraph_documents hname h)

/-- A reference to another document leads to one of its targets. -/
theorem mem_remoteTargets (point : String) {document : Json} {written : String}
    (href : written ∈ document.refs) (hremote : ¬ written.toList.head? = some '#') :
    Point.normalize (Point.join (Point.directory point) (Reference.splitWritten written).1) ∈
      remoteTargets point document :=
  List.mem_map.mpr ⟨written, List.mem_filter.mpr ⟨href, by simpa using hremote⟩, rfl⟩

/-- What a reference in a document of a loaded graph leads to is in the graph. -/
theorem loadGraph_targets (hname : '\\' ∉ (splitFile entryPath).2.toList)
    (h : yaml.loadGraph tree entryPath settings = .ok graph) {point written : String}
    {document : Json} (hdocument : graph.document point = .ok document)
    (href : written ∈ document.refs) :
    ∃ target, graph.document (Reference.documentOf point written) = .ok target := by
  have hclosed := loadGraph_closed hname h
  unfold Reference.documentOf
  dsimp only
  split
  · exact ⟨document, (graph.document_normalize point).trans hdocument⟩
  · rename_i hremote
    have hmem := Members.mem_of_get? (Graph.document_eq_ok_iff.mp hdocument)
    have htarget := hclosed.targets _ hmem _ (mem_remoteTargets _ href hremote)
    obtain ⟨target, hfound⟩ := Option.isSome_iff_exists.mp (htarget.resolve_right nofun)
    refine ⟨target, ?_⟩
    rw [Graph.document_normalize]
    exact Graph.document_eq_ok_iff.mpr hfound

end

/-- A way to read YAML that knows some texts and what they write. -/
def YamlReader.knowing (known : List (String × Json)) : YamlReader := fun text =>
  match known.lookup text with
  | some document => .ok document
  | none => .error .notJson

end ApiTypes
