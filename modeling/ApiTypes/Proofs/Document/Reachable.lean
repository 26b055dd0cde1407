import ApiTypes.Proofs.Document.FileTree
import ApiTypes.Proofs.Document.Inside
import ApiTypes.Proofs.Document.Load

/-!
# The loader computes what is reachable

A point is reachable if it is that of the entry document, or if a reference in the
document at a reachable point leads to it. Loading ends for every file tree, it gives
documents exactly if one can be read at every reachable point, and these are then the
documents that it gives, each once and the entry document first.
-/

namespace ApiTypes

/-- A document can be read at a point, from the directory of the entry document. -/
def FileTree.Reads (tree : FileTree) (yaml : YamlReader) (base point : String)
    (document : Json) : Prop :=
  ∃ text, tree.entry (Point.join base point) = .file text ∧
    readDocument yaml point text = .ok document

/-- A point is reachable from an entry document, whose directory and name are given, by
following references to other documents. -/
inductive FileTree.Reachable (tree : FileTree) (yaml : YamlReader) (base name : String) :
    String → Prop
  /-- The entry document. -/
  | entry : tree.Reachable yaml base name name
  /-- What a reference leads to that is anywhere in a reachable document. -/
  | step {point written : String} {document : Json} (h : tree.Reachable yaml base name point)
    (hread : tree.Reads yaml base point document) (hheld : document.Holds written)
    (hremote : written.toList.head? ≠ some '#') :
    tree.Reachable yaml base name
      (Point.normalize (Point.join (Point.directory point) (Reference.splitWritten written).1))

namespace FileTree

variable {yaml : YamlReader} {tree : FileTree} {base name point : String}

/-- Only one document can be read at a point. -/
theorem Reads.unique {document other : Json} (h : tree.Reads yaml base point document)
    (h' : tree.Reads yaml base point other) : document = other := by
  obtain ⟨text, hentry, hread⟩ := h
  obtain ⟨text', hentry', hread'⟩ := h'
  rw [hentry] at hentry'
  cases hentry'
  rw [hread] at hread'
  cases hread'
  rfl

/-- What the references in a reachable document lead to is reachable. -/
theorem Reachable.target {document : Json} (h : tree.Reachable yaml base name point)
    (hread : tree.Reads yaml base point document) :
    ∀ target ∈ remoteTargets point document, tree.Reachable yaml base name target := by
  intro target hmem
  obtain ⟨written, hwritten, rfl⟩ := List.mem_map.mp hmem
  obtain ⟨href, hremote⟩ := List.mem_filter.mp hwritten
  exact .step h hread (Json.mem_refs_iff.mp href) (by simpa using hremote)

/-- Reachable points are short if they are relative and the name of the entry file is. -/
theorem Reachable.isShort (hname : IsShort name) (h : tree.Reachable yaml base name point)
    (hrooted : isRooted point = false) : IsShort point := by
  cases h with
  | entry => exact hname
  | step => exact .normalize hrooted

/-- The name of an entry file is short. -/
theorem IsShort.splitFile {path : String} (h : splitFile path = (base, name)) : IsShort name := by
  obtain ⟨last, heq, hslash, hdot⟩ := exists_name_splitFile path
  have hlast : name = String.ofList last := (congrArg Prod.snd h).symm.trans heq
  rw [hlast]
  by_cases hempty : last = []
  · have hkept : Point.Kept false [] := trivial
    rw [hempty]
    exact .of_kept hkept
  · have hkept : Point.Kept false [last] :=
      ⟨⟨hempty, hdot, hslash⟩, fun _ => ⟨rfl, nofun⟩, trivial⟩
    exact .of_kept hkept

end FileTree

/-- A file that cannot be read fails for a cause of its own. -/
theorem readDocument_ne_exhausted (yaml : YamlReader) (path text : String) :
    readDocument yaml path text ≠ .error .exhausted := by
  unfold readDocument readFile
  split
  · cases Json.read text <;> nofun
  · cases yaml text <;> nofun

namespace Loading

/-- What is known while documents are loaded. -/
structure Sound (yaml : YamlReader) (tree : FileTree) (base name : String) (loaded : Members)
    (pending : List String) : Prop extends Complete loaded pending where
  /-- The documents are those that can be read at their points. -/
  reads : ∀ pair ∈ loaded, tree.Reads yaml base pair.1 pair.2
  /-- The points of the documents are reachable. -/
  loaded_reachable : ∀ pair ∈ loaded, tree.Reachable yaml base name pair.1
  /-- The points that wait are reachable. -/
  pending_reachable : ∀ point ∈ pending, tree.Reachable yaml base name point
  /-- The entry document comes first. -/
  first : (loaded.map Prod.fst ++ pending).head? = some name

namespace Sound

variable {yaml : YamlReader} {tree : FileTree} {base name point : String} {loaded : Members}
  {pending rest : List String}

/-- The entry file is pending in the beginning. -/
theorem initial (yaml : YamlReader) (tree : FileTree) (base name : String) :
    Sound yaml tree base name [] [name] where
  toComplete := .initial name
  reads := nofun
  loaded_reachable := nofun
  pending_reachable _ hmem := List.mem_singleton.mp hmem ▸ .entry
  first := rfl

/-- Once all points that wait are there, the entry document is. -/
theorem done (h : Sound yaml tree base name loaded pending)
    (hdone : pending.dropWhile loaded.has = []) : Sound yaml tree base name loaded [] where
  toComplete := h.toComplete.done hdone
  reads := h.reads
  loaded_reachable := h.loaded_reachable
  pending_reachable := nofun
  first := by
    have hfirst := h.first
    cases loaded with
    | nil =>
      have hnone : pending = [] := by
        cases pending with
        | nil => rfl
        | cons point rest => cases hdone
      rw [hnone] at hfirst
      exact hfirst
    | cons pair more => exact hfirst

/-- The next document is loaded, and what its references lead to waits. -/
theorem load (h : Sound yaml tree base name loaded pending)
    (hnext : pending.dropWhile loaded.has = point :: rest) {document : Json}
    (hread : tree.Reads yaml base point document) :
    Sound yaml tree base name (loaded ++ [(point, document)])
      ((remoteTargets point document).reverse ++ rest) where
  toComplete := h.toComplete.load hnext document
  reads pair hmem := by
    rcases List.mem_append.mp hmem with hmem | hmem
    · exact h.reads pair hmem
    · rw [List.mem_singleton.mp hmem]
      exact hread
  loaded_reachable pair hmem := by
    rcases List.mem_append.mp hmem with hmem | hmem
    · exact h.loaded_reachable pair hmem
    · rw [List.mem_singleton.mp hmem]
      exact h.pending_reachable point (mem_pending hnext (List.mem_cons_self ..))
  pending_reachable other hmem := by
    have hpoint := h.pending_reachable point (mem_pending hnext (List.mem_cons_self ..))
    rcases List.mem_append.mp hmem with hmem | hmem
    · exact hpoint.target hread other (List.mem_reverse.mp hmem)
    · exact h.pending_reachable other (mem_pending hnext (List.mem_cons_of_mem _ hmem))
  first := by
    have hfirst := h.first
    cases loaded with
    | nil =>
      have hpending : pending = point :: rest := by
        cases pending with
        | nil => cases hnext
        | cons other more => exact hnext
      rw [hpending] at hfirst
      exact hfirst
    | cons pair more => exact hfirst

/-- When nothing waits, every reachable point is that of a document. -/
theorem has_of_reachable (h : Sound yaml tree base name loaded [])
    (hpoint : tree.Reachable yaml base name point) : loaded.has point := by
  induction hpoint with
  | entry =>
    have hfirst := h.first
    rw [List.append_nil] at hfirst
    exact Members.has_iff.mpr (List.mem_of_head? hfirst)
  | @step point written document _ hread hheld hremote ih =>
    obtain ⟨pair, hmem, hpair⟩ := List.mem_map.mp (Members.has_iff.mp ih)
    have hloaded := h.reads pair hmem
    rw [hpair] at hloaded
    have htargets := h.targets pair hmem
    rw [hpair, hloaded.unique hread] at htargets
    have htarget := mem_remoteTargets point (Json.mem_refs_iff.mpr hheld) hremote
    exact (htargets _ htarget).resolve_right List.not_mem_nil

/-- There are never more documents than can be loaded. -/
theorem length_le (htree : tree.IsRelative) (hname : FileTree.IsShort name)
    (h : Sound yaml tree base name loaded pending) :
    loaded.length ≤ maxDocuments tree base := by
  have hread : ∀ point ∈ loaded.map Prod.fst, ∃ text,
      tree.entry (Point.join base point) = .file text := by
    intro point hmem
    obtain ⟨pair, hpair, rfl⟩ := List.mem_map.mp hmem
    obtain ⟨text, hentry, _⟩ := h.reads pair hpair
    exact ⟨text, hentry⟩
  have hshort : ∀ point ∈ loaded.map Prod.fst, FileTree.isRooted point = false →
      FileTree.IsShort point := by
    intro point hmem hrooted
    obtain ⟨pair, hpair, rfl⟩ := List.mem_map.mp hmem
    exact (h.loaded_reachable pair hpair).isShort hname hrooted
  have hbound := htree.length_le h.nodup hread hshort
  rw [List.length_map] at hbound
  exact hbound.trans (Nat.mul_le_mul_left _ (by omega))

end Sound

/-- How loading ends that started with points of documents. -/
structure Ends (yaml : YamlReader) (tree : FileTree) (base name : String) (before : List String)
    (last : Loading) : Prop where
  /-- Documents that are given are those at all reachable points, in the order in which they
  were opened. -/
  loaded : ∀ documents, last.result = .ok documents → Sound yaml tree base name documents [] ∧
    documents.map Prod.fst = before ++ last.opened
  /-- Otherwise there is a reachable point where no document can be read. -/
  failed : ∀ failure, last.result = .error failure → failure ≠ .exhausted ∧
    ∃ point, tree.Reachable yaml base name point ∧
      ∀ document, ¬ tree.Reads yaml base point document

namespace Ends

variable {yaml : YamlReader} {tree : FileTree} {base name point : String}
  {before : List String} {last : Loading}

/-- Loading may end with documents once nothing is pending. -/
theorem of_ok {documents : Members} {opened : List String}
    (h : Sound yaml tree base name documents [])
    (hopened : documents.map Prod.fst = before ++ opened) :
    Ends yaml tree base name before ⟨opened, .ok documents⟩ where
  loaded _ hresult := by
    cases hresult
    exact ⟨h, hopened⟩
  failed _ hresult := nomatch hresult

/-- It may end with a failure if a file that can be reached cannot be read. -/
theorem of_error {failure : Failure} {opened : List String} (h : failure ≠ .exhausted)
    (hpoint : tree.Reachable yaml base name point)
    (hread : ∀ document, ¬ tree.Reads yaml base point document) :
    Ends yaml tree base name before ⟨opened, .error failure⟩ where
  loaded _ hresult := nomatch hresult
  failed _ hresult := by
    cases hresult
    exact ⟨h, point, hpoint, hread⟩

/-- The points that are opened follow those before. -/
theorem opened (h : Ends yaml tree base name (before ++ [point]) last) :
    Ends yaml tree base name before { last with opened := point :: last.opened } where
  loaded documents hresult := by
    obtain ⟨hsound, hopened⟩ := h.loaded documents hresult
    exact ⟨hsound, by rw [hopened, List.append_assoc, List.singleton_append]⟩
  failed := h.failed

end Ends

/-- More allowance changes nothing once there is enough. -/
theorem loadFrom_mono {yaml : YamlReader} {tree : FileTree} {base : String} {allowance : Nat}
    {loaded : Members} {pending : List String}
    (h : (loadFrom yaml tree base allowance loaded pending).result ≠ .error .exhausted)
    (more : Nat) :
    loadFrom yaml tree base (allowance + more) loaded pending =
      loadFrom yaml tree base allowance loaded pending := by
  induction allowance generalizing loaded pending with
  | zero =>
    cases hnext : pending.dropWhile loaded.has with
    | nil => cases more <;> simp only [loadFrom, hnext]
    | cons point rest =>
      simp only [loadFrom, hnext] at h
      exact absurd rfl h
  | succ allowance ih =>
    rw [Nat.add_right_comm]
    simp only [loadFrom] at h ⊢
    split
    · rfl
    · rename_i point rest hnext
      rw [hnext] at h
      split
      · rfl
      · rfl
      · rfl
      · rename_i text hentry
        simp only [hentry] at h
        split
        · rfl
        · rename_i document hdocument
          simp only [hdocument] at h
          rw [ih h]

/-- Loading ends if the allowance is not used up before every file is loaded. -/
theorem loadFrom_ends {yaml : YamlReader} {tree : FileTree} {base name : String}
    (htree : tree.IsRelative) (hname : FileTree.IsShort name) {allowance : Nat}
    {loaded : Members} {pending : List String}
    (h : Sound yaml tree base name loaded pending)
    (hallowance : maxDocuments tree base < loaded.length + allowance) :
    Ends yaml tree base name (loaded.map Prod.fst)
      (loadFrom yaml tree base allowance loaded pending) := by
  induction allowance generalizing loaded pending with
  | zero => exact absurd (h.length_le htree hname) (by omega)
  | succ allowance ih =>
    rw [loadFrom]
    split
    · rename_i hdone
      exact .of_ok (h.done hdone) (List.append_nil _).symm
    · rename_i point rest hnext
      have hreachable := h.pending_reachable point (mem_pending hnext (List.mem_cons_self ..))
      -- Whatever stops the loading here is found where no document can be read.
      have hunread (hnone : ∀ text, tree.entry (Point.join base point) ≠ .file text) :
          ∀ document, ¬ tree.Reads yaml base point document := by
        rintro document ⟨text, hentry, -⟩
        exact hnone text hentry
      split
      · rename_i hentry
        exact .of_error (by simp) hreachable (hunread (by simp [hentry]))
      · rename_i hentry
        exact .of_error (by simp) hreachable (hunread (by simp [hentry]))
      · rename_i hentry
        exact .of_error (by simp) hreachable (hunread (by simp [hentry]))
      · rename_i text hentry
        split
        · rename_i failure hfailure
          refine .of_error (fun hexhausted => ?_) hreachable fun document hread => ?_
          · rw [hexhausted] at hfailure
            exact readDocument_ne_exhausted yaml point text hfailure
          · obtain ⟨other, hother, hread⟩ := hread
            rw [hentry] at hother
            cases hother
            rw [hfailure] at hread
            cases hread
        · rename_i document hdocument
          have hload := h.load hnext ⟨text, hentry, hdocument⟩
          have hroom : maxDocuments tree base <
              (loaded ++ [(point, document)]).length + allowance := by
            rw [List.length_append, List.length_singleton]
            omega
          have hends := ih hload hroom
          rw [map_fst_append] at hends
          exact hends.opened

end Loading

namespace Members

/-- Members are found under the keys of the pairs that they come from. -/
theorem has_ofPairs (pairs : Members) (key : String) :
    (ofPairs pairs).has key ↔ key ∈ pairs.map Prod.fst := by
  have hfold : ∀ rest before : Members,
      (rest.foldl (fun members pair => put pair.1 pair.2 members) before).has key ↔
        key ∈ before.map Prod.fst ∨ key ∈ rest.map Prod.fst := by
    intro rest
    induction rest with
    | nil => exact fun before => by simp [has_iff]
    | cons pair rest ih =>
      intro before
      rw [List.foldl_cons, ih, keys_put, List.map_cons, List.mem_cons]
      split
      · rename_i hmem
        constructor
        · exact fun h => h.imp id Or.inr
        · rintro (h | rfl | h)
          · exact Or.inl h
          · exact Or.inl hmem
          · exact Or.inr h
      · rw [List.mem_append, List.mem_singleton, or_assoc]
  exact (hfold pairs []).trans (or_iff_right List.not_mem_nil)

end Members

/-- The points of a graph are the normal forms of those that its documents are given under. -/
theorem Graph.mem_points_iff {documents : Members} {entryPoint : String} {root directories : Json}
    {graph : Graph} (h : Graph.ofDocuments documents entryPoint root directories = .ok graph)
    {point : String} :
    point ∈ graph.points ↔ ∃ key ∈ documents.map Prod.fst, Point.normalize key = point := by
  rw [Graph.points, (of_ofDocuments h).1, ← Members.has_iff, normalDocuments,
    Members.has_ofPairs, List.map_map]
  simp

/-- The points of a graph are in normal form. -/
theorem Graph.normalize_of_mem_points {documents : Members} {entryPoint : String}
    {root directories : Json} {graph : Graph}
    (h : Graph.ofDocuments documents entryPoint root directories = .ok graph) {point : String}
    (hpoint : point ∈ graph.points) : Point.normalize point = point := by
  obtain ⟨key, _, rfl⟩ := (Graph.mem_points_iff h).mp hpoint
  exact Point.normalize_normalize key

/-- Documents at all reachable points make a graph when the settings list directories. -/
theorem exists_graph_of_load {yaml : YamlReader} {tree : FileTree} {path base name : String}
    {settings : Settings} {directories : Json} {listed : List Json} {documents : Members}
    (hsplit : splitFile path = (base, name))
    (hdirectories : settings.componentDirectories = .ok directories)
    (hlisted : directories.elements = .ok listed)
    (hload : (yaml.load tree path).result = .ok documents)
    (hentry : name ∈ documents.map Prod.fst) :
    ∃ graph, yaml.loadGraph tree path settings = .ok graph := by
  have hhas : (Graph.normalDocuments documents).has (Point.normalize name) := by
    obtain ⟨pair, hpair, hkey⟩ := List.mem_map.mp hentry
    rw [Graph.normalDocuments, Members.has_ofPairs, List.map_map, ← hkey]
    exact List.mem_map_of_mem hpair
  unfold YamlReader.loadGraph
  rw [hload, hsplit, hdirectories]
  exact ⟨_, Graph.ofDocuments_eq_ok_iff.mpr ⟨hhas, listed, hlisted, rfl⟩⟩

/-- The loader computes exactly the reachable documents, however YAML is read. If no known
file has a path that starts at the root of the file system, loading ends, also if more is
allowed. There is a graph exactly if a document can be read at every reachable point. Its
points are then the reachable ones, each of which was opened once, the entry point first,
provided that the name of the entry file has no backslash, and it holds the documents that
can be read at them. -/
theorem loadGraph_exact (yaml : YamlReader) {tree : FileTree} {path base name : String}
    {settings : Settings} {directories : Json} {listed : List Json} (htree : tree.IsRelative)
    (hsplit : splitFile path = (base, name))
    (hdirectories : settings.componentDirectories = .ok directories)
    (hlisted : directories.elements = .ok listed) :
    ((yaml.load tree path).result ≠ .error .exhausted ∧
      ∀ more, Loading.loadFrom yaml tree base (Loading.maxDocuments tree base + 1 + more) []
        [name] = yaml.load tree path) ∧
    ((∃ graph, yaml.loadGraph tree path settings = .ok graph) ↔
      ∀ point, tree.Reachable yaml base name point →
        ∃ document, tree.Reads yaml base point document) ∧
    ∀ graph, yaml.loadGraph tree path settings = .ok graph → '\\' ∉ name.toList →
      graph.points = (yaml.load tree path).opened ∧ graph.points.Nodup ∧
        graph.points.head? = some name ∧
        (∀ point, point ∈ graph.points ↔ tree.Reachable yaml base name point) ∧
        ∀ point document, (point, document) ∈ graph.documents →
          tree.Reads yaml base point document := by
  have hload : yaml.load tree path =
      Loading.loadFrom yaml tree base (Loading.maxDocuments tree base + 1) [] [name] := by
    rw [YamlReader.load, hsplit]
  have hends : Loading.Ends yaml tree base name [] (yaml.load tree path) := by
    rw [hload]
    exact Loading.loadFrom_ends htree (.splitFile hsplit) (.initial yaml tree base name) (by simp)
  have hended : (yaml.load tree path).result ≠ .error .exhausted := fun hresult =>
    (hends.failed _ hresult).1 rfl
  refine ⟨⟨hended, fun more => ?_⟩, ⟨?_, ?_⟩, ?_⟩
  · rw [hload] at hended ⊢
    exact Loading.loadFrom_mono hended more
  · rintro ⟨graph, hgraph⟩ point hpoint
    obtain ⟨documents, _, hresult, _⟩ := exists_of_loadGraph_ok hgraph
    obtain ⟨hsound, _⟩ := hends.loaded documents hresult
    obtain ⟨pair, hpair, rfl⟩ :=
      List.mem_map.mp (Members.has_iff.mp (hsound.has_of_reachable hpoint))
    exact ⟨pair.2, hsound.reads pair hpair⟩
  · intro hread
    cases hresult : (yaml.load tree path).result with
    | error failure =>
      obtain ⟨_, point, hpoint, hnone⟩ := hends.failed failure hresult
      obtain ⟨document, hdocument⟩ := hread point hpoint
      exact absurd hdocument (hnone document)
    | ok documents =>
      obtain ⟨hsound, _⟩ := hends.loaded documents hresult
      exact exists_graph_of_load hsplit hdirectories hlisted hresult
        (Members.has_iff.mp (hsound.has_of_reachable .entry))
  · intro graph hgraph hbackslash
    have hname : '\\' ∉ (splitFile path).2.toList := by rwa [hsplit]
    obtain ⟨hsound, hopened⟩ := hends.loaded _ (loadGraph_documents hname hgraph)
    have hfirst := hsound.first
    rw [List.append_nil] at hfirst
    rw [List.nil_append] at hopened
    refine ⟨hopened, hsound.nodup, hfirst, fun point => ⟨fun hmem => ?_, fun hpoint => ?_⟩,
      fun point document hmem => hsound.reads (point, document) hmem⟩
    · obtain ⟨pair, hpair, rfl⟩ := List.mem_map.mp hmem
      exact hsound.loaded_reachable pair hpair
    · exact Members.has_iff.mp (hsound.has_of_reachable hpoint)

/-- A YAML file and a JSON file in a directory that refer to each other. -/
def FileTree.mutual : FileTree where
  files := [
    ("openapi.yml", "paths:\n  /pets:\n    $ref: paths/pets.json#/get\n"),
    ("paths/pets.json", (Json.obj [("get", .arr [.obj [("$ref", .str "../openapi.yml")]])]).text)]

/-- The text of the YAML file is known. -/
def YamlReader.mutual : YamlReader := .knowing [
  ("paths:\n  /pets:\n    $ref: paths/pets.json#/get\n",
    .obj [("paths", .obj [("/pets", .obj [("$ref", .str "paths/pets.json#/get")])])])]

/-- Both files are reachable, and each is loaded once. -/
theorem mutual_exact :
    ∃ graph, YamlReader.mutual.loadGraph .mutual "openapi.yml" {} = .ok graph ∧
      graph.points = ["openapi.yml", "paths/pets.json"] ∧
      ∀ point, FileTree.mutual.Reachable .mutual "" "openapi.yml" point ↔
        point = "openapi.yml" ∨ point = "paths/pets.json" := by
  have htree : FileTree.mutual.IsRelative := by decide +kernel
  have hsplit : splitFile "openapi.yml" = ("", "openapi.yml") := by decide +kernel
  have hdirectories : ({} : Settings).componentDirectories = .ok (.arr [.str "schemas"]) := rfl
  obtain ⟨_, _, hgraph⟩ := loadGraph_exact .mutual htree hsplit hdirectories rfl
  have hpoints : (YamlReader.mutual.loadGraph .mutual "openapi.yml" {}).toOption.map (·.points) =
      some ["openapi.yml", "paths/pets.json"] := by decide +kernel
  cases hload : YamlReader.mutual.loadGraph .mutual "openapi.yml" {} with
  | error failure =>
    rw [hload] at hpoints
    cases hpoints
  | ok graph =>
    rw [hload] at hpoints
    have hlist : graph.points = ["openapi.yml", "paths/pets.json"] := Option.some.inj hpoints
    obtain ⟨_, _, _, hexact, _⟩ := hgraph graph hload (by decide)
    refine ⟨graph, rfl, hlist, fun point => ?_⟩
    rw [← hexact point, hlist]
    simp

/-- A file with a backslash in its name that refers to another one. -/
def FileTree.backslash : FileTree where
  files := [
    ("a\\b.json", (Json.obj [("$ref", .str "a/b.json")]).text),
    ("a/b.json", (Json.obj []).text)]

/-- The point of an entry file with a backslash in its name is brought into normal form
only when the graph is made. Both files are opened, but the graph holds the second one in
place of the entry document. Neither file is YAML. -/
theorem backslash_entry_lost :
    let yaml : YamlReader := .knowing []
    ∃ graph, yaml.loadGraph .backslash "a\\b.json" {} = .ok graph ∧
      (yaml.load .backslash "a\\b.json").opened = ["a\\b.json", "a/b.json"] ∧
      FileTree.backslash.Reachable yaml (splitFile "a\\b.json").1 (splitFile "a\\b.json").2
        "a\\b.json" ∧
      graph.points = ["a/b.json"] ∧ graph.rootDocument.refs = [] := by
  intro yaml
  have hsplit : splitFile "a\\b.json" = ("", "a\\b.json") := by decide +kernel
  have hloaded : (yaml.loadGraph .backslash "a\\b.json" {}).toOption.map
      (fun graph => (graph.points, graph.rootDocument.refs)) = some (["a/b.json"], []) := by
    decide +kernel
  cases hload : yaml.loadGraph .backslash "a\\b.json" {} with
  | error failure =>
    rw [hload] at hloaded
    cases hloaded
  | ok graph =>
    rw [hload] at hloaded
    obtain ⟨hpoints, hrefs⟩ := Prod.mk.inj (Option.some.inj hloaded)
    refine ⟨graph, rfl, by decide +kernel, ?_, hpoints, hrefs⟩
    rw [hsplit]
    exact .entry

end ApiTypes
