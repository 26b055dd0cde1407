import ApiTypes.Proofs.Run.Provenance

/-!
# Loading and resolving agree

The loader follows the references in the documents that it has read, from the
points under which it keeps them. A run reads references at home and from there
comes to the same documents. So a run over a loaded graph asks for loaded
documents only: what it does not find is missing inside one of them.
-/

namespace ApiTypes

/-- A reference to a component leads into the document that holds it. -/
theorem Reference.documentOf_toComponent (point root directory name : String) :
    documentOf point (toComponent root directory name) = Point.normalize point := by
  have hhash : (toComponent root directory name).toList.head? = some '#' := by
    simp [toComponent, Pointer.locate, Pointer.locateWritten]
  simp only [documentOf, hhash, ↓reduceIte]

/-- The documents that steps ask for are there when references lead to such documents
only and all registered schemas are in such documents. -/
theorem Reading.Opens.exists_document {R : Reading} {graph : Graph} {r : Registry}
    {documentPoint : String} (h : R.Opens r documentPoint)
    (hR : ∀ point written, R point written →
      ∃ document, graph.document (Reference.documentOf point written) = .ok document)
    (hentries : ∀ entry ∈ r.entries,
      ∃ document, graph.document entry.documentPoint = .ok document) :
    ∃ document, graph.document documentPoint = .ok document := by
  rcases h with ⟨point, written, hread, rfl⟩ | ⟨entry, hentry, rfl⟩
  · exact hR point written hread
  · exact hentries entry hentry

/-- The schemas that a run registers are in documents that references lead to. -/
theorem RunState.Progress.exists_document {context : Context} {may : Permission} {s : RunState}
    (h : (RunState.initial context).Progress context may s) (hasks : ¬ may.asks)
    (hR : ∀ point written, may.reads point written →
      ∃ document, context.graph.document (Reference.documentOf point written) = .ok document)
    {entry : Entry} (hentry : entry ∈ s.registry.entries) :
    ∃ document, context.graph.document entry.documentPoint = .ok document := by
  obtain ⟨requests, hregistry, harise⟩ := h.registry
  rw [hregistry] at hentry
  rcases Registry.mem_entries_ensureAll hentry with hnone | ⟨request, hrequest, _, hpoint, _⟩
  · cases hnone
  · obtain ⟨point, written, hread, _, hfor⟩ := (harise request hrequest).resolve_left hasks
    rw [hpoint, hfor.documentPoint_eq]
    exact hR point written hread

/-- What is not found in a document that is there is missing inside it. -/
theorem Graph.exists_walk_of_lookup {graph : Graph} {point : String} {segments : List String}
    {document : Json} (hdocument : graph.document point = .ok document)
    {reference location : String} (h : graph.lookup point segments =
      .error (.schema (.unresolved reference location))) :
    reference = Pointer.locate point segments ∧
      ∃ position, document.walk segments = .error (.missing position) := by
  rw [lookup, hdocument] at h
  dsimp only at h
  split at h
  · cases h
  · cases h
  · rename_i position hwalk
    cases h
    exact ⟨rfl, position, hwalk⟩

/-- Loading and resolving agree, however YAML is read. In a run over a loaded graph, whose
entry file has no backslash in its name, every document that is asked for is loaded. When a call of
the run fails because something does not exist, a loaded document was asked for, and
it is the path inside that document which leads nowhere. -/
theorem loaded_documents_suffice {yaml : YamlReader} {tree : FileTree} {entryPath : String}
    {settings : Settings} {context : Context} (hname : '\\' ∉ (splitFile entryPath).2.toList)
    (hload : yaml.loadGraph tree entryPath settings = .ok context.graph) {s : RunState}
    (h : context.LeadsBy (Call.IsAtHome context) (.initial context) s) :
    (∀ point, .opened point ∈ s.journal →
      ∃ document, context.graph.document point = .ok document) ∧
    ∀ call : Call, call.IsAtHome context → ∀ reference location,
      ((call.perform context).run s).1 = .error (.schema (.unresolved reference location)) →
      ∃ point segments document, .opened point ∈ ((call.perform context).run s).2.journal ∧
        context.graph.document point = .ok document ∧
        reference = Pointer.locate point segments ∧
        ∃ position, document.walk segments = .error (.missing position) := by
  have hroot := loadGraph_document_entryPoint hload
  have hR : ∀ point written, Reading.atHomeOrBuilt context point written →
      ∃ document, context.graph.document (Reference.documentOf point written) = .ok document := by
    rintro point written (⟨document, hdocument, href⟩ | ⟨rfl, root, directory, name, _, rfl⟩)
    · exact loadGraph_targets hname hload hdocument href
    · rw [Reference.documentOf_toComponent]
      exact ⟨context.graph.rootDocument, (context.graph.document_normalize _).trans hroot⟩
  have hopened (s : RunState) (h : context.LeadsBy (Call.IsAtHome context) (.initial context) s)
      (point : String) (hmem : .opened point ∈ s.journal) :
      ∃ document, context.graph.document point = .ok document := by
    have hprogress := h.progress fun call hcall s => (call.perform_atHome hroot hcall s).progress
    rcases hprogress.mem_journal hmem with hnone | harises
    · cases hnone
    · have hopens : (Reading.atHomeOrBuilt context).Opens s.registry point :=
        harises.resolve_left id
      exact hopens.exists_document hR fun entry hentry => hprogress.exists_document id hR hentry
  refine ⟨hopened s h, fun call hcall reference location hfails => ?_⟩
  obtain ⟨point, segments, hmem, hlookup⟩ :=
    ((call.perform_atHome hroot hcall s).fails _ hfails).lookedUp reference location rfl
  obtain ⟨document, hdocument⟩ := hopened _ (h.call call hcall) point hmem
  obtain ⟨hreference, hwalk⟩ := Graph.exists_walk_of_lookup hdocument hlookup
  exact ⟨point, segments, document, hmem, hdocument, hreference, hwalk⟩

/-- The point of a document that was asked for. -/
def Event.opening? : Event → Option String
  | .opened point => some point
  | _ => none

/-- The documents that were asked for, the last one first. -/
def RunState.openings (s : RunState) : List String := s.journal.filterMap Event.opening?

/-- The documents that were asked for are those in the journal. -/
theorem RunState.mem_openings {s : RunState} {point : String} :
    point ∈ s.openings ↔ .opened point ∈ s.journal := by
  rw [openings, List.mem_filterMap]
  constructor
  · rintro ⟨event, hmem, hopening⟩
    cases event with
    | opened =>
      cases hopening
      exact hmem
    | _ => cases hopening
  · exact fun hmem => ⟨_, hmem, rfl⟩

/-- A document with a path item in another file, which refers to a third one. The first two
are YAML files. -/
def FileTree.pets : FileTree where
  files := [
    ("openapi.yml", "paths:\n  /pets:\n    $ref: paths/pets.yml\n"),
    ("paths/pets.yml", "$ref: ../shared.json#/pets\n"),
    ("shared.json", (Json.obj [("pets", .obj [])]).text)]

/-- What the YAML files write is known. -/
def YamlReader.pets : YamlReader := .knowing [
  ("paths:\n  /pets:\n    $ref: paths/pets.yml\n",
    .obj [("paths", .obj [("/pets", .obj [("$ref", .str "paths/pets.yml")])])]),
  ("$ref: ../shared.json#/pets\n", .obj [("$ref", .str "../shared.json#/pets")])]

/-- The state after the operations in the documents of a graph were collected. -/
def RunState.collected (graph : Graph) : RunState :=
  (initial { graph }).afterCall { graph } .operations

/-- The document that the path item refers to is asked for, and was loaded. -/
theorem pets_documents_suffice :
    ∃ graph, YamlReader.pets.loadGraph .pets "openapi.yml" {} = .ok graph ∧
      .opened "shared.json" ∈ (RunState.collected graph).journal ∧
      ∃ document, graph.document "shared.json" = .ok document := by
  have hname : '\\' ∉ (splitFile "openapi.yml").2.toList := by decide +kernel
  have hopenings : ((YamlReader.pets.loadGraph .pets "openapi.yml" {}).toOption.map fun graph =>
      (RunState.collected graph).openings) =
      some ["shared.json", "paths/pets.yml"] := by decide +kernel
  cases hload : YamlReader.pets.loadGraph .pets "openapi.yml" {} with
  | error failure =>
    rw [hload] at hopenings
    cases hopenings
  | ok graph =>
    rw [hload] at hopenings
    have hlist := Option.some.inj hopenings
    dsimp only at hlist
    have hopened : .opened "shared.json" ∈ (RunState.collected graph).journal := by
      apply RunState.mem_openings.mp
      rw [hlist]
      exact List.mem_cons_self ..
    have hleads : ({ graph } : Context).LeadsBy (Call.IsAtHome { graph })
        (.initial { graph }) (.collected graph) := .call .refl .operations trivial
    have hsuffice := loaded_documents_suffice hname hload hleads
    exact ⟨graph, rfl, hopened, hsuffice.1 _ hopened⟩

end ApiTypes
