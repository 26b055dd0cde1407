import ApiTypes.Proofs.Document.Inside
import ApiTypes.Proofs.Document.Load
import ApiTypes.Proofs.Run.Reach
import ApiTypes.Proofs.Run.Termination

/-!
# References are read at home

A reference is relative to the document that holds it. The point of that document
is handed from step to step beside what is read, across references from object to
object, expansions through several documents, and schemas that are rewritten
before they are converted. In the end every reference was read at the point of a
document that has it somewhere inside, or was built to register a component of the
entry document.
-/

namespace ApiTypes

namespace Reading

variable (context : Context)

/-- A reference inside the document at a point is read there. -/
def atHome : Reading := fun point written =>
  ∃ document, context.graph.document point = .ok document ∧ written ∈ document.refs

/-- A reference inside the document at a point is read there, and a reference to a
component of the entry document is read at the entry point. -/
def atHomeOrBuilt : Reading := fun point written =>
  atHome context point written ∨ point = context.graph.entryPoint ∧
    ∃ root directory name, context.HasComponent root directory name ∧
      written = Reference.toComponent root directory name

/-- References that are read at home lead to no more locations than a run allows to
nest. -/
theorem atHome_suits : (atHome context).Suits context where
  covers _ document hdocument _ href := ⟨document, hdocument, href⟩
  atMost := by
    refine (context.readable_suits context.graph.entryPoint).atMost.of_imp ?_
    rintro point written ⟨document, hdocument, href⟩
    exact (context.readable_suits context.graph.entryPoint).covers point document hdocument
      written href

end Reading

/-- The point and the text of a reference that was read. -/
def Event.reading? : Event → Option (String × String)
  | .classified point written => some (point, written)
  | _ => none

/-- The references that were read, each with the point of its document. -/
def RunState.readings (s : RunState) : List (String × String) :=
  s.journal.filterMap Event.reading?

/-- The readings of a state are those in its journal. -/
theorem RunState.mem_readings {s : RunState} {point written : String} :
    (point, written) ∈ s.readings ↔ .classified point written ∈ s.journal := by
  rw [readings, List.mem_filterMap]
  constructor
  · rintro ⟨event, hmem, hreading⟩
    cases event with
    | classified =>
      cases hreading
      exact hmem
    | _ => cases hreading
  · exact fun hmem => ⟨_, hmem, rfl⟩

/-- A call that registers components, collects operations or generates declarations,
or that converts a schema which is inside the document at its point. -/
def Call.IsAtHome (context : Context) : Call → Prop
  | .registerComponents | .operations | .declarations => True
  | .convert _ point schema _ | .convertSchema point schema _ _ =>
    ∃ document, context.graph.document point = .ok document ∧ schema.Inside document
  | _ => False

namespace Call

variable {context : Context}

/-- Such a call reads references at home, and may finish declarations. -/
theorem perform_atHome
    (hroot : context.graph.document context.graph.entryPoint = .ok context.graph.rootDocument)
    {call : Call} (hcall : call.IsAtHome context) (s : RunState) :
    Run.Does context (Reading.atHomeOrBuilt context).declaring (fun _ _ => True)
      (call.perform context) s := by
  have hR := (Reading.atHome_suits context).only
  have hle : ∀ point written, Reading.atHome context point written →
      Reading.atHomeOrBuilt context point written := fun _ _ => Or.inl
  have hwithin := Reading.only_within_declaring hle
  cases call with
  | convert entryPoint point schema path =>
    obtain ⟨document, hdocument, hinside⟩ := hcall
    have hallows := (hR.covers point document hdocument).of_subset hinside.refs_subset
    exact ((Run.Does.convert hR.covers entryPoint (hR.atMost schema) hallows path).mono
      hwithin).andThen fun _ _ => .pure trivial
  | convertSchema point schema path parent =>
    obtain ⟨document, hdocument, hinside⟩ := hcall
    have hallows := (hR.covers point document hdocument).of_subset hinside.refs_subset
    exact ((Run.Does.convertSchema hR.covers (hR.atMost schema) hallows path parent).mono
      hwithin).andThen fun _ _ => .pure trivial
  | registerComponents =>
    refine (Run.Does.registerComponents fun root directory name hcomponent => ?_).andThen
      fun _ _ => .pure trivial
    exact Or.inr ⟨rfl, root, directory, name, hcomponent, rfl⟩
  | operations =>
    exact ((Run.Does.operations hR (hR.covers _ _ hroot)).mono hwithin).andThen
      fun _ _ => .pure trivial
  | declarations =>
    have hdeclaring := (Reading.atHome_suits context).declaring
    exact ((Run.Does.declarations hdeclaring trivial).mono (Reading.declaring_within hle)).andThen
      fun _ _ => .pure trivial
  | resolve | lookup | ensure | enter | leave => exact hcall.elim

end Call

/-- Calls that make progress lead to progress. -/
theorem Context.LeadsBy.progress {context : Context} {kind : Call → Prop} {may : Permission}
    {s s' : RunState} (h : context.LeadsBy kind s s')
    (hkind : ∀ call, kind call → ∀ s : RunState,
      s.Progress context may ((call.perform context).run s).2) :
    s.Progress context may s' := by
  induction h with
  | refl => exact .refl s
  | @call s' _ call hcall ih => exact ih.trans (hkind call hcall s')

/-- References are read at home. In a run over a graph that registers components,
collects operations, generates declarations, and converts schemas from inside the
document at their point, every reference that is read at a point is the value of
a key `$ref` of an object inside the document there, or is built to register a
component of the entry document and read at its point. -/
theorem references_read_at_home {documents : Members} {entryPoint : String}
    {root directories : Json} {context : Context}
    (hgraph : Graph.ofDocuments documents entryPoint root directories = .ok context.graph)
    {s : RunState} (h : context.LeadsBy (Call.IsAtHome context) (.initial context) s)
    {point written : String} (hread : .classified point written ∈ s.journal) :
    (∃ document members, context.graph.document point = .ok document ∧
      (Json.obj members).Inside document ∧ Members.get? members "$ref" = some (.str written)) ∨
    (point = context.graph.entryPoint ∧ ∃ root directory name,
      context.HasComponent root directory name ∧
        written = Reference.toComponent root directory name) := by
  have hroot := Graph.document_entryPoint hgraph
  have hprogress := h.progress fun call hcall s => (call.perform_atHome hroot hcall s).progress
  have hnone : (RunState.initial context).journal = [] := rfl
  rcases hprogress.mem_journal hread with hmem | harises
  · rw [hnone] at hmem
    cases hmem
  · refine Or.imp ?_ id harises
    rintro ⟨document, hdocument, href⟩
    obtain ⟨members, hinside, hget⟩ := document.holds_of_mem_refs href
    exact ⟨document, members, hdocument, hinside, hget⟩

/-- A path item in a document of its own, which refers to a schema in a third one. -/
def Context.petFiles : Context where
  graph := {
    documents := [
      ("openapi.json", .obj [
        ("paths", .obj [("/pets", .obj [("$ref", .str "paths/pets.json")])]),
        ("components", .obj [("schemas", .obj [("Error", .obj [("type", .str "string")])])])]),
      ("paths/pets.json", .obj [("get", .obj [("responses", .obj [("200", .obj [("content",
        .obj [("application/json", .obj [("schema",
          .obj [("$ref", .str "../shared.json#/Pet")])])])])])])]),
      ("shared.json", .obj [("Pet", .obj [("type", .str "string")])])]
    entryPoint := "openapi.json"
    componentRoot := .str "components"
    componentDirectories := [.str "schemas"] }

/-- The state after the components were registered and the operations collected. -/
def RunState.petFilesCollected : RunState :=
  ((initial Context.petFiles).afterCall Context.petFiles .registerComponents).afterCall
    Context.petFiles .operations

/-- The reference in the path item is read at the point of the path item, where it
is inside the document. -/
theorem petFiles_read_at_home :
    Event.classified "paths/pets.json" "../shared.json#/Pet" ∈
      RunState.petFilesCollected.journal ∧
    ∃ document members, Context.petFiles.graph.document "paths/pets.json" = .ok document ∧
      (Json.obj members).Inside document ∧
      Members.get? members "$ref" = some (.str "../shared.json#/Pet") := by
  have hgraph : Graph.ofDocuments Context.petFiles.graph.documents "openapi.json"
      (.str "components") (.arr [.str "schemas"]) = .ok Context.petFiles.graph := rfl
  have hleads : Context.petFiles.LeadsBy (Call.IsAtHome Context.petFiles)
      (.initial Context.petFiles) .petFilesCollected :=
    .call (.call .refl .registerComponents trivial) .operations trivial
  have hread : Event.classified "paths/pets.json" "../shared.json#/Pet" ∈
      RunState.petFilesCollected.journal := RunState.mem_readings.mp (by decide +kernel)
  refine ⟨hread, (references_read_at_home hgraph hleads hread).resolve_right ?_⟩
  rintro ⟨hpoint, _⟩
  exact absurd hpoint (by decide +kernel)

end ApiTypes
