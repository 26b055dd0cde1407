import ApiTypes.Proofs.Conversion.Allowance
import ApiTypes.Proofs.Run.Declarations
import ApiTypes.Proofs.Run.Provenance

/-!
# What names denote

The canonical path of a schema is the only key under which it is registered. So
references are given the same identifier when they lead to the same location, and
what is declared under the identifier is found there. A location can be read back
unless a `#` stands where it is taken for the end of the document or is dropped
from the pointer. Apart from such references an identifier denotes one place, that
of every reference which was given it.
-/

namespace ApiTypes

namespace Reference

/-- A reference whose location is that of no other place: its document has no `#`,
and the first segment of its pointer does not start with one. -/
structure Unambiguous (point written : String) : Prop where
  /-- The document can be read back from the location. -/
  hash_not_mem : '#' ∉ (documentOf point written).toList
  /-- The segments can be read back from the location. -/
  plain : Plain written

instance (point written : String) : Decidable (Unambiguous point written) :=
  decidable_of_iff ('#' ∉ (documentOf point written).toList ∧ Plain written)
    ⟨fun h => ⟨h.1, h.2⟩, fun h => ⟨h.hash_not_mem, h.plain⟩⟩

/-- Unambiguous references lead to one location when they lead to the same segments
of the same document. -/
theorem Unambiguous.location_eq_iff {point written point' written' : String}
    (h : Unambiguous point written) (h' : Unambiguous point' written') :
    location point written = location point' written' ↔
      documentOf point written = documentOf point' written' ∧
        segments written = segments written' := by
  constructor
  · exact Pointer.locate_injective h.hash_not_mem h'.hash_not_mem h.plain.segments h'.plain.segments
  · rintro ⟨hdocument, hsegments⟩
    rw [location, location, hdocument, hsegments]

/-- Neither condition can be left out. -/
example :
    location "a.json" "#/definitions/Pet" = location "a.json" "#/#definitions/Pet" ∧
    location "a.json#/b.json" "#/Pet" = location "a.json" "#/b.json#/Pet" := by decide +kernel

end Reference

/-- A declaration of what a reference leads to, made in a run that has come to a
state: it has the description of what is found at the segments of the reference in
its document, and the type that this is converted to when nothing is in flight. -/
def Context.DeclaresTarget (context : Context) (s : RunState) (point written : String)
    (d : Declaration) : Prop :=
  ∃ value, context.graph.lookup (Reference.documentOf point written)
      (Reference.segments written) = .ok value ∧
    d.description = value.description ∧
    ((context.convert context.graph.entryPoint (Reference.documentOf point written) value
      (Pointer.locate "" (Reference.segments written))).run { s with inFlight := [] }).1 =
        .ok d.type

/-- The identifier that resolving a reference in a state gives. -/
def Context.identifierFor? (context : Context) (s : RunState) (point written : String) :
    Option String :=
  ((context.resolve point (.str written)).run s).1.toOption.bind (·.identifier?)

/-- A reference was read in a run that has come to a state, and was given an
identifier when it was resolved, at some moment since which schemas were registered
behind those that were registered then. -/
structure Context.Identifies (context : Context) (s : RunState)
    (point written identifier : String) : Prop where
  /-- The reference was read. -/
  read : .classified point written ∈ s.journal
  /-- The reference was resolved. -/
  resolved : ∃ moment, context.identifierFor? moment point written = some identifier ∧
    ((context.resolve point (.str written)).run moment).2.registry.Before s.registry

/-- The references that were read and lead to the location of a reference are
unambiguous. -/
def RunState.Unambiguous (s : RunState) (point written : String) : Prop :=
  ∀ current ref, .classified current ref ∈ s.journal →
    Reference.location current ref = Reference.location point written →
    Reference.Unambiguous current ref

/-- What a run keeps about what it registers and declares. -/
structure RunState.Denotes (context : Context) (s : RunState) : Prop where
  /-- An entry has the location, the document and the segments of a reference that
  was read, and there is something. -/
  entries : ∀ entry ∈ s.registry.entries,
    (∃ value, context.graph.lookup entry.documentPoint entry.segments = .ok value) ∧
    ∃ point written, .classified point written ∈ s.journal ∧
      entry.canonicalPath = Reference.location point written ∧
      entry.documentPoint = Reference.documentOf point written ∧
      entry.segments = Reference.segments written
  /-- A declaration defines an entry. -/
  finished : ∀ d ∈ s.finished, ∃ entry ∈ s.registry.entries, context.Defines s.registry entry d

/-- A call that registers what references lead to, and nothing else. -/
def Call.Resolves : Call → Prop
  | .ensure _ => False
  | _ => True

namespace RunState.Denotes

variable {context : Context} {s s' : RunState}

/-- Nothing is registered in the beginning. -/
theorem initial (context : Context) : (RunState.initial context).Denotes context := ⟨nofun, nofun⟩

/-- Steps that make progress keep it, when names are asked for what references lead to
only. -/
theorem progress {may : Permission} (h : s.Denotes context) (hprogress : s.Progress context may s')
    (hasks : ¬ may.asks) : s'.Denotes context where
  entries entry hentry := by
    obtain ⟨requests, hregistry, harise⟩ := hprogress.registry
    rw [hregistry] at hentry
    rcases Registry.mem_entries_ensureAll hentry with hentry | ⟨request, hrequest, hpath, hplace⟩
    · obtain ⟨hexists, point, written, hread, hkeys⟩ := h.entries entry hentry
      exact ⟨hexists, point, written, hprogress.journal_subset hread, hkeys⟩
    · obtain ⟨point, written, _, hread, hfor⟩ := (harise request hrequest).resolve_left hasks
      rw [hpath, hplace.1, hplace.2]
      exact ⟨hfor.exists_value, point, written, hread, hfor.canonicalPath_eq,
        hfor.documentPoint_eq, hfor.segments_eq⟩
  finished d hd := by
    rcases hprogress.mem_finished hd with hd | hdefined
    · obtain ⟨entry, hentry, hdefines⟩ := h.finished d hd
      obtain ⟨requests, hregistry, _⟩ := hprogress.registry
      refine ⟨entry, hprogress.entries_isPrefix.subset hentry, ?_⟩
      rw [hregistry]
      exact hdefines.ensureAll requests
    · exact hdefined

/-- So do steps that only change what is in flight. -/
theorem of_same (h : s.Denotes context) (hregistry : s'.registry = s.registry)
    (hfinished : s'.finished = s.finished) (hjournal : s.journal ⊆ s'.journal) :
    s'.Denotes context where
  entries entry hentry := by
    obtain ⟨hexists, point, written, hread, hkeys⟩ := h.entries entry (hregistry ▸ hentry)
    exact ⟨hexists, point, written, hjournal hread, hkeys⟩
  finished d hd := by
    rw [hregistry]
    exact h.finished d (hfinished ▸ hd)

end RunState.Denotes

/-- What becomes of the result of a step does not change the state. -/
theorem Run.state_return {α β : Type} (m : Run α) (f : α → β) (s : RunState) :
    ((do return f (← m) : Run β).run s).2 = (m.run s).2 := by
  rw [run_bind]
  rcases m.run s with ⟨_ | _, _⟩ <;> rfl

/-- A step that succeeds has a result. -/
theorem Run.exists_run_eq_ok {α : Type} {m : Run α} {s : RunState}
    (h : (m.run s).1.toOption.isSome) : ∃ a, m.run s = (.ok a, (m.run s).2) := by
  rcases hrun : m.run s with ⟨_ | a, after⟩
  · rw [hrun] at h
    cases h
  · exact ⟨a, rfl⟩

namespace Call

variable {context : Context} {call : Call} {s : RunState}

/-- What was written into the journal stays there. -/
theorem journal_subset_perform (call : Call) (s : RunState) :
    s.journal ⊆ ((call.perform context).run s).2.journal := by
  by_cases hwhole : call.IsWhole
  · exact (perform_does _ hwhole s).progress.journal_subset
  · exact (perform_of_not_isWhole _ hwhole s).2.2.1

/-- A call that resolves references keeps what a run keeps. -/
theorem perform_denotes (hcall : call.Resolves) (h : s.Denotes context) :
    ((call.perform context).run s).2.Denotes context := by
  by_cases hwhole : call.IsWhole
  · refine h.progress (perform_does _ hwhole s).progress ?_
    rintro ⟨request, rfl⟩
    exact hcall
  · obtain ⟨hregistry, hfinished, hjournal, _⟩ := perform_of_not_isWhole context hwhole s
    exact h.of_same hregistry hfinished hjournal

end Call

namespace Context

variable {context : Context} {s s' : RunState}

/-- Calls one after another leave what was written into the journal. -/
theorem LeadsBy.journal_subset (h : context.LeadsBy Call.Resolves s s') :
    s.journal ⊆ s'.journal := by
  induction h with
  | refl => exact List.Subset.refl _
  | call _ call _ ih => exact List.Subset.trans ih (Call.journal_subset_perform call _)

/-- Calls that resolve references keep what a run keeps. -/
theorem LeadsBy.denotes (h : context.LeadsBy Call.Resolves s s') (hs : s.Denotes context) :
    s'.Denotes context := by
  induction h with
  | refl => exact hs
  | call _ call hcall ih => exact Call.perform_denotes hcall ih

/-- Resolving a reference reads it. -/
theorem classified_mem_resolve (context : Context) (point written : String) (s : RunState) :
    .classified point written ∈ ((context.resolve point (.str written)).run s).2.journal := by
  have hevents : .classified point written ∈ (context.destination point (.str written)).events := by
    rw [destination, referenceScript, bind_assoc, Script.record_bind]
    exact List.mem_cons_self ..
  rw [(Realizes.resolve point (.str written)).state_eq]
  exact List.mem_append_left _ (List.mem_reverse.mpr hevents)

/-- A reference that a call resolves is given its identifier for the rest of the run. -/
theorem Identifies.of_leadsBy {moment : RunState} {point written identifier : String}
    (h : context.LeadsBy Call.Resolves (.initial context) moment)
    (hidentifier : context.identifierFor? moment point written = some identifier)
    (hlater : context.LeadsBy Call.Resolves
      (((Call.resolve point (.str written)).perform context).run moment).2 s) :
    context.Identifies s point written identifier := by
  have hstate : (((Call.resolve point (.str written)).perform context).run moment).2 =
      ((context.resolve point (.str written)).run moment).2 :=
    Run.state_return (context.resolve point (.str written)) (fun _ => []) moment
  obtain ⟨_, hleads⟩ := (h.call (.resolve point (.str written)) trivial).leads
  obtain ⟨_, hleads'⟩ := hlater.leads
  have hsound := (hleads.sound (.initial context)).1
  have hbefore := (hleads'.sound hsound).2.1
  constructor
  · refine hlater.journal_subset ?_
    rw [hstate]
    exact context.classified_mem_resolve point written moment
  · rw [hstate] at hbefore
    exact ⟨moment, hidentifier, hbefore⟩

namespace Identifies

variable {point written identifier point' written' identifier' : String}

/-- An identifier that a reference was given is that of its location. -/
theorem nameFor?_eq (h : context.Identifies s point written identifier) :
    s.registry.nameFor? (Reference.location point written) = some identifier := by
  obtain ⟨moment, hidentifier, hbefore⟩ := h.resolved
  obtain ⟨result, hrun, hresult⟩ : Realizes Resolution.LeadsTo
    (context.resolve point (.str written)) moment (context.destination point (.str written)) :=
      .resolve point (.str written)
  rw [identifierFor?, hrun] at hidentifier
  rw [hrun] at hbefore
  generalize hdestination : (context.destination point (.str written)).result = scripted at hresult
  cases hresult with
  | error failure => cases hidentifier
  | @ok destination resolution hleads =>
    change resolution.identifier? = some identifier at hidentifier
    cases destination with
    | component request =>
      obtain ⟨_, heq, hpath⟩ := destination_component hdestination
      cases heq
      obtain ⟨other, hother, hname⟩ := hleads
      rw [hidentifier] at hother
      cases hother
      rw [hpath, hbefore.left_sound.nameFor?_iff_pathOf?] at hname
      rw [hbefore.right_sound.nameFor?_iff_pathOf?]
      exact hbefore.pathOf? hname
    | place documentPoint path =>
      rw [hleads.1] at hidentifier
      cases hidentifier

/-- References were given one identifier when they lead to one location. -/
theorem eq_iff (h : context.Identifies s point written identifier)
    (h' : context.Identifies s point' written' identifier') (hsound : s.registry.Sound) :
    identifier = identifier' ↔
      Reference.location point written = Reference.location point' written' := by
  have hname := h.nameFor?_eq
  have hname' := h'.nameFor?_eq
  constructor
  · rintro rfl
    rw [hsound.nameFor?_iff_pathOf?] at hname hname'
    exact Option.some.inj (hname.symm.trans hname')
  · intro heq
    rw [heq] at hname
    exact Option.some.inj (hname.symm.trans hname')

end Identifies

/-- What a declaration defines can be converted again when nothing is in flight, with
the same type. -/
theorem Defines.converts {entry : Entry} {d : Declaration}
    (h : context.Defines s.registry entry d) (hsound : s.registry.Sound) :
    ∃ value, context.graph.lookup entry.documentPoint entry.segments = .ok value ∧
      d.description = value.description ∧
      ((context.convert context.graph.entryPoint entry.documentPoint value
        (Pointer.locate "" entry.segments)).run { s with inFlight := [] }).1 = .ok d.type := by
  obtain ⟨value, inFlight, unnamed, hvalue, hdescription, hscript, hnames⟩ := h.converted
  refine ⟨value, hvalue, hdescription, ?_⟩
  have hfree := Conversion.script_ok_of_covers (.watched (List.nil_subset inFlight)) hscript
  obtain ⟨result, hrun, hresult⟩ := Realizes.convertSchema context { s with inFlight := [] }
    entry.documentPoint value (Pointer.locate "" entry.segments) .null
  rw [hfree] at hresult
  cases hresult with
  | ok hnames' =>
    rw [hnames.eq_of_before (.ensureAll hsound _) hnames'] at hrun
    rw [Context.convert, Run.run_reporting, hrun]

/-- A declaration still defines its entry when more schemas are registered. -/
theorem Defines.of_before {r r' : Registry} {entry : Entry} {d : Declaration}
    (h : context.Defines r entry d) (hbefore : r.Before r') : context.Defines r' entry d where
  canonicalPath_eq := h.canonicalPath_eq
  identifier_eq := h.identifier_eq
  converted := by
    obtain ⟨value, inFlight, unnamed, hvalue, hdescription, hscript, hnames⟩ := h.converted
    exact ⟨value, inFlight, unnamed, hvalue, hdescription, hscript, hnames.of_before hbefore⟩

/-- The location of a reference that was given an identifier is registered for it. -/
theorem Identifies.exists_entry {point written identifier : String}
    (h : context.Identifies s point written identifier) (hsound : s.registry.Sound) :
    ∃ entry ∈ s.registry.entries, entry.canonicalPath = Reference.location point written ∧
      entry.identifier = identifier :=
  (hsound.nameFor?_eq_some_iff _ _).mp h.nameFor?_eq

/-- What is declared under the identifier of a reference is what the reference leads to. -/
theorem Defines.declaresTarget {entry : Entry} {d : Declaration} {point written : String}
    (h : context.Defines s.registry entry d) (hsound : s.registry.Sound)
    (hdenotes : s.Denotes context) (hunambiguous : s.Unambiguous point written)
    (hentry : entry ∈ s.registry.entries)
    (hidentifies : context.Identifies s point written entry.identifier) :
    context.DeclaresTarget s point written d := by
  obtain ⟨entry', hentry', hpath, hidentifier⟩ := hidentifies.exists_entry hsound
  obtain rfl := hsound.entry_eq hentry hentry' hidentifier.symm
  obtain ⟨_, current, ref, hread, hlocation, hdocument, hsegments⟩ := hdenotes.entries entry hentry
  -- The reference that the schema was registered for leads to the same place.
  have hsame : Reference.location current ref = Reference.location point written :=
    hlocation.symm.trans hpath
  have hregistered := hunambiguous current ref hread hsame
  have hreference := hunambiguous point written hidentifies.read rfl
  obtain ⟨hsameDocument, hsameSegments⟩ := (hregistered.location_eq_iff hreference).mp hsame
  have hconverts := h.converts hsound
  rwa [hdocument, hsegments, hsameDocument, hsameSegments] at hconverts

end Context

/-- An identifier denotes the target of every reference that was given it, in a run that
registers schemas by resolving references. Two unambiguous references were given the same
identifier exactly when they lead to the same segments of the same document. Whenever
declarations were generated in the run, those under the identifier of a reference declare
what the reference leads to, if all references to its location were unambiguous, and
there is one if the reference was resolved before. -/
theorem identifiers_denote_targets {context : Context} {s : RunState}
    (h : context.LeadsBy Call.Resolves (.initial context) s) :
    (∀ point written identifier point' written' identifier',
      context.Identifies s point written identifier →
      context.Identifies s point' written' identifier' →
      Reference.Unambiguous point written → Reference.Unambiguous point' written' →
      (identifier = identifier' ↔
        Reference.documentOf point written = Reference.documentOf point' written' ∧
          Reference.segments written = Reference.segments written')) ∧
    ∀ before after ds, context.LeadsBy Call.Resolves (.initial context) before →
      context.declarations.run before = (.ok ds, after) →
      context.LeadsBy Call.Resolves after s →
      ∀ point written identifier, context.Identifies s point written identifier →
        (s.Unambiguous point written →
          ∀ d ∈ ds, d.identifier = identifier → context.DeclaresTarget s point written d) ∧
        (context.Identifies after point written identifier →
          ∃ d ∈ ds, d.identifier = identifier) := by
  obtain ⟨_, hleads⟩ := h.leads
  have hsound := (hleads.sound (.initial context)).1.registry
  have hdenotes := h.denotes (.initial context)
  constructor
  · intro point written identifier point' written' identifier' hidentifies hidentifies'
      hreference hreference'
    rw [hidentifies.eq_iff hidentifies' hsound]
    exact hreference.location_eq_iff hreference'
  · intro before after ds hbefore hrun hafter point written identifier hidentifies
    obtain ⟨_, hleadsBefore⟩ := hbefore.leads
    obtain ⟨hdeclared, rfl⟩ := Context.declared_of_declarations_ok
      (hleadsBefore.sound (.initial context)).1 hrun
    obtain ⟨_, hleadsAfter⟩ := hafter.leads
    have hlater := (hleadsAfter.sound hdeclared.later.sound).2.1
    have hprogress := (context.declarations_does before).progress_of_run hrun
    have hkept := (hbefore.denotes (.initial context)).progress hprogress id
    constructor
    · rintro hunambiguous d hd rfl
      obtain ⟨_, _, hfinished⟩ := List.mem_filterMap.mp hd
      obtain ⟨entry, hentry, hdefines⟩ := hkept.finished d (List.mem_of_find?_eq_some hfinished)
      rw [hdefines.identifier_eq] at hidentifies
      exact (hdefines.of_before hlater).declaresTarget hsound hdenotes hunambiguous
        (hlater.entries_isPrefix.subset hentry) hidentifies
    · intro hidentified
      obtain ⟨entry, hentry, _, rfl⟩ := hidentified.exists_entry hdeclared.later.sound.registry
      obtain ⟨d, hd, _, hidentifier⟩ := hdeclared.exists_declaration hentry
      exact ⟨d, List.mem_filterMap.mpr ⟨entry, hentry, hd⟩, hidentifier⟩

/-- A document with two groups of schemas, one of which has a name that starts with a
`#`, beside another document. -/
def Context.pets : Context where
  graph := {
    documents := [
      ("openapi.json", .obj [
        ("definitions", .obj [("Pet", .obj [("type", .str "string")])]),
        ("#definitions", .obj [("Pet", .obj [("type", .str "integer")])])]),
      ("shared.json", .obj [("definitions", .obj [("Pet", .obj [("type", .str "boolean")])])])]
    entryPoint := "openapi.json"
    componentRoot := .str "components"
    componentDirectories := [.str "schemas"] }

namespace RunState

/-- The state after a reference was resolved. -/
def petResolved : RunState :=
  (initial Context.pets).afterCall Context.pets
    (.resolve "openapi.json" (.str "#/definitions/Pet"))

/-- The state after another spelling of the reference, and one in the other document. -/
def petsResolved : RunState :=
  (petResolved.afterCall Context.pets
    (.resolve "openapi.json" (.str "#definitions/Pet/"))).afterCall Context.pets
      (.resolve "shared.json" (.str "#/definitions/Pet"))

/-- The state after the declarations were generated. -/
def petsDeclared : RunState := petsResolved.afterCall Context.pets .declarations

end RunState

/-- Both spellings denote the schema of the first document. The declaration under the
identifier of the third reference is that of the schema of the other document. -/
theorem pets_identifiers_denote_targets :
    Context.pets.Identifies .petsDeclared "openapi.json" "#/definitions/Pet" "Pet" ∧
    Context.pets.Identifies .petsDeclared "openapi.json" "#definitions/Pet/" "Pet" ∧
    Context.pets.Identifies .petsDeclared "shared.json" "#/definitions/Pet" "SharedPet" ∧
    Reference.segments "#/definitions/Pet" = Reference.segments "#definitions/Pet/" ∧
    ∃ ds, Context.pets.declarations.run .petsResolved = (.ok ds, .petsDeclared) ∧
      ∃ d ∈ ds, d.identifier = "SharedPet" ∧
        Context.pets.DeclaresTarget .petsDeclared "shared.json" "#/definitions/Pet" d := by
  have hresolved : Context.pets.LeadsBy Call.Resolves (.initial Context.pets) .petsResolved :=
    .call (.call (.call .refl (.resolve ..) trivial) (.resolve ..) trivial) (.resolve ..) trivial
  have hdeclared : Context.pets.LeadsBy Call.Resolves (.initial Context.pets) .petsDeclared :=
    .call hresolved .declarations trivial
  have hreadings : ∀ reading ∈ RunState.petsDeclared.readings,
      Reference.Unambiguous reading.1 reading.2 := by decide +kernel
  have hunambiguous (point written : String) (hread : .classified point written ∈
      RunState.petsDeclared.journal) : Reference.Unambiguous point written :=
    hreadings _ (RunState.mem_readings.mpr hread)
  have hstate : RunState.petsDeclared = (Context.pets.declarations.run .petsResolved).2 :=
    Run.state_return Context.pets.declarations (List.map (·.type)) .petsResolved
  obtain ⟨ds, hrun⟩ := Run.exists_run_eq_ok (m := Context.pets.declarations)
    (s := .petsResolved) (by decide +kernel)
  rw [← hstate] at hrun
  obtain ⟨hiff, hdeclarations⟩ := identifiers_denote_targets hdeclared
  have hfirst : Context.pets.Identifies .petsDeclared "openapi.json" "#/definitions/Pet" "Pet" :=
    .of_leadsBy .refl (by decide +kernel)
      (.call (.call (.call .refl (.resolve ..) trivial) (.resolve ..) trivial)
        .declarations trivial)
  have hsecond : Context.pets.Identifies .petsDeclared "openapi.json" "#definitions/Pet/" "Pet" :=
    .of_leadsBy (.call .refl (.resolve ..) trivial) (by decide +kernel)
      (.call (.call .refl (.resolve ..) trivial) .declarations trivial)
  have hthird : Context.pets.Identifies .petsDeclared "shared.json" "#/definitions/Pet"
      "SharedPet" :=
    .of_leadsBy (.call (.call .refl (.resolve ..) trivial) (.resolve ..) trivial)
      (by decide +kernel) (.call .refl .declarations trivial)
  obtain ⟨hdeclares, hexists⟩ := hdeclarations _ _ ds hresolved hrun .refl _ _ _ hthird
  obtain ⟨d, hd, hname⟩ := hexists hthird
  obtain ⟨_, hsegments⟩ := (hiff _ _ _ _ _ _ hfirst hsecond (hunambiguous _ _ hfirst.read)
    (hunambiguous _ _ hsecond.read)).mp rfl
  exact ⟨hfirst, hsecond, hthird, hsegments, ds, hrun, d, hd, hname,
    hdeclares (fun current ref hread _ => hunambiguous current ref hread) d hd hname⟩

/-- The name of a primitive type. -/
def TypeExpr.primitive? : TypeExpr → Option String
  | .primitive name => some name
  | _ => none

/-- The state after references to the schemas of one name in both groups. -/
def RunState.petGroupsResolved : RunState :=
  petResolved.afterCall Context.pets (.resolve "openapi.json" (.str "#/#definitions/Pet"))

/-- A `#` before the first segment is dropped from the location, so the references are
given one identifier although they lead to different schemas. -/
theorem pets_groups_share_identifier :
    Context.pets.LeadsBy Call.Resolves (.initial Context.pets) .petGroupsResolved ∧
    Context.pets.Identifies .petGroupsResolved "openapi.json" "#/definitions/Pet" "Pet" ∧
    Context.pets.Identifies .petGroupsResolved "openapi.json" "#/#definitions/Pet" "Pet" ∧
    Reference.segments "#/definitions/Pet" ≠ Reference.segments "#/#definitions/Pet" ∧
    ∃ ds after, Context.pets.declarations.run .petGroupsResolved = (.ok ds, after) ∧
      ds.map (·.identifier) = ["Pet"] ∧
      ∀ d ∈ ds, ¬ Context.pets.DeclaresTarget after "openapi.json" "#/#definitions/Pet" d := by
  refine ⟨.call (.call .refl (.resolve ..) trivial) (.resolve ..) trivial,
    .of_leadsBy .refl (by decide +kernel) (.call .refl (.resolve ..) trivial),
    .of_leadsBy (.call .refl (.resolve ..) trivial) (by decide +kernel) .refl,
    by decide +kernel, ?_⟩
  obtain ⟨ds, hrun⟩ := Run.exists_run_eq_ok (m := Context.pets.declarations)
    (s := .petGroupsResolved) (by decide +kernel)
  have hidentifiers : (Context.pets.declarations.run .petGroupsResolved).1.toOption.map
      (List.map (·.identifier)) = some ["Pet"] := by decide +kernel
  have htypes : (Context.pets.declarations.run .petGroupsResolved).1.toOption.map
      (List.map (·.type.primitive?)) = some [some "string"] := by decide +kernel
  have hvalue : Context.pets.graph.lookup (Reference.documentOf "openapi.json" "#/#definitions/Pet")
      (Reference.segments "#/#definitions/Pet") = .ok (.obj [("type", .str "integer")]) := rfl
  have hconverted : ((Context.pets.convert Context.pets.graph.entryPoint
      (Reference.documentOf "openapi.json" "#/#definitions/Pet") (.obj [("type", .str "integer")])
      (Pointer.locate "" (Reference.segments "#/#definitions/Pet"))).run
        { (Context.pets.declarations.run .petGroupsResolved).2 with inFlight := [] }).1.toOption.map
          TypeExpr.primitive? = some (some "integer") := by decide +kernel
  refine ⟨ds, _, hrun, ?_, ?_⟩
  · rw [hrun] at hidentifiers
    exact Option.some.inj hidentifiers
  · rintro d hd ⟨value, hlookup, _, hconverts⟩
    rw [hvalue] at hlookup
    cases hlookup
    rw [hconverts] at hconverted
    rw [hrun] at htypes
    have hstring : d.type.primitive? ∈ [some "string"] :=
      Option.some.inj htypes ▸ List.mem_map_of_mem hd
    rw [Option.some.inj hconverted] at hstring
    exact absurd hstring (by decide)

end ApiTypes
