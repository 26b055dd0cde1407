import ApiTypes.Proofs.Run.Operations

/-!
# Registering components and generating declarations

Components are registered by references that are built from the settings, and
declarations are made of what is found at the registered places. Both do no more than
they may. The loop over the registered schemas ends before its allowance, because at
most as many schemas come to be registered as there are locations that references lead
to.
-/

namespace ApiTypes

/-- The entry document has a component of a name in a component directory. -/
structure Context.HasComponent (context : Context) (root directory name : String) : Prop where
  /-- The root of the components. -/
  root_eq : context.settings.componentRoot = .str root
  /-- The directory is one of the component directories. -/
  directory_mem : ∃ directories listed, context.settings.componentDirectories? = some directories ∧
    directories.elements = .ok listed ∧ .str directory ∈ listed
  /-- The name is one of those in the directory below the root. -/
  name_mem : ∃ members components names, context.graph.rootDocument = .obj members ∧
    (Members.get members root).orEmpty = .obj components ∧
    (Members.get components directory).orEmpty.elements = .ok names ∧ .str name ∈ names

/-- The reference to a component of the entry document. -/
def Reference.toComponent (root directory name : String) : String :=
  Pointer.locate "" [root, directory, name]

namespace Run.Does

variable {context : Context} {may : Permission} {s : RunState}

/-- The components with some names are registered by references that may be read. -/
theorem registerAll {directory : Json} {names : List Json}
    (hread : ∀ root directory' name, context.settings.componentRoot = .str root →
      directory = .str directory' → .str name ∈ names →
      may.reads context.graph.entryPoint (Reference.toComponent root directory' name)) :
    Does context may (fun _ _ => True) (context.registerAll directory names) s := by
  induction names generalizing s with
  | nil => exact pure trivial
  | cons name rest ih =>
    unfold Context.registerAll
    split
    · rename_i root directory' name' hroot
      have hbuilt : ∀ written,
          Json.str (Reference.toComponent root directory' name') = .str written →
          may.reads context.graph.entryPoint written := by
        rintro _ ⟨⟩
        exact hread root directory' name' hroot rfl (List.mem_cons_self ..)
      refine (resolve hbuilt).andThen fun _ _ => ?_
      refine (ih fun root directory name hroot hdirectory hmem => ?_).andThen
        fun _ _ => pure trivial
      exact hread root directory name hroot hdirectory (List.mem_cons_of_mem _ hmem)
    · exact throw trivial

/-- So are those in some directories. -/
theorem registerIn {value : Json} {directories : List Json}
    (hread : ∀ root directory name components names, context.settings.componentRoot = .str root →
      .str directory ∈ directories → value = .obj components →
      (Members.get components directory).orEmpty.elements = .ok names → .str name ∈ names →
      may.reads context.graph.entryPoint (Reference.toComponent root directory name)) :
    Does context may (fun _ _ => True) (context.registerIn value directories) s := by
  induction directories generalizing s with
  | nil => exact pure trivial
  | cons directory rest ih =>
    refine (members value).bind fun components _ _ _ hcomponents => ?_
    dsimp only
    split
    · refine throw_bind ?_ _
      trivial
    · refine (ofExcept (Json.gives_elements _).self).bind fun names _ _ _ hnames => ?_
      have hhere : ∀ root directory' name, context.settings.componentRoot = .str root →
          directory = .str directory' → .str name ∈ names →
          may.reads context.graph.entryPoint (Reference.toComponent root directory' name) := by
        rintro root directory' name hroot rfl hmem
        exact hread root directory' name components names hroot (List.mem_cons_self ..)
          hcomponents hnames hmem
      refine (registerAll hhere).andThen fun _ _ => ?_
      refine (ih fun root directory name components names hroot hmem => ?_).andThen
        fun _ _ => pure trivial
      exact hread root directory name components names hroot (List.mem_cons_of_mem _ hmem)

/-- Registering the components of the entry document does no more than it may, when the
references to them may be read. -/
theorem registerComponents
    (hread : ∀ root directory name, context.HasComponent root directory name →
      may.reads context.graph.entryPoint (Reference.toComponent root directory name)) :
    Does context may (fun _ _ => True) context.registerComponents s := by
  refine (members _).bind fun found _ _ _ hfound => ?_
  dsimp only
  split
  · refine throw_bind ?_ _
    trivial
  · refine (ofExcept (gives_present _)).bind fun directories _ _ _ hdirectories => ?_
    refine (ofExcept (Json.gives_elements _).self).bind fun listed _ _ _ hlisted => ?_
    apply registerIn
    intro root directory name components names hroot hdirectory hcomponents hnames hname
    rw [hroot] at hcomponents
    exact hread root directory name ⟨hroot,
      ⟨directories, listed, hdirectories, hlisted, hdirectory⟩,
      ⟨found, components, names, hfound, hcomponents, hnames, hname⟩⟩

end Run.Does

/-- A report does not change how a step ends. -/
theorem Run.run_of_reporting_ok {α : Type} {entryPoint : String} {about : Json} {m : Run α}
    {s s' : RunState} {a : α} (h : (Run.reporting entryPoint about m).run s = (.ok a, s')) :
    m.run s = (.ok a, s') := by
  rw [run_reporting] at h
  split at h
  · cases h
  · exact h

namespace Context

variable {context : Context} {entry : Entry} {s s' : RunState}

/-- The schema of an entry is what is looked up at its segments. -/
theorem registeredSchema_eq_lookup (context : Context) (entry : Entry) :
    context.registeredSchema entry = Run.lookup context entry.documentPoint entry.segments := by
  unfold registeredSchema
  split
  · rename_i hempty
    rw [List.isEmpty_iff.mp hempty, Run.document_eq_lookup]
  · rfl

/-- The declaration of an entry defines what is found at its segments. -/
theorem declare_defines {d : Declaration} (h : (context.declare entry).run s = (.ok d, s')) :
    context.Defines s'.registry entry d := by
  obtain ⟨schema, s₁, hschema, hrest⟩ := Run.exists_of_run_bind_ok h
  obtain ⟨type, s₂, htype, hpure⟩ := Run.exists_of_run_bind_ok hrest
  cases hpure
  have hlookup : context.graph.lookup entry.documentPoint entry.segments = .ok schema := by
    have hrun := Run.run_of_reporting_ok hschema
    rw [registeredSchema_eq_lookup] at hrun
    exact congrArg Prod.fst hrun
  obtain ⟨result, hrun, hresult⟩ := Realizes.convertSchema context s₁ entry.documentPoint schema
    (Pointer.locate "" entry.segments) .null
  have hend := (Run.run_of_reporting_ok htype).symm.trans hrun
  cases hend
  generalize hscript : (Conversion.script context (Conversion.maxNested context schema + 1)
    (some s₁.inFlight) entry.documentPoint .null (Pointer.locate "" entry.segments) schema).result =
      scripted at hresult
  cases hresult with
  | ok hnames =>
    refine ⟨rfl, rfl, schema, s₁.inFlight, _, hlookup, ?_, hscript, hnames⟩
    cases schema <;> rfl

end Context

/-- At most as many schemas are registered as there are locations that references
lead to, when names are asked for these only. -/
theorem RunState.Progress.length_entries_le {context : Context} {may : Permission}
    {s s' : RunState} (h : s.Progress context may s') (hasks : ¬ may.asks) {n : Nat}
    (hatMost : may.reads.AtMost n) :
    s'.registry.entries.length ≤ s.registry.entries.length + n := by
  obtain ⟨requests, hregistry, harise⟩ := h.registry
  have hpaths := Registry.paths_ensureAll s.registry requests
  rw [← hregistry] at hpaths
  obtain ⟨added, hadded, hnodup, hmore⟩ := Registry.exists_appendNew_eq s.registry.paths
    (requests.map (·.canonicalPath))
  have hfresh : may.reads.Fresh [] added := by
    refine ⟨hnodup, nofun, fun path hmem => ?_⟩
    obtain ⟨request, hrequest, rfl⟩ := List.mem_map.mp (hmore path hmem).2
    obtain ⟨point, written, hread, _, hfor⟩ := (harise request hrequest).resolve_left hasks
    exact ⟨point, written, hread, hfor.canonicalPath_eq⟩
  have hlength := congrArg List.length (hpaths.trans hadded)
  have hbound := hatMost added hfresh
  simp only [Registry.paths, List.length_map, List.length_append] at hlength
  omega

namespace Run.Does

variable {context : Context} {may : Permission} {s : RunState}

/-- Declaring a registered schema does no more than it may. -/
theorem declare (hR : may.Suits context) {entry : Entry} (hentry : entry ∈ s.registry.entries) :
    Does context may (fun r d => context.Defines r entry d) (context.declare entry) s := by
  have hopens : may.Opens s.registry entry.documentPoint :=
    .inr (.inr ⟨entry, hentry, rfl⟩)
  have hlookup : Does context may (fun _ value =>
      context.graph.lookup entry.documentPoint entry.segments = .ok value)
      (Run.lookup context entry.documentPoint entry.segments) s := lookup hopens entry.segments
  have hschema := hlookup.reporting context.graph.entryPoint .null
  rw [← Context.registeredSchema_eq_lookup] at hschema
  have hdeclare : Does context may (fun _ _ => True) (context.declare entry) s := by
    refine hschema.bind fun schema _ _ _ hfound => ?_
    exact (convert hR.covers _ (hR.atMost schema) (hR.covers.allows_lookup hfound) _).andThen
      fun _ _ => pure trivial
  exact { hdeclare with
    gives := fun _ hgives => Context.declare_defines (Prod.ext hgives rfl) }

/-- The loop over the registered schemas ends before its allowance when that is
more than the schemas that can come to be registered. -/
theorem declareFrom (hR : may.Suits context) (hmay : may.finishes) {allowance position : Nat}
    (hposition : position ≤ s.registry.entries.length)
    (hallowance : may.exhausts ∨ ∀ s', s.Progress context may s' →
      s'.registry.entries.length < position + allowance) :
    Does context may (fun _ _ => True) (context.declareFrom allowance position) s := by
  induction allowance generalizing s position with
  | zero =>
    refine exhausted (hallowance.imp id fun hbound => ?_)
    exact absurd (hbound s (.refl s)) (Nat.not_lt.mpr hposition)
  | succ allowance ih =>
    unfold Context.declareFrom
    refine get ?_
    split
    · exact pure trivial
    · rename_i entry hentry
      have hlt := (List.getElem?_eq_some_iff.mp hentry).1
      have hmem := List.mem_of_getElem? hentry
      -- What was declared is behind the position, and every later state is one after this one.
      have hrest (s' : RunState) (hprogress : s.Progress context may s') :
          Does context may (fun _ _ => True) (context.declareFrom allowance (position + 1)) s' := by
        refine ih (Nat.le_trans hlt hprogress.entries_isPrefix.length_le)
          (hallowance.imp id fun hbounds s'' hlater => ?_)
        have hbound := hbounds s'' (hprogress.trans hlater)
        omega
      dsimp only
      split
      · refine (declare hR hmem).bind fun d s₁ _ hprogress hdefines => ?_
        refine (finish hmay (hprogress.entries_isPrefix.subset hmem) hdefines).bind
          fun _ s₂ _ hprogress' _ => hrest s₂ (hprogress.trans hprogress')
      · exact hrest s (.refl s)

/-- Generating the declarations does no more than it may. They are those that were
finished before, and declarations of entries. -/
theorem declarations (hR : may.Suits context) (hmay : may.finishes) :
    Does context may (fun r ds => ∀ d ∈ ds, d ∈ s.finished ∨
        ∃ entry ∈ r.entries, context.Defines r entry d) context.declarations s := by
  have hbounds : may.exhausts ∨ ∀ s', s.Progress context may s' → s'.registry.entries.length <
      0 + (s.registry.entries.length + Conversion.maxNested context .null + 1) := by
    refine hR.bounded.imp id fun hbounded s' hprogress => ?_
    have hbound := hprogress.length_entries_le hbounded.1 hbounded.2
    omega
  refine get ?_
  refine (declareFrom hR hmay (Nat.zero_le _) hbounds).bind fun _ s₁ _ hprogress _ => get ?_
  have harises : Event.Arises may s₁.inFlight s₁.registry (.generated s₁.finished.length) :=
    trivial
  refine (record harises).bind fun _ s₂ hrecord _ _ => pure fun d hmem => ?_
  obtain ⟨entry, _, hfinished⟩ := List.mem_filterMap.mp hmem
  obtain rfl : _ = s₂ := congrArg Prod.snd hrecord
  exact hprogress.mem_finished (List.mem_of_find?_eq_some hfinished)

end Run.Does

end ApiTypes
