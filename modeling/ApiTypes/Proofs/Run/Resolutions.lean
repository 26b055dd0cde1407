import ApiTypes.Proofs.Run.Denotation

/-!
# Registered schemas stay

A schema is registered when a reference to it is resolved, and only after it was
looked up. A reference that cannot be resolved registers nothing, and what was
registered is never changed. So every registered schema can be looked up
whenever its declaration is made, and a reference to a component is resolved to
the same for the rest of a run.
-/

namespace ApiTypes

namespace Script

/-- A script that asks for no name if it fails. -/
def FailsQuietly {α : Type} (script : Script α) : Prop :=
  ∀ failure, script.result = .error failure → script.Quiet

namespace FailsQuietly

variable {α β : Type}

/-- Giving something does not fail. -/
theorem pure (a : α) : (Pure.pure a : Script α).FailsQuietly := nofun

/-- Nothing fails once a name was asked for. -/
theorem named (request : NameRequest) (b : β) :
    (Script.record (.named request) >>= fun _ => Pure.pure b : Script β).FailsQuietly := nofun

/-- A script that asks for no name can come before. -/
theorem bind_quiet {script : Script α} {next : α → Script β} (hquiet : script.Quiet)
    (hnext : ∀ a, (next a).FailsQuietly) : (script >>= next).FailsQuietly := by
  intro failure hfailure
  cases hresult : script.result with
  | error other =>
    rw [bind_of_error hresult]
    exact hquiet
  | ok a =>
    rw [bind_of_ok hresult] at hfailure ⊢
    have hrest : Event.asked (next a).events = [] := hnext a failure hfailure
    rw [Quiet, Event.asked_append, hquiet, hrest]
    rfl

end FailsQuietly

end Script

namespace Context

variable {context : Context} {point : String} {ref : Json} {s s' : RunState}

/-- A reference that leads nowhere asks for no name: what it leads to is looked up
before its name is asked for. -/
theorem destination_failsQuietly (context : Context) (point : String) (ref : Json) :
    (context.destination point ref).FailsQuietly := by
  have hreference : (context.referenceScript point ref).Quiet := by
    cases ref <;> rfl
  refine .bind_quiet hreference fun reference => ?_
  split
  · exact .bind_quiet (.document _) fun _ => .named _ _
  · refine .bind_quiet (.ofExcept _) fun componentDepth => ?_
    split
    · exact .bind_quiet (.lookup _ _) fun _ => .named _ _
    · exact .pure _

/-- A reference that cannot be resolved leaves the registry as it was. -/
theorem resolve_error_registry {failure : Failure}
    (h : (context.resolve point ref).run s = (.error failure, s')) :
    s'.registry = s.registry := by
  obtain ⟨result, hrun, hresult⟩ : Realizes Resolution.LeadsTo (context.resolve point ref) s
    (context.destination point ref) := .resolve point ref
  rw [h] at hrun
  cases hrun
  generalize hscript : (context.destination point ref).result = scripted at hresult
  cases hresult
  exact (context.destination_failsQuietly point ref failure hscript).registry_after s

/-- A path as long as the settings say for a component is that of the component. -/
theorem span_eq_length {settings : Settings} {componentDepth : Int} {reference : Reference}
    (h : settings.namesComponent componentDepth reference) :
    settings.span componentDepth reference.path = reference.path.length := by
  have hdepth : (settings.depthBelowRoot reference.path : Int) = componentDepth :=
    of_decide_eq_true (Bool.and_eq_true_iff.mp h).2
  rw [Settings.span, ← hdepth, Settings.depthBelowRoot]
  cases hpath : reference.path with
  | nil => rfl
  | cons first rest =>
    rw [List.length_cons]
    split <;> omega

/-- The resolution of a reference to a component that is a place in a document and has
an identifier. -/
def namedPlace (context : Context) (reference : Reference) (identifier : String) : Resolution where
  name := identifier
  resolvedName := identifier
  depth := context.settings.depthBelowRoot reference.path
  path := reference.path
  below := []
  kind := reference.kind
  documentPoint := reference.documentPoint
  canonicalPath := reference.canonicalPath
  identifier? := some identifier

/-- The resolution of a reference to a component document that has an identifier. -/
def namedDocument (context : Context) (reference : Reference) (component : Component)
    (identifier : String) : Resolution where
  name := identifier
  resolvedName := identifier
  depth := (Point.parts component.name).length + 1
  path := context.settings.componentRoot.inText :: component.directory ::
    Point.parts component.name
  below := []
  kind := reference.kind
  documentPoint := reference.documentPoint
  canonicalPath := Pointer.locate reference.documentPoint []
  identifier? := some identifier

/-- Only the identifier of a component in a resolution comes from the registry: the
name around a component is its own. -/
theorem resolvePlace_eq_namedPlace {reference : Reference} {resolution : Resolution}
    {identifier : String} (h : (context.resolvePlace reference).run s = (.ok resolution, s'))
    (hidentifier : resolution.identifier? = some identifier) :
    resolution = context.namedPlace reference identifier := by
  obtain ⟨componentDepth, s₁, _, hrest⟩ := Run.exists_of_run_bind_ok h
  rw [Run.run_get_bind] at hrest
  by_cases hcomponent : context.settings.namesComponent componentDepth reference
  · simp only [hcomponent, ↓reduceIte, pure_bind] at hrest
    obtain ⟨_, s₂, _, hrest⟩ := Run.exists_of_run_bind_ok hrest
    obtain ⟨given, s₃, hensure, hrest⟩ := Run.exists_of_run_bind_ok hrest
    rw [Run.run_get_bind] at hrest
    have hspan := span_eq_length hcomponent
    have htake : takeSigned (context.settings.span componentDepth reference.path)
        reference.path = reference.path := by
      simp [takeSigned, hspan]
    have hdrop : dropSigned (context.settings.span componentDepth reference.path)
        reference.path = [] := by
      simp [dropSigned, hspan]
    have hname : s₃.registry.nameFor? reference.canonicalPath = some given := by
      cases hensure
      exact Registry.nameFor?_ensure s₂.registry (context.placeRequest componentDepth reference)
    rw [htake, hdrop, ← Reference.canonicalPath, hname] at hrest
    cases hrest
    cases hidentifier
    rfl
  · simp only [hcomponent, Bool.false_eq_true, ↓reduceIte, pure_bind] at hrest
    rw [Run.run_get_bind] at hrest
    cases hrest
    cases hidentifier

/-- So it is with a component document. -/
theorem resolveComponent_eq_namedDocument {reference : Reference} {component : Component}
    {resolution : Resolution} {identifier : String}
    (h : (context.resolveComponent reference component).run s = (.ok resolution, s'))
    (hidentifier : resolution.identifier? = some identifier) :
    resolution = context.namedDocument reference component identifier := by
  obtain ⟨_, _, _, hrest⟩ := Run.exists_of_run_bind_ok h
  obtain ⟨given, _, _, hrest⟩ := Run.exists_of_run_bind_ok hrest
  cases hrest
  cases hidentifier
  rfl

/-- Two resolutions of one reference to a component that have the same identifier are
the same. -/
theorem resolve_unique {t t' : RunState} {resolution resolution' : Resolution}
    {identifier : String} (h : (context.resolve point ref).run s = (.ok resolution, s'))
    (hidentifier : resolution.identifier? = some identifier)
    (h' : (context.resolve point ref).run t = (.ok resolution', t'))
    (hidentifier' : resolution'.identifier? = some identifier) : resolution' = resolution := by
  obtain ⟨reference, _, hclassify, hresolve⟩ := Run.exists_of_run_bind_ok h
  obtain ⟨reference', _, hclassify', hresolve'⟩ := Run.exists_of_run_bind_ok h'
  -- What a reference is does not depend on the state.
  have hreference (s : RunState) : ((context.classify point ref).run s).1 =
      (context.referenceScript point ref).result := by
    cases ref <;> rfl
  have hread := (hreference s).symm.trans (congrArg Prod.fst hclassify)
  have hread' := (hreference t).symm.trans (congrArg Prod.fst hclassify')
  cases hread.symm.trans hread'
  cases hkind : reference.kind with
  | componentDocument component =>
    simp only [hkind] at hresolve hresolve'
    rw [resolveComponent_eq_namedDocument hresolve hidentifier,
      resolveComponent_eq_namedDocument hresolve' hidentifier']
  | sameDocument =>
    simp only [hkind] at hresolve hresolve'
    rw [resolvePlace_eq_namedPlace hresolve hidentifier,
      resolvePlace_eq_namedPlace hresolve' hidentifier']
  | otherDocument =>
    simp only [hkind] at hresolve hresolve'
    rw [resolvePlace_eq_namedPlace hresolve hidentifier,
      resolvePlace_eq_namedPlace hresolve' hidentifier']

/-- A reference to a component is resolved to the same once its identifier is
registered. -/
theorem resolve_again {resolution : Resolution} {identifier : String}
    (h : (context.resolve point ref).run s = (.ok resolution, s'))
    (hidentifier : resolution.identifier? = some identifier) {later : RunState}
    (hbefore : s'.registry.Before later.registry) :
    ((context.resolve point ref).run later).1 = .ok resolution := by
  obtain ⟨result, hrun, hresult⟩ : Realizes Resolution.LeadsTo (context.resolve point ref) s
    (context.destination point ref) := .resolve point ref
  obtain ⟨result', hrun', hresult'⟩ : Realizes Resolution.LeadsTo (context.resolve point ref)
    later (context.destination point ref) := .resolve point ref
  rw [h] at hrun
  cases hrun
  generalize (context.destination point ref).result = scripted at hresult hresult'
  cases hresult with
  | @ok destination _ hleads =>
    cases hresult' with
    | @ok _ resolution' hleads' =>
      cases destination with
      | place documentPoint path =>
        rw [hleads.1] at hidentifier
        cases hidentifier
      | component request =>
        obtain ⟨given, hgiven, hname⟩ := hleads
        obtain ⟨given', hgiven', hname'⟩ := hleads'
        rw [hidentifier] at hgiven
        cases hgiven
        have hafter : later.registry.Before
            (later.after (context.destination point ref).events).registry :=
          .ensureAll hbefore.right_sound _
        rw [hbefore.left_sound.nameFor?_iff_pathOf?] at hname
        have hkept := hafter.pathOf? (hbefore.pathOf? hname)
        rw [← hafter.right_sound.nameFor?_iff_pathOf?, hname'] at hkept
        cases hkept
        rw [hrun', resolve_unique h hidentifier hrun' hgiven']

end Context

/-- The registry never dangles, and no reference that fails to be resolved leaves a trace
in it. In a run that registers schemas by resolving references, every registered schema
is there when its declaration looks for it, whatever the state. A reference that cannot
be resolved registers nothing, and one that is resolved to a component is resolved to
the same by all later calls, also after other ones that fail. -/
theorem registered_schemas_stand {context : Context} {s : RunState}
    (h : context.LeadsBy Call.Resolves (.initial context) s) :
    (∀ entry ∈ s.registry.entries, ∃ value,
      context.graph.lookup entry.documentPoint entry.segments = .ok value ∧
        ∀ s', ((context.registeredSchema entry).run s').1 = .ok value) ∧
    (∀ point ref failure after,
      (context.resolve point ref).run s = (.error failure, after) →
        after.registry = s.registry) ∧
    ∀ point ref resolution identifier after,
      (context.resolve point ref).run s = (.ok resolution, after) →
      resolution.identifier? = some identifier →
      ∀ later, context.LeadsBy Call.Resolves after later →
        ((context.resolve point ref).run later).1 = .ok resolution := by
  refine ⟨fun entry hentry => ?_, fun _ _ _ _ hfails => Context.resolve_error_registry hfails,
    fun point ref resolution identifier after hresolved hidentifier later hlater => ?_⟩
  · obtain ⟨⟨value, hvalue⟩, _⟩ := (h.denotes (.initial context)).entries entry hentry
    refine ⟨value, hvalue, fun s' => ?_⟩
    rw [Context.registeredSchema_eq_lookup]
    exact hvalue
  · have hstate : (((Call.resolve point ref).perform context).run s).2 = after :=
      (Run.state_return (context.resolve point ref) (fun _ => []) s).trans
        (congrArg Prod.snd hresolved)
    obtain ⟨_, hleads⟩ := (h.call (.resolve point ref) trivial).leads
    obtain ⟨_, hleads'⟩ := hlater.leads
    rw [hstate] at hleads
    have hsound := (hleads.sound (.initial context)).1
    exact Context.resolve_again hresolved hidentifier (hleads'.sound hsound).2.1

/-- The schemas of both documents are there when they are declared. A reference to a
schema that is missing registers nothing, and the first reference is resolved to the
same after the declarations were generated. -/
theorem pets_schemas_stand :
    (∀ entry ∈ RunState.petsDeclared.registry.entries, ∃ value,
      Context.pets.graph.lookup entry.documentPoint entry.segments = .ok value) ∧
    (∃ failure after, (Context.pets.resolve "openapi.json" (.str "#/definitions/Cat")).run
      .petsDeclared = (.error failure, after) ∧ after.registry = RunState.petsDeclared.registry) ∧
    ∃ resolution after, (Context.pets.resolve "openapi.json" (.str "#/definitions/Pet")).run
        (.initial Context.pets) = (.ok resolution, after) ∧
      resolution.identifier? = some "Pet" ∧
      ((Context.pets.resolve "openapi.json" (.str "#/definitions/Pet")).run .petsDeclared).1 =
        .ok resolution := by
  have hlater : Context.pets.LeadsBy Call.Resolves .petResolved .petsDeclared :=
    .call (.call (.call .refl (.resolve ..) trivial) (.resolve ..) trivial) .declarations trivial
  have hdeclared : Context.pets.LeadsBy Call.Resolves (.initial Context.pets) .petsDeclared :=
    .call (.call (.call (.call .refl (.resolve ..) trivial) (.resolve ..) trivial)
      (.resolve ..) trivial) .declarations trivial
  obtain ⟨hentries, herror, _⟩ := registered_schemas_stand hdeclared
  have hinitial : Context.pets.LeadsBy Call.Resolves (.initial Context.pets)
      (.initial Context.pets) := .refl
  obtain ⟨_, _, hagain⟩ := registered_schemas_stand hinitial
  refine ⟨fun entry hentry => ?_, ?_, ?_⟩
  · obtain ⟨value, hvalue, _⟩ := hentries entry hentry
    exact ⟨value, hvalue⟩
  · have hmissing : ((Context.pets.resolve "openapi.json" (.str "#/definitions/Cat")).run
        .petsDeclared).1.toOption.isNone := by decide +kernel
    rcases hrun : (Context.pets.resolve "openapi.json" (.str "#/definitions/Cat")).run
        .petsDeclared with ⟨failure | resolution, after⟩
    · exact ⟨failure, after, rfl, herror _ _ _ _ hrun⟩
    · rw [hrun] at hmissing
      cases hmissing
  · have hname : Context.pets.identifierFor? (.initial Context.pets) "openapi.json"
        "#/definitions/Pet" = some "Pet" := by decide +kernel
    have hstate : RunState.petResolved = ((Context.pets.resolve "openapi.json"
        (.str "#/definitions/Pet")).run (.initial Context.pets)).2 :=
      Run.state_return (Context.pets.resolve "openapi.json" (.str "#/definitions/Pet"))
        (fun _ => []) _
    rw [hstate] at hlater
    rw [Context.identifierFor?] at hname
    rcases hrun : (Context.pets.resolve "openapi.json" (.str "#/definitions/Pet")).run
        (.initial Context.pets) with ⟨failure | resolution, after⟩
    · rw [hrun] at hname
      cases hname
    · rw [hrun] at hname hlater
      exact ⟨resolution, after, rfl, hname, hagain _ _ _ _ _ hrun hname _ hlater⟩

end ApiTypes
