import ApiTypes.Proofs.Document.Place
import ApiTypes.Proofs.Run.Resolutions

/-!
# Registered components

The components of the entry document are registered by references that are written for
them and read again. Everything in a key is escaped and comes back, but a key that is empty
does not: the slash before it is taken for the end of the pointer, and what is left of the
reference names no component.
-/

namespace ApiTypes

/-- The value of a key of an object, `null` when there is none. -/
def Json.atKey (value : Json) (key : String) : Json := Members.get (value.members?.getD []) key

/-- What counts as an empty object has no keys. -/
theorem Json.atKey_of_orEmpty {value : Json} {members : Members}
    (h : value.orEmpty = .obj members) (key : String) :
    value.atKey key = Members.get members key := by
  unfold Json.orEmpty at h
  split at h
  · rw [h]
    rfl
  · rename_i hfalsy
    cases h
    cases value with
    | obj members =>
      cases members with
      | nil => rfl
      | cons => exact absurd rfl hfalsy
    | _ => rfl

/-- The keys of an object, or of what counts as an empty one. -/
theorem Json.elements_orEmpty {value : Json}
    (h : value.truthy → ∃ members, value = .obj members) :
    value.orEmpty.elements =
      .ok (((value.members?.getD []).map Prod.fst).map Json.str) := by
  unfold Json.orEmpty
  split
  · rename_i htruthy
    obtain ⟨members, rfl⟩ := h htruthy
    simp [elements, members?]
  · rename_i hfalsy
    cases value with
    | obj members =>
      cases members with
      | nil => rfl
      | cons => exact absurd rfl hfalsy
    | _ => rfl

namespace Context

variable {context : Context} {s s' : RunState}

/-- A component directory of the entry document. -/
def directory (context : Context) (name : String) : Json :=
  (context.graph.rootDocument.atKey "components").atKey name

/-- The components of the entry document, each as its directory and its key, in the order of
the directories and of the document. -/
def componentKeys (context : Context) (directories : List Json) : List (String × String) :=
  directories.flatMap fun directory => match directory with
    | .str name => (((context.directory name).members?.getD []).map Prod.fst).map fun key =>
      (name, key)
    | _ => []

/-- The segments that lead to a component. -/
def componentSegments (directory key : String) : List String := ["components", directory, key]

/-- The canonical path of a component of the entry document. -/
def componentPath (context : Context) (directory key : String) : String :=
  Pointer.locate (Point.normalize context.graph.entryPoint) (componentSegments directory key)

/-- The entry of a component of the entry document. -/
def componentEntry (context : Context) (directory key identifier : String) : Entry where
  canonicalPath := context.componentPath directory key
  identifier
  documentPoint := Point.normalize context.graph.entryPoint
  segments := componentSegments directory key

/-- A component, given as its directory and its key, has the identifier, which stands for
its entry. A component whose key is empty has none. -/
def Registers (context : Context) (r : Registry) (component : String × String)
    (identifier? : Option String) : Prop :=
  if component.2 = "" then identifier? = none
  else ∃ identifier, identifier? = some identifier ∧
    r.pathOf? identifier = some (context.componentPath component.1 component.2) ∧
    r.find? (context.componentPath component.1 component.2) =
      some (context.componentEntry component.1 component.2 identifier)

/-- What is registered under the path of a component is the component. -/
def PlacesComponents (context : Context) (r : Registry) : Prop :=
  ∀ entry ∈ r.entries, ∀ directory key,
    entry.canonicalPath = context.componentPath directory key →
    entry = context.componentEntry directory key entry.identifier

/-- The references that were read and have the location of a component lead to it. -/
def LocatesComponents (context : Context) (s : RunState) : Prop :=
  ∀ point written directory key, .classified point written ∈ s.journal →
    Reference.location point written = context.componentPath directory key →
    Reference.documentOf point written = Point.normalize context.graph.entryPoint ∧
      Reference.segments written = componentSegments directory key

theorem plain_componentSegments (directory key : String) :
    Pointer.Plain (componentSegments directory key) := by
  simp only [componentSegments, Pointer.Plain]
  decide

/-! ### Reading the reference to a component -/

/-- The place in the document at a point that a reference without a document part names. -/
def localReference (point written : String) : Reference where
  written
  currentPoint := Point.normalize point
  kind := .sameDocument
  documentPoint := Point.normalize point
  path := Pointer.split written

/-- The reference to a component as it should be read. -/
def componentReference (context : Context) (directory key : String) : Reference :=
  { localReference context.graph.entryPoint (Reference.toComponent "components" directory key) with
    path := componentSegments directory key }

/-- The reference to a component is read as its segments, unless the key is empty. -/
theorem split_toComponent {directory key : String} (h : key ≠ "") :
    Pointer.split (Reference.toComponent "components" directory key) =
      componentSegments directory key := by
  have hsplit := Pointer.split_locate (plain_componentSegments directory key)
  rw [List.rdropWhile_eq_self_iff.mpr] at hsplit
  · exact hsplit
  · simpa [componentSegments] using h

theorem localReference_toComponent {directory key : String} (h : key ≠ "") :
    localReference context.graph.entryPoint (Reference.toComponent "components" directory key) =
      context.componentReference directory key := by
  rw [componentReference, localReference, split_toComponent h]

/-- The reference to a component whose key is empty is too short for a component. -/
theorem split_toComponent_empty (directory : String) :
    ∃ others : List String, others.length ≤ 1 ∧
      Pointer.split (Reference.toComponent "components" directory "") = "components" :: others := by
  have hsplit := Pointer.split_locate (plain_componentSegments directory "")
  have hdrop : (componentSegments directory "").rdropWhile (·.isEmpty) =
      ["components", directory].rdropWhile (·.isEmpty) :=
    List.rdropWhile_concat_pos _ ["components", directory] "" rfl
  have hfirst : "components" ≠ "" := by decide
  obtain ⟨others, hothers⟩ := Pointer.exists_rdropWhile_eq_cons hfirst [directory]
  have hlength := (List.rdropWhile_prefix (·.isEmpty) ["components", directory]).length_le
  rw [hothers] at hlength hdrop
  refine ⟨others, by simpa using hlength, ?_⟩
  rw [← hdrop]
  exact hsplit

/-- A resolution asks for the name of a component and nothing else. -/
def Asks (context : Context) (componentDepth : Int) (reference : Reference) (s s' : RunState)
    (resolution : Resolution) : Prop :=
  let request := context.placeRequest componentDepth reference
  resolution.identifier? = some (s.registry.ensure request).1 ∧
    s'.registry = (s.registry.ensure request).2

/-- A resolution asks for no name. -/
def AsksNothing (s s' : RunState) (resolution : Resolution) : Prop :=
  resolution.identifier? = none ∧ s'.registry = s.registry

/-- A resolved reference to a place asks for a name exactly if it names a component. -/
theorem asks_of_resolvePlace_ok {reference : Reference} {componentDepth : Int}
    {resolution : Resolution} (hdepth : context.settings.depth = .ok componentDepth)
    (h : (context.resolvePlace reference).run s = (.ok resolution, s')) :
    (context.settings.namesComponent componentDepth reference = true →
      context.Asks componentDepth reference s s' resolution) ∧
    (context.settings.namesComponent componentDepth reference = false →
      AsksNothing s s' resolution) := by
  obtain ⟨depth, s₁, hread, hrest⟩ := Run.exists_of_run_bind_ok h
  rw [hdepth] at hread
  cases hread
  rw [Run.run_get_bind] at hrest
  constructor
  · intro hcomponent
    simp only [hcomponent, ↓reduceIte, pure_bind] at hrest
    obtain ⟨_, s₂, hlookup, hrest⟩ := Run.exists_of_run_bind_ok hrest
    obtain ⟨given, s₃, hensure, hrest⟩ := Run.exists_of_run_bind_ok hrest
    rw [Run.run_get_bind] at hrest
    have hregistry : s.registry = s₂.registry := congrArg (·.2.registry) hlookup
    cases hrest
    cases hensure
    rw [Asks, hregistry]
    exact ⟨rfl, rfl⟩
  · intro hcomponent
    simp only [hcomponent, Bool.false_eq_true, ↓reduceIte, pure_bind] at hrest
    rw [Run.run_get_bind] at hrest
    cases hrest
    exact ⟨rfl, rfl⟩

/-- So does a resolved reference without a document part. -/
theorem asks_of_resolve_ok {point written : String} (hhead : written.toList.head? = some '#')
    {componentDepth : Int} {resolution : Resolution}
    (hdepth : context.settings.depth = .ok componentDepth)
    (h : (context.resolve point (.str written)).run s = (.ok resolution, s')) :
    (context.settings.namesComponent componentDepth (localReference point written) = true →
      context.Asks componentDepth (localReference point written) s s' resolution) ∧
    (context.settings.namesComponent componentDepth (localReference point written) = false →
      AsksNothing s s' resolution) := by
  have hread : Reference.classify context.graph point written =
      .ok (localReference point written) := by
    rw [Reference.classify, if_pos hhead]
    rfl
  have hclassify : (context.classify point (.str written)).run s =
      (Reference.classify context.graph point written,
        { s with journal := .classified point written :: s.journal }) := rfl
  rw [hread] at hclassify
  rw [resolve, Run.run_bind_of_ok hclassify] at h
  exact asks_of_resolvePlace_ok
    (s := { s with journal := .classified point written :: s.journal }) hdepth h

/-- The depth of a path below the root does not count the root. -/
theorem depthBelowRoot_cons (hroot : context.settings.componentRoot = .str "components")
    (others : List String) :
    context.settings.depthBelowRoot ("components" :: others) = others.length := by
  simp [Settings.depthBelowRoot, Settings.isUnderRoot, hroot, Json.isText]

/-- The reference to a component asks for it, unless the key is empty. -/
theorem asks_of_resolve_component_ok (hroot : context.settings.componentRoot = .str "components")
    (hdepth : context.settings.componentDepth = .int 2) {directory key : String}
    {resolution : Resolution}
    (h : (context.resolve context.graph.entryPoint
      (.str (Reference.toComponent "components" directory key))).run s = (.ok resolution, s')) :
    (key = "" → AsksNothing s s' resolution) ∧
    (key ≠ "" → context.Asks 2 (context.componentReference directory key) s s' resolution) := by
  have hhead : (Reference.toComponent "components" directory key).toList.head? = some '#' := by
    have hwritten := Pointer.toList_locate "" (plain_componentSegments directory key)
    rw [Reference.toComponent, ← componentSegments, hwritten]
    rfl
  have hcount : context.settings.depth = .ok 2 := by
    rw [Settings.depth, hdepth]
    rfl
  obtain ⟨hasks, hnothing⟩ := asks_of_resolve_ok hhead hcount h
  constructor
  · rintro rfl
    obtain ⟨others, hlength, hsplit⟩ := split_toComponent_empty directory
    refine hnothing ?_
    have hdepth : context.settings.depthBelowRoot (Pointer.split
        (Reference.toComponent "components" directory "")) = others.length := by
      rw [hsplit, depthBelowRoot_cons hroot]
    have htooShort : (others.length : Int) ≠ 2 := by omega
    simp [Settings.namesComponent, localReference, hdepth, htooShort]
  · intro hkey
    rw [localReference_toComponent hkey] at hasks
    refine hasks ?_
    have hdepth : context.settings.depthBelowRoot (componentSegments directory key) = 2 :=
      depthBelowRoot_cons hroot [directory, key]
    simp [Settings.namesComponent, componentReference, localReference, hdepth]

/-! ### Registering components one after another -/

/-- What is registered for a component stays registered. -/
theorem Registers.of_before {r r' : Registry} {component : String × String}
    {identifier? : Option String} (h : context.Registers r component identifier?)
    (hbefore : r.Before r') : context.Registers r' component identifier? := by
  unfold Registers at h ⊢
  split
  · rename_i hkey
    rwa [if_pos hkey] at h
  · rename_i hkey
    rw [if_neg hkey] at h
    obtain ⟨identifier, hidentifier, hpath, hfind⟩ := h
    refine ⟨identifier, hidentifier, hbefore.pathOf? hpath, ?_⟩
    obtain ⟨hentry, hkeys⟩ := (hbefore.left_sound.find?_eq_some_iff _ _).mp hfind
    exact (hbefore.right_sound.find?_eq_some_iff _ _).mpr
      ⟨hbefore.entries_isPrefix.subset hentry, hkeys⟩

/-- Asking for a component leaves nothing else under the path of a component. -/
theorem PlacesComponents.ensure {r : Registry} (hplaces : context.PlacesComponents r)
    (directory key : String) : context.PlacesComponents
      (r.ensure (context.placeRequest 2 (context.componentReference directory key))).2 := by
  intro entry hentry directory' key' hpath
  rcases r.ensure_cases (context.placeRequest 2 (context.componentReference directory key)) with
    ⟨_, _, heq⟩ | ⟨_, heq⟩
  · rw [heq] at hentry
    exact hplaces entry hentry directory' key' hpath
  · rw [heq] at hentry
    rcases List.mem_append.mp hentry with hentry | hentry
    · exact hplaces entry hentry directory' key' hpath
    · obtain rfl := List.mem_singleton.mp hentry
      have hsegments := Pointer.locate_segments_injective (plain_componentSegments directory key)
        (plain_componentSegments directory' key') hpath
      obtain ⟨rfl, rfl⟩ : directory = directory' ∧ key = key' := by
        simpa [componentSegments] using hsegments
      rfl

/-- A name for the path of a component stands for the component. -/
theorem PlacesComponents.registers {r : Registry} (hplaces : context.PlacesComponents r)
    (hsound : r.Sound) {directory key identifier : String} (hkey : key ≠ "")
    (hname : r.nameFor? (context.componentPath directory key) = some identifier) :
    context.Registers r (directory, key) (some identifier) := by
  obtain ⟨entry, hentry, hpath, rfl⟩ := (hsound.nameFor?_eq_some_iff _ _).mp hname
  have hcomponent := hplaces entry hentry directory key hpath
  rw [Registers, if_neg hkey]
  refine ⟨entry.identifier, rfl, ?_, ?_⟩
  · exact (hsound.pathOf?_eq_some_iff _ _).mpr ⟨entry, hentry, hpath, rfl⟩
  · exact (hsound.find?_eq_some_iff _ _).mpr ⟨hcomponent ▸ hentry, rfl⟩

/-- Asking for a component registers it, and nothing else under its path. -/
theorem Asks.registers {resolution : Resolution} {directory key : String}
    (h : context.Asks 2 (context.componentReference directory key) s s' resolution)
    (hsound : s.registry.Sound) (hplaces : context.PlacesComponents s.registry)
    (hkey : key ≠ "") :
    s.registry.Before s'.registry ∧ context.PlacesComponents s'.registry ∧
      context.Registers s'.registry (directory, key) resolution.identifier? := by
  obtain ⟨hidentifier, hregistry⟩ := h
  rw [hidentifier, hregistry]
  have hbefore := Registry.Before.ensureAll hsound
    [context.placeRequest 2 (context.componentReference directory key)]
  have hplaced := hplaces.ensure directory key
  have hname := s.registry.nameFor?_ensure
    (context.placeRequest 2 (context.componentReference directory key))
  exact ⟨hbefore, hplaced, hplaced.registers hbefore.right_sound hkey hname⟩

/-- Registered components of a directory, or of all directories, are registered in the end. -/
structure RegistersAll (context : Context) (s s' : RunState) (components : List (String × String))
    (identifiers : List (Option String)) : Prop where
  /-- Entries are only added. -/
  before : s.registry.Before s'.registry
  /-- Nothing else is registered under the path of a component. -/
  places : context.PlacesComponents s'.registry
  /-- Every component is registered, in order. -/
  registers : List.Forall₂ (context.Registers s'.registry) components identifiers

theorem RegistersAll.refl (hsound : s.registry.Sound)
    (hplaces : context.PlacesComponents s.registry) : context.RegistersAll s s [] [] :=
  ⟨.refl hsound, hplaces, .nil⟩

theorem RegistersAll.append {s'' : RunState} {components components' : List (String × String)}
    {identifiers identifiers' : List (Option String)}
    (h : context.RegistersAll s s' components identifiers)
    (h' : context.RegistersAll s' s'' components' identifiers') :
    context.RegistersAll s s'' (components ++ components') (identifiers ++ identifiers') where
  before := h.before.trans h'.before
  places := h'.places
  registers := by
    have hkept := h.registers.imp fun _ _ hregisters => hregisters.of_before h'.before
    exact List.rel_append hkept h'.registers

/-- A key is registered by resolving the reference to the component. -/
theorem registerAll_cons {root : String} (hroot : context.settings.componentRoot = .str root)
    (directory key : String) (rest : List Json) :
    context.registerAll (.str directory) (.str key :: rest) = do
      let resolution ← context.resolve context.graph.entryPoint
        (.str (Reference.toComponent root directory key))
      let others ← context.registerAll (.str directory) rest
      return resolution.identifier? :: others := by
  conv_lhs => rw [registerAll.eq_def]
  simp only
  split
  · rename_i hroot' hdirectory hname
    rw [hroot] at hroot'
    cases hroot'
    cases hdirectory
    cases hname
    rfl
  · rename_i hnone
    exact absurd rfl (hnone root directory key hroot rfl)

/-- A component directory is registered before those after it. -/
theorem exists_of_registerIn_ok {components directory : Json} {rest : List Json}
    {identifiers : List (Option String)}
    (h : (context.registerIn components (directory :: rest)).run s = (.ok identifiers, s')) :
    ∃ members names here others s₁, components = .obj members ∧
      (match directory with
        | .str key => Members.get members key
        | _ => .null).orEmpty.elements = .ok names ∧
      (context.registerAll directory names).run s = (.ok here, s₁) ∧
      (context.registerIn components rest).run s₁ = (.ok others, s') ∧
      identifiers = here ++ others := by
  rw [registerIn] at h
  obtain ⟨members, s₁, hmembers, h⟩ := Run.exists_of_run_bind_ok h
  cases components with
  | obj found =>
    cases hmembers
    cases hkey : directory.isKey with
    | false =>
      simp only [hkey, Bool.not_false, ↓reduceIte] at h
      cases h
    | true =>
      simp only [hkey, Bool.not_true, Bool.false_eq_true, ↓reduceIte] at h
      obtain ⟨names, s₁, hnames, h⟩ := Run.exists_of_run_bind_ok h
      obtain ⟨here, s₂, hhere, h⟩ := Run.exists_of_run_bind_ok h
      obtain ⟨others, s₃, hothers, h⟩ := Run.exists_of_run_bind_ok h
      cases h
      have hread := congrArg Prod.fst hnames
      have hstate : s = s₁ := congrArg Prod.snd hnames
      rw [← hstate] at hhere
      exact ⟨members, names, here, others, s₂, rfl, hread, hhere, hothers, rfl⟩
  | _ => cases hmembers

section

variable (hroot : context.settings.componentRoot = .str "components")
  (hdepth : context.settings.componentDepth = .int 2)
include hroot hdepth

/-- The keys of a component directory are registered one after another. -/
theorem registerAll_ok {directory : String} {keys : List String}
    {identifiers : List (Option String)} (hsound : s.registry.Sound)
    (hplaces : context.PlacesComponents s.registry)
    (h : (context.registerAll (.str directory) (keys.map .str)).run s = (.ok identifiers, s')) :
    context.RegistersAll s s' (keys.map fun key => (directory, key)) identifiers := by
  induction keys generalizing s identifiers with
  | nil =>
    cases h
    exact .refl hsound hplaces
  | cons key rest ih =>
    rw [List.map_cons, registerAll_cons hroot] at h
    obtain ⟨resolution, s₁, hresolve, hrest⟩ := Run.exists_of_run_bind_ok h
    obtain ⟨others, s₂, hothers, hrest⟩ := Run.exists_of_run_bind_ok hrest
    cases hrest
    obtain ⟨hnothing, hasks⟩ := asks_of_resolve_component_ok hroot hdepth hresolve
    have hfirst : context.RegistersAll s s₁ [(directory, key)] [resolution.identifier?] := by
      by_cases hkey : key = ""
      · obtain ⟨hidentifier, hregistry⟩ := hnothing hkey
        have hregisters : context.Registers s₁.registry (directory, key)
            resolution.identifier? := by
          rw [Registers, if_pos hkey]
          exact hidentifier
        rw [← hregistry] at hsound hplaces
        exact ⟨hregistry ▸ .refl hsound, hplaces, .cons hregisters .nil⟩
      · obtain ⟨hbefore, hplaced, hregisters⟩ := (hasks hkey).registers hsound hplaces hkey
        exact ⟨hbefore, hplaced, .cons hregisters .nil⟩
    exact hfirst.append (ih hfirst.before.right_sound hfirst.places hothers)

/-- The component directories are registered one after another. -/
theorem registerIn_ok {directories : List Json} {identifiers : List (Option String)}
    (hmappings : ∀ name, .str name ∈ directories → (context.directory name).truthy →
      ∃ members, context.directory name = .obj members)
    (hsound : s.registry.Sound) (hplaces : context.PlacesComponents s.registry)
    (h : (context.registerIn (context.graph.rootDocument.atKey "components").orEmpty
      directories).run s = (.ok identifiers, s')) :
    context.RegistersAll s s' (context.componentKeys directories) identifiers := by
  induction directories generalizing s identifiers with
  | nil =>
    cases h
    exact .refl hsound hplaces
  | cons directory rest ih =>
    obtain ⟨members, names, here, others, s₁, hcomponents, hnames, hhere, hothers, rfl⟩ :=
      exists_of_registerIn_ok h
    have hfirst : context.RegistersAll s s₁ (context.componentKeys [directory]) here := by
      cases directory with
      | str name =>
        have hvalue : Members.get members name = context.directory name :=
          (Json.atKey_of_orEmpty hcomponents name).symm
        change (Members.get members name).orEmpty.elements = .ok names at hnames
        rw [hvalue, Json.elements_orEmpty (hmappings name (List.mem_cons_self ..))] at hnames
        cases hnames
        simpa [componentKeys] using registerAll_ok hroot hdepth hsound hplaces hhere
      | _ =>
        cases hnames
        cases hhere
        exact .refl hsound hplaces
    have hrest := ih (fun name hmem => hmappings name (List.mem_cons_of_mem _ hmem))
      hfirst.before.right_sound hfirst.places hothers
    have hkeys : context.componentKeys (directory :: rest) =
        context.componentKeys [directory] ++ context.componentKeys rest := by
      simp [componentKeys]
    rw [hkeys]
    exact hfirst.append hrest

/-- All components of the entry document are registered. -/
theorem registerComponents_ok {directories : List Json} {identifiers : List (Option String)}
    (hdirectories : context.settings.componentDirectories? = some (.arr directories))
    (hmappings : ∀ name, .str name ∈ directories → (context.directory name).truthy →
      ∃ members, context.directory name = .obj members)
    (hsound : s.registry.Sound) (hplaces : context.PlacesComponents s.registry)
    (h : context.registerComponents.run s = (.ok identifiers, s')) :
    context.RegistersAll s s' (context.componentKeys directories) identifiers := by
  obtain ⟨members, s₁, hmembers, h⟩ := Run.exists_of_run_bind_ok h
  have hread := congrArg Prod.fst hmembers
  have hstate : s = s₁ := congrArg Prod.snd hmembers
  change context.graph.rootDocument.members = .ok members at hread
  have hdocument : context.graph.rootDocument = .obj members := by
    cases hvalue : context.graph.rootDocument with
    | obj found =>
      rw [hvalue] at hread
      cases hread
      rfl
    | _ =>
      rw [hvalue] at hread
      cases hread
  have hcomponents : Members.get members "components" =
      context.graph.rootDocument.atKey "components" := by
    rw [hdocument]
    rfl
  have hlisted : context.settings.componentDirectories = .ok (.arr directories) := by
    rw [Settings.componentDirectories, hdirectories]
    rfl
  rw [← hstate] at h
  simp only [hroot, hlisted, hcomponents] at h
  exact registerIn_ok hroot hdepth hmappings hsound hplaces h

end

/-- In a run that registers schemas by resolving references, only the component is registered
under its path if the references that were read say so. -/
theorem LocatesComponents.places (hlocates : context.LocatesComponents s)
    (h : s.Denotes context) : context.PlacesComponents s.registry := by
  intro entry hentry directory key hpath
  obtain ⟨_, point, written, hread, hlocation, hdocument, hsegments⟩ := h.entries entry hentry
  obtain ⟨hpoint, hplace⟩ := hlocates point written directory key hread
    (hlocation.symm.trans hpath)
  obtain ⟨canonicalPath, identifier, documentPoint, segments⟩ := entry
  simp only [componentEntry, Entry.mk.injEq] at hpath hdocument hsegments ⊢
  exact ⟨hpath, trivial, hdocument.trans hpoint, hsegments.trans hplace⟩

/-- References whose locations can be read back lead to the component that they locate. -/
theorem LocatesComponents.of_unambiguous
    (hpoint : '#' ∉ (Point.normalize context.graph.entryPoint).toList)
    (h : ∀ reading ∈ s.readings, Reference.Unambiguous reading.1 reading.2) :
    context.LocatesComponents s := by
  intro point written directory key hread hlocation
  have hunambiguous := h (point, written) (RunState.mem_readings.mpr hread)
  exact Pointer.locate_injective hunambiguous.hash_not_mem hpoint hunambiguous.plain.segments
    (plain_componentSegments directory key) hlocation

end Context

/-- Registering components misses none of them but those whose key is empty. In a run that
registers schemas by resolving references, with the default root and depth of components and
any list of component directories, each of which is an object or counts as empty: if all
components of the entry document are registered, then every key of every directory, in
order, has an identifier in the result, and the registry has for that identifier the entry
document and the segments of the component. Only an empty key has no identifier. No
reference that was read before may have the location of a component without leading to it,
which is so when nothing was read. -/
theorem components_registered {context : Context} {s s' : RunState} {directories : List Json}
    {identifiers : List (Option String)}
    (h : context.LeadsBy Call.Resolves (.initial context) s)
    (hlocates : context.LocatesComponents s)
    (hroot : context.settings.componentRoot = .str "components")
    (hdepth : context.settings.componentDepth = .int 2)
    (hdirectories : context.settings.componentDirectories? = some (.arr directories))
    (hmappings : ∀ name, .str name ∈ directories → (context.directory name).truthy →
      ∃ members, context.directory name = .obj members)
    (hrun : context.registerComponents.run s = (.ok identifiers, s')) :
    List.Forall₂ (context.Registers s'.registry) (context.componentKeys directories)
      identifiers := by
  obtain ⟨_, hleads⟩ := h.leads
  have hsound := (hleads.sound (.initial context)).1.registry
  have hplaces := hlocates.places (h.denotes (.initial context))
  exact (Context.registerComponents_ok hroot hdepth hdirectories hmappings hsound hplaces
    hrun).registers

/-- Documents with components in two directories, some with keys that need to be escaped. -/
def Context.catalog : Context where
  graph := {
    documents := [
      ("openapi.json", .obj [("components", .obj [
        ("schemas", .obj [("a/b~c#", .obj []), ("0", .obj []), ("", .obj [])]),
        ("responses", .null),
        ("parameters", .obj [("0", .obj [])])])]),
      ("shared.json", .obj [("schemas", .obj [("0", .bool true)])])]
    entryPoint := "openapi.json"
    componentRoot := .str "components"
    componentDirectories := [] }
  settings := {
    componentDirectories? := some (.arr [.str "schemas", .str "responses", .str "parameters"]) }

/-- The state after a reference to a schema in the other document. -/
def RunState.catalogResolved : RunState :=
  (initial .catalog).afterCall .catalog (.resolve "shared.json" (.str "#/schemas/0"))

/-- All keys but the empty one are registered, beside the schema of the other document. -/
theorem catalog_components_registered : ∃ identifiers s',
    Context.catalog.registerComponents.run .catalogResolved = (.ok identifiers, s') ∧
    identifiers = [some "a_b_c_", some "_02", none, some "_03"] ∧
    List.Forall₂ (Context.catalog.Registers s'.registry)
      [("schemas", "a/b~c#"), ("schemas", "0"), ("schemas", ""), ("parameters", "0")]
      identifiers := by
  have hleads : Context.catalog.LeadsBy Call.Resolves (.initial .catalog) .catalogResolved :=
    .call .refl (.resolve ..) trivial
  have hlocates : Context.catalog.LocatesComponents .catalogResolved :=
    .of_unambiguous (by decide +kernel) (by decide +kernel)
  obtain ⟨identifiers, hrun⟩ := Run.exists_run_eq_ok (m := Context.catalog.registerComponents)
    (s := .catalogResolved) (by decide +kernel)
  have hidentifiers : (Context.catalog.registerComponents.run .catalogResolved).1.toOption =
      some [some "a_b_c_", some "_02", none, some "_03"] := by decide +kernel
  rw [hrun] at hidentifiers
  refine ⟨identifiers, _, hrun, Option.some.inj hidentifiers, ?_⟩
  refine components_registered hleads hlocates rfl rfl rfl (fun name hname htruthy => ?_) hrun
  have hnames : name = "schemas" ∨ name = "responses" ∨ name = "parameters" := by
    simpa using hname
  rcases hnames with rfl | rfl | rfl
  · exact ⟨_, rfl⟩
  · cases htruthy
  · exact ⟨_, rfl⟩

/-- A document with a component whose key is empty. -/
def Context.emptyKey : Context where
  graph := {
    documents := [("openapi.json", .obj [("components", .obj [("schemas", .obj [
      ("", .obj [("type", .str "string")])])])])]
    entryPoint := "openapi.json"
    componentRoot := .str "components"
    componentDirectories := [.str "schemas"] }

/-- The component is the only one, and nothing is registered for it. -/
theorem emptyKey_not_registered :
    Context.emptyKey.componentKeys [.str "schemas"] = [("schemas", "")] ∧
    ∃ s', Context.emptyKey.registerComponents.run (.initial .emptyKey) = (.ok [none], s') ∧
      s'.registry.entries = [] := by
  have hregistry :
      (Context.emptyKey.registerComponents.run (.initial .emptyKey)).2.registry.entries = [] := by
    decide +kernel
  obtain ⟨identifiers, hrun⟩ := Run.exists_run_eq_ok (m := Context.emptyKey.registerComponents)
    (s := .initial .emptyKey) (by decide +kernel)
  have hidentifiers : (Context.emptyKey.registerComponents.run (.initial .emptyKey)).1.toOption =
      some [none] := by decide +kernel
  rw [hrun] at hidentifiers
  obtain rfl : identifiers = [none] := Option.some.inj hidentifiers
  exact ⟨rfl, _, hrun, hregistry⟩

end ApiTypes
