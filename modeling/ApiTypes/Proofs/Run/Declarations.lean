import ApiTypes.Proofs.Conversion.Independence

/-!
# Declarations are a breadth-first closure

A conversion that succeeds registers the components in its type that are new,
in the order in which they first occur. Declaring the registered schemas one
after another therefore visits, breadth first, everything that is mentioned.
-/

namespace ApiTypes

/-- What a conversion that gave a type has registered: the canonical paths of
the components in it, in the order of their first occurrences, where they were
not registered before. -/
structure Registers (r : Registry) (type : TypeExpr) (r' : Registry) : Prop where
  /-- Every component in the type has a canonical path. -/
  registered : ∀ identifier ∈ type.components, ∃ path, r'.pathOf? identifier = some path
  /-- The new paths follow those that were registered. -/
  paths_eq : r'.paths = Registry.appendNew r.paths (r'.pathsOf type)
  /-- The entries that were registered are as before. -/
  entries_isPrefix : r.entries <+: r'.entries

/-- A conversion that succeeds registers what occurs in its type. -/
theorem Context.IsConversion.registers {context : Context} {m : Run TypeExpr}
    (hm : context.IsConversion m) {s s' : RunState} (hs : s.Sound context) {type : TypeExpr}
    (hrun : m.run s = (.ok type, s')) : Registers s.registry type s'.registry := by
  obtain ⟨script, hscript, haccounts⟩ := hm.exists_script
  obtain ⟨result, hrun', hresult⟩ := hscript s
  obtain ⟨hend, hbefore⟩ := hs.after (script s.inFlight).events
  obtain ⟨rfl, rfl⟩ : result = .ok type ∧ s.after (script s.inFlight).events = s' := by
    rw [hrun] at hrun'
    cases hrun'
    exact ⟨rfl, rfl⟩
  cases hscripted : (script s.inFlight).result with
  | error failure =>
    rw [hscripted] at hresult
    cases hresult
  | ok unnamed =>
    rw [hscripted] at hresult
    cases hresult with
    | ok hnames =>
      have hasked := (haccounts s.inFlight unnamed hscripted).1
      refine ⟨hnames.exists_pathOf? hend.registry, ?_, hbefore.entries_isPrefix⟩
      rw [hnames.pathsOf_eq hend.registry, RunState.registry_after, Registry.paths_ensureAll]
      exact congrArg _ hasked

/-- A conversion finishes no declaration. -/
theorem Context.IsConversion.finished_eq {context : Context} {m : Run TypeExpr}
    (hm : context.IsConversion m) (s : RunState) : (m.run s).2.finished = s.finished := by
  obtain ⟨script, hscript, _⟩ := hm.exists_script
  rw [(hscript s).state_eq]
  rfl

/-- Visiting items in order from a position on, while what each of them mentions
is added at the end when it is new, ends with a list. -/
inductive BreadthFirst (mentions : String → List String) : Nat → List String → List String → Prop
  /-- All items were visited. -/
  | done {position : Nat} {items : List String} (h : items.length ≤ position) :
    BreadthFirst mentions position items items
  /-- One more item is visited. -/
  | visit {position : Nat} {items last : List String} {item : String}
    (h : items[position]? = some item)
    (hrest : BreadthFirst mentions (position + 1) (Registry.appendNew items (mentions item)) last) :
    BreadthFirst mentions position items last

namespace BreadthFirst

variable {mentions : String → List String} {position : Nat} {items last : List String}

/-- The visited items are only extended. -/
theorem isPrefix (h : BreadthFirst mentions position items last) : items <+: last := by
  induction h with
  | done => exact List.prefix_refl _
  | visit _ _ ih => exact (Registry.prefix_appendNew _ _).trans ih

/-- An item that is new was mentioned by one before it. -/
theorem mentioned (h : BreadthFirst mentions position items last) {i : Nat} {item : String}
    (hitem : last[i]? = some item) (hnew : item ∉ items) :
    ∃ j, j < i ∧ ∃ earlier, last[j]? = some earlier ∧ item ∈ mentions earlier := by
  induction h with
  | done => exact absurd (List.mem_of_getElem? hitem) hnew
  | @visit position items last visited hvisited hrest ih =>
    by_cases hmem : item ∈ Registry.appendNew items (mentions visited)
    · have hmentioned : item ∈ mentions visited :=
        (Registry.mem_appendNew.mp hmem).resolve_left hnew
      obtain ⟨added, rfl⟩ := (visit hvisited hrest).isPrefix
      obtain ⟨hposition, _⟩ := List.getElem?_eq_some_iff.mp hvisited
      have hlater : items.length ≤ i := by
        by_cases hlt : i < items.length
        · rw [List.getElem?_append_left hlt] at hitem
          exact absurd (List.mem_of_getElem? hitem) hnew
        · omega
      refine ⟨position, by omega, visited, ?_, hmentioned⟩
      rw [List.getElem?_append_left hposition, hvisited]
    · exact ih hitem hmem

/-- Only what visited items mention matters. -/
theorem congr {mentions' : String → List String} (h : BreadthFirst mentions position items last)
    (hsame : ∀ item ∈ last, mentions item = mentions' item) :
    BreadthFirst mentions' position items last := by
  induction h with
  | done h => exact .done h
  | visit hvisited hrest ih =>
    have hmem := ((visit hvisited hrest).isPrefix).subset (List.mem_of_getElem? hvisited)
    refine .visit hvisited ?_
    rw [← hsame _ hmem]
    exact ih hsame

end BreadthFirst

namespace RunState

/-- The canonical paths that the finished declaration of a path mentions. -/
def mentions (s : RunState) (path : String) : List String :=
  (s.finished? path).elim [] fun d => s.registry.pathsOf d.type

/-- The finished declarations of the entries, in the order of registration. -/
def declarations (s : RunState) : List Declaration :=
  s.registry.entries.filterMap fun entry => s.finished? entry.canonicalPath

/-- What a finished declaration mentions is registered. -/
theorem mentions_subset {context : Context} {s : RunState} (hs : s.Sound context) (path : String) :
    s.mentions path ⊆ s.registry.paths := by
  unfold mentions
  cases hd : s.finished? path with
  | none => exact List.nil_subset _
  | some d =>
    have hdeclares := hs.finished d (List.mem_of_find?_eq_some hd)
    exact hdeclares.settled.pathsOf_subset hs.registry

/-- A state that is reached later in a run keeps the finished declarations. -/
structure Later (context : Context) (s s' : RunState) : Prop where
  /-- It is sound. -/
  sound : s'.Sound context
  /-- Its registry has more entries. -/
  before : s.registry.Before s'.registry
  /-- Its declarations are finished as before. -/
  finished : ∀ path d, s.finished? path = some d → s'.finished? path = some d

namespace Later

variable {context : Context} {s s' s'' : RunState}

/-- A sound state is later than itself. -/
theorem refl (h : s.Sound context) : Later context s s := ⟨h, .refl h.registry, fun _ _ h => h⟩

/-- Later states of later states are later ones. -/
theorem trans (h : Later context s s') (h' : Later context s' s'') : Later context s s'' :=
  ⟨h'.sound, h.before.trans h'.before, fun path d hd => h'.finished path d (h.finished path d hd)⟩

/-- What a finished declaration mentions stays the same. -/
theorem mentions_eq (h : Later context s s') (hs : s.Sound context) {path : String}
    {d : Declaration} (hd : s.finished? path = some d) :
    s'.mentions path = s.registry.pathsOf d.type := by
  have hsettled := (hs.finished d (List.mem_of_find?_eq_some hd)).settled
  rw [mentions, h.finished path d hd]
  exact hsettled.pathsOf_eq h.before

end Later

end RunState

namespace Context

variable {context : Context} {s s' : RunState}

/-- The script of looking up the schema of an entry. -/
def registeredScript (context : Context) (entry : Entry) : Script Json :=
  if entry.segments.isEmpty then Script.document context entry.documentPoint
  else Script.lookup context entry.documentPoint entry.segments

/-- Looking up the schema of an entry asks for no name. -/
theorem registeredScript_quiet (entry : Entry) : (context.registeredScript entry).Quiet := by
  unfold registeredScript
  split
  · exact .document _
  · exact .lookup _ _

/-- It is carried out by the script. -/
theorem realizes_registeredSchema (entry : Entry) :
    Realizes (fun _ b a => b = a) (context.registeredSchema entry) s
      (context.registeredScript entry) := by
  unfold registeredSchema registeredScript
  split
  · exact Realizes.document context _
  · exact Realizes.lookup context _ _

/-- Looking up the schema of an entry changes neither what is registered nor
what is finished. -/
theorem registeredSchema_state (hs : s.Sound context) (entry : Entry) {result : Except Failure Json}
    (h : (Run.reporting context.graph.entryPoint .null (context.registeredSchema entry)).run s =
      (result, s')) :
    s'.Sound context ∧ s'.registry = s.registry ∧ s'.finished = s.finished := by
  have hread : Realizes (fun _ b a => b = a)
      (Run.reporting context.graph.entryPoint .null (context.registeredSchema entry)) s _ :=
    (realizes_registeredSchema entry).reporting context.graph.entryPoint .null
  have hquiet := (context.registeredScript_quiet entry).reporting context.graph.entryPoint .null
  have hstate := hread.state_eq
  rw [h] at hstate
  subst hstate
  exact ⟨(hs.after _).1, hquiet.registry_after s, rfl⟩

/-- Declaring an entry gives a declaration of its path, and registers what
occurs in the type of the declaration. -/
theorem declare_registers {entry : Entry} {d : Declaration} (hs : s.Sound context)
    (h : (context.declare entry).run s = (.ok d, s')) :
    d.canonicalPath = entry.canonicalPath ∧ s'.finished = s.finished ∧
      Registers s.registry d.type s'.registry := by
  obtain ⟨schema, s₀, hschema, hrest⟩ := Run.exists_of_run_bind_ok h
  obtain ⟨type, s₁, htype, hpure⟩ := Run.exists_of_run_bind_ok hrest
  cases hpure
  obtain ⟨hs₀, hregistry, hfinished⟩ := registeredSchema_state hs entry hschema
  have hm : context.IsConversion (context.convert context.graph.entryPoint entry.documentPoint
    schema (Pointer.locate "" entry.segments)) := .whole ..
  have hkept := hm.finished_eq s₀
  rw [htype, hfinished] at hkept
  refine ⟨rfl, hkept, ?_⟩
  rw [← hregistry]
  exact hm.registers hs₀ htype

/-- A finished declaration is found under its path, and the others as before. -/
theorem finished?_finish (d : Declaration) (path : String) :
    { s with finished := d :: s.finished }.finished? path =
      if d.canonicalPath = path then some d else s.finished? path := by
  unfold RunState.finished?
  rw [List.find?_cons]
  by_cases h : d.canonicalPath = path
  · simp [h]
  · simp [h]

/-- Declaring an entry and finishing its declaration leads to a later state, in
which the components in its type are registered. -/
theorem declare_later {entry : Entry} {d : Declaration} (hs : s.Sound context)
    (hentry : entry ∈ s.registry.entries) (hnone : s.finished? entry.canonicalPath = none)
    (h : (context.declare entry).run s = (.ok d, s')) :
    s.Later context { s' with finished := d :: s'.finished } ∧
      { s' with finished := d :: s'.finished }.finished? entry.canonicalPath = some d ∧
      s'.registry.paths = Registry.appendNew s.registry.paths (s'.registry.pathsOf d.type) := by
  obtain ⟨hpath, hkept, hregisters⟩ := declare_registers hs h
  have hdoes : Run.Does context .readsAll _ (context.declare entry) s :=
    .declare (Permission.readsAll_suits context) hentry
  obtain ⟨hsound, hbefore⟩ := (hdoes.progress_of_run h).sound hs
  have hdefines : context.Defines s'.registry entry d := hdoes.gives_of_run h
  refine ⟨⟨⟨hsound.registry, fun d' hmem => ?_⟩, hbefore, fun path d' hd' => ?_⟩, ?_,
    hregisters.paths_eq⟩
  · rcases List.mem_cons.mp hmem with rfl | hmem
    · exact hdefines.declares (hbefore.entries_isPrefix.subset hentry)
    · exact hsound.finished d' hmem
  · rw [finished?_finish, RunState.finished?, hkept]
    split
    · rename_i heq
      rw [← heq, hpath, hnone] at hd'
      cases hd'
    · exact hd'
  · rw [finished?_finish, if_pos hpath]

/-- What the loop over the registered schemas has done when it ends: it has
visited the paths breadth first, and finished the declarations of all of them. -/
structure Declared (context : Context) (position : Nat) (s s' : RunState) : Prop where
  /-- The paths in the end are the breadth-first closure from the position on. -/
  breadthFirst : BreadthFirst s'.mentions position s.registry.paths s'.registry.paths
  /-- The entries from the position on have their declarations. -/
  finished : ∀ i entry, position ≤ i → s'.registry.entries[i]? = some entry →
    (s'.finished? entry.canonicalPath).isSome
  /-- Nothing that was known before is lost. -/
  later : s.Later context s'

/-- One round of the loop: an entry whose declaration is finished is passed over,
and any other one is declared. -/
theorem exists_of_declareFrom_ok {allowance position : Nat} (hs : s.Sound context)
    (h : (context.declareFrom (allowance + 1) position).run s = (.ok (), s')) :
    (s.registry.entries.length ≤ position ∧ s' = s) ∨
      ∃ entry s₁, s.registry.entries[position]? = some entry ∧ s.Later context s₁ ∧
        (s₁.finished? entry.canonicalPath).isSome ∧
        s₁.registry.paths = Registry.appendNew s.registry.paths (s₁.mentions entry.canonicalPath) ∧
        (context.declareFrom allowance (position + 1)).run s₁ = (.ok (), s') := by
  rw [Context.declareFrom, Run.run_get_bind] at h
  cases hentry : s.registry.entries[position]? with
  | none =>
    rw [hentry] at h
    cases h
    exact Or.inl ⟨List.getElem?_eq_none_iff.mp hentry, rfl⟩
  | some entry =>
    rw [hentry] at h
    refine Or.inr ⟨entry, ?_⟩
    cases hfinished : s.finished? entry.canonicalPath with
    | some d =>
      simp only [hfinished, Option.isNone_some, Bool.false_eq_true, ↓reduceIte] at h
      refine ⟨s, rfl, .refl hs, by rw [hfinished]; rfl, ?_, h⟩
      rw [Registry.appendNew_of_subset (RunState.mentions_subset hs _)]
    | none =>
      simp only [hfinished, Option.isNone_none, ↓reduceIte] at h
      obtain ⟨d, declared, hdeclare, hrest⟩ := Run.exists_of_run_bind_ok h
      obtain ⟨hlater, hdone, hpaths⟩ :=
        declare_later hs (List.mem_of_getElem? hentry) hfinished hdeclare
      refine ⟨_, rfl, hlater, by rw [hdone]; rfl, ?_, hrest⟩
      rw [RunState.mentions, hdone]
      exact hpaths

/-- The loop over the registered schemas visits their paths breadth first. -/
theorem declareFrom_declared {allowance position : Nat} (hs : s.Sound context)
    (h : (context.declareFrom allowance position).run s = (.ok (), s')) :
    Declared context position s s' := by
  induction allowance generalizing s position with
  | zero => cases h
  | succ allowance ih =>
    rcases exists_of_declareFrom_ok hs h with ⟨hdone, rfl⟩ | hround
    · refine ⟨.done (by simpa [Registry.paths] using hdone), fun i entry hi hentry => ?_, .refl hs⟩
      have hlt := (List.getElem?_eq_some_iff.mp hentry).1
      omega
    · obtain ⟨entry, s₁, hentry, hlater, hfinished, hpaths, hrest⟩ := hround
      obtain ⟨d, hd⟩ := Option.isSome_iff_exists.mp hfinished
      have hdeclared := ih hlater.sound hrest
      have hmentions : s'.mentions entry.canonicalPath = s₁.mentions entry.canonicalPath := by
        rw [hdeclared.later.mentions_eq hlater.sound hd, RunState.mentions, hd]
        rfl
      refine ⟨?_, fun i other hi hother => ?_, hlater.trans hdeclared.later⟩
      · have hvisited : s.registry.paths[position]? = some entry.canonicalPath := by
          rw [Registry.paths, List.getElem?_map, hentry]
          rfl
        refine .visit hvisited ?_
        rw [hmentions, ← hpaths]
        exact hdeclared.breadthFirst
      · by_cases hposition : i = position
        · subst hposition
          obtain ⟨added, hadded⟩ := (hlater.before.trans hdeclared.later.before).entries_isPrefix
          have hlt := (List.getElem?_eq_some_iff.mp hentry).1
          rw [← hadded, List.getElem?_append_left hlt, hentry] at hother
          cases hother
          rw [hdeclared.later.finished _ d hd]
          rfl
        · exact hdeclared.finished i other (by omega) hother

end Context

/-- Keys of what is found for each item. -/
theorem map_filterMap_eq {α β γ : Type} {f : α → Option β} {key : β → γ} {key' : α → γ}
    {items : List α} (h : ∀ a ∈ items, ∃ b, f a = some b ∧ key b = key' a) :
    (items.filterMap f).map key = items.map key' := by
  induction items with
  | nil => rfl
  | cons item rest ih =>
    obtain ⟨b, hb, hkey⟩ := h item (List.mem_cons_self ..)
    rw [List.filterMap_cons_some hb, List.map_cons, List.map_cons, hkey,
      ih fun a hmem => h a (List.mem_cons_of_mem _ hmem)]

namespace Context

/-- When the loop has ended, every entry has a declaration with its path and its
identifier. -/
theorem Declared.exists_declaration (h : Declared context 0 s s') {entry : Entry}
    (hentry : entry ∈ s'.registry.entries) :
    ∃ d, s'.finished? entry.canonicalPath = some d ∧ d.canonicalPath = entry.canonicalPath ∧
      d.identifier = entry.identifier := by
  obtain ⟨i, hi⟩ := List.getElem?_of_mem hentry
  obtain ⟨d, hd⟩ := Option.isSome_iff_exists.mp (h.finished i entry (Nat.zero_le i) hi)
  have hpath : d.canonicalPath = entry.canonicalPath := by simpa using List.find?_some hd
  obtain ⟨owner, howner, hownerPath, hidentifier⟩ :=
    (h.later.sound.finished d (List.mem_of_find?_eq_some hd)).registered
  have hsound := h.later.sound.registry
  have hfind := (hsound.find?_eq_some_iff entry.canonicalPath owner).mpr
    ⟨howner, hownerPath.trans hpath⟩
  rw [(hsound.find?_eq_some_iff entry.canonicalPath entry).mpr ⟨hentry, rfl⟩] at hfind
  cases hfind
  exact ⟨d, hd, hpath, hidentifier.symm⟩

namespace Declared

/-- There is one declaration for each path, in the order of registration. -/
theorem paths_eq (h : Declared context 0 s s') :
    s'.declarations.map (·.canonicalPath) = s'.registry.paths := by
  apply map_filterMap_eq
  intro entry hentry
  obtain ⟨d, hd, hpath, _⟩ := h.exists_declaration hentry
  exact ⟨d, hd, hpath⟩

/-- Every declaration has the identifier of its entry. -/
theorem identifiers_eq (h : Declared context 0 s s') :
    s'.declarations.map (·.identifier) = s'.registry.identifiers := by
  rw [h.later.sound.registry.identifiers_eq]
  apply map_filterMap_eq
  intro entry hentry
  obtain ⟨d, hd, _, hidentifier⟩ := h.exists_declaration hentry
  exact ⟨d, hd, hidentifier⟩

/-- A declaration is the one that is found under its path. -/
theorem find?_declarations (h : Declared context 0 s s') {d : Declaration}
    (hd : d ∈ s'.declarations) :
    s'.declarations.find? (·.canonicalPath = d.canonicalPath) = some d := by
  have hnodup : (s'.declarations.map (·.canonicalPath)).Nodup :=
    h.paths_eq ▸ h.later.sound.registry.paths_nodup
  exact (find?_key_eq_some_iff hnodup d.canonicalPath d).mpr ⟨hd, rfl⟩

/-- The types of all declarations are settled. -/
theorem settles (h : Declared context 0 s s') {d : Declaration} (hd : d ∈ s'.declarations) :
    context.Settles s'.registry d.type := by
  obtain ⟨entry, _, hfinished⟩ := List.mem_filterMap.mp hd
  exact (h.later.sound.finished d (List.mem_of_find?_eq_some hfinished)).settled

end Declared

end Context

/-- The canonical paths that the declaration of a path mentions. -/
def mentionsAmong (ds : List Declaration) (r : Registry) (path : String) : List String :=
  (ds.find? (·.canonicalPath = path)).elim [] fun d => r.pathsOf d.type

/-- Declarations close what was registered and returned before under what is
mentioned. -/
structure DeclaresClosure (context : Context) (types : List TypeExpr) (r : Registry)
    (ds : List Declaration) (r' : Registry) : Prop where
  /-- There is one declaration for each entry, in the order of registration. -/
  paths_eq : ds.map (·.canonicalPath) = r'.paths
  /-- Every declaration has the identifier of its entry. -/
  identifiers_eq : ds.map (·.identifier) = r'.identifiers
  /-- The entries before come first. -/
  entries_isPrefix : r.entries <+: r'.entries
  /-- The paths in the end are found by visiting the declarations in order, each
  of which adds the new paths that it mentions. -/
  breadthFirst : BreadthFirst (mentionsAmong ds r') 0 r.paths r'.paths
  /-- A declaration of a path that was not registered before is mentioned by an
  earlier one. -/
  mentioned : ∀ (i : Nat) (d : Declaration), ds[i]? = some d → d.canonicalPath ∉ r.paths →
    ∃ (j : Nat) (earlier : Declaration), j < i ∧ ds[j]? = some earlier ∧
      d.canonicalPath ∈ r'.pathsOf earlier.type
  /-- Every component in the types that were returned before and in those that
  are declared is declared exactly once. -/
  declared : ∀ type ∈ types ++ ds.map (·.type), ∀ identifier ∈ type.components,
    (ds.map (·.identifier)).count identifier = 1
  /-- Every other name in these types comes from the settings or the format rule. -/
  supplied : ∀ type ∈ types ++ ds.map (·.type), ∀ name ∈ type.externals, context.Supplies name

namespace Context

variable {context : Context} {s s' : RunState}

/-- The declarations are those of the entries, once the loop has ended. -/
theorem declared_of_declarations_ok {ds : List Declaration} (hs : s.Sound context)
    (h : context.declarations.run s = (.ok ds, s')) :
    Declared context 0 s s' ∧ ds = s'.declarations := by
  have hrun : context.declarations.run s =
      (do
        context.declareFrom (s.registry.entries.length + Conversion.maxNested context .null + 1) 0
        let last ← get
        Run.record (.generated last.finished.length)
        return last.declarations : Run (List Declaration)).run s := rfl
  rw [hrun] at h
  obtain ⟨_, last, hloop, hrest⟩ := Run.exists_of_run_bind_ok h
  cases hrest
  -- The last record leaves the registry and the finished declarations as they are.
  obtain ⟨hbreadthFirst, hfinished, hsound, hbefore, hkept⟩ := declareFrom_declared hs hloop
  exact ⟨⟨hbreadthFirst, hfinished, ⟨hsound.registry, hsound.finished⟩, hbefore, hkept⟩, rfl⟩

namespace Declared

/-- What a registered path mentions is what its declaration does. -/
theorem mentions_eq (h : Declared context 0 s s') {path : String}
    (hpath : path ∈ s'.registry.paths) :
    s'.mentions path = mentionsAmong s'.declarations s'.registry path := by
  obtain ⟨entry, hentry, rfl⟩ := List.mem_map.mp hpath
  obtain ⟨d, hd, hkey, _⟩ := h.exists_declaration hentry
  have hmem : d ∈ s'.declarations := List.mem_filterMap.mpr ⟨entry, hentry, hd⟩
  have hfind := h.find?_declarations hmem
  rw [hkey] at hfind
  rw [RunState.mentions, mentionsAmong, hfind, hd]

/-- A declaration that is new was mentioned by one before it. -/
theorem exists_mentioning (h : Declared context 0 s s') {i : Nat} {d : Declaration}
    (hd : s'.declarations[i]? = some d) (hnew : d.canonicalPath ∉ s.registry.paths) :
    ∃ (j : Nat) (earlier : Declaration), j < i ∧ s'.declarations[j]? = some earlier ∧
      d.canonicalPath ∈ s'.registry.pathsOf earlier.type := by
  have hat (k : Nat) :
      s'.registry.paths[k]? = (s'.declarations[k]?).map (·.canonicalPath) := by
    rw [← h.paths_eq, List.getElem?_map]
  have hpath : s'.registry.paths[i]? = some d.canonicalPath := by
    rw [hat, hd]
    rfl
  obtain ⟨j, hj, path, hvisited, hmentioned⟩ := h.breadthFirst.mentioned hpath hnew
  have hregistered := List.mem_of_getElem? hvisited
  rw [hat] at hvisited
  obtain ⟨earlier, hearlier, rfl⟩ := Option.map_eq_some_iff.mp hvisited
  rw [h.mentions_eq hregistered, mentionsAmong,
    h.find?_declarations (List.mem_of_getElem? hearlier)] at hmentioned
  exact ⟨j, earlier, hj, hearlier, hmentioned⟩

end Declared

/-- Declarations that are generated in a sound state close the types that were
settled there. -/
theorem declarations_close {types : List TypeExpr} {ds : List Declaration} (hs : s.Sound context)
    (htypes : ∀ type ∈ types, context.Settles s.registry type)
    (h : context.declarations.run s = (.ok ds, s')) :
    DeclaresClosure context types s.registry ds s'.registry := by
  obtain ⟨hdeclared, rfl⟩ := declared_of_declarations_ok hs h
  have hsound := hdeclared.later.sound.registry
  have hsettled : ∀ type ∈ types ++ s'.declarations.map (·.type),
      context.Settles s'.registry type := by
    intro type hmem
    rcases List.mem_append.mp hmem with hmem | hmem
    · exact (htypes type hmem).mono hdeclared.later.before.entries_isPrefix
    · obtain ⟨d, hd, rfl⟩ := List.mem_map.mp hmem
      exact hdeclared.settles hd
  exact {
    paths_eq := hdeclared.paths_eq
    identifiers_eq := hdeclared.identifiers_eq
    entries_isPrefix := hdeclared.later.before.entries_isPrefix
    breadthFirst := hdeclared.breadthFirst.congr fun path hpath => hdeclared.mentions_eq hpath
    mentioned := fun i d hd hnew => hdeclared.exists_mentioning hd hnew
    declared := by
      intro type hmem identifier hidentifier
      obtain ⟨entry, hentry, rfl⟩ := (hsettled type hmem).registered identifier hidentifier
      rw [hdeclared.identifiers_eq, hsound.identifiers_nodup.count, if_pos]
      rw [hsound.identifiers_eq]
      exact List.mem_map_of_mem hentry
    supplied := fun type hmem => (hsettled type hmem).supplied }

end Context

/-- Declarations are the breadth-first closure of what is mentioned. In every
state of a run a conversion that succeeds registers the components in its type
that are new, in the order of their first occurrences, and nothing else. When
declarations are generated, there is one for each entry of the registry: those
that were registered before, followed by what the declarations mention, breadth
first. Every component in them or in a type that was returned before is declared
once. -/
theorem declarations_breadthFirst {context : Context} {types : List TypeExpr} {s : RunState}
    (h : context.Reaches types s) :
    (∀ m type s', context.IsConversion m → m.run s = (.ok type, s') →
      Registers s.registry type s'.registry) ∧
    ∀ ds s', context.declarations.run s = (.ok ds, s') →
      DeclaresClosure context types s.registry ds s'.registry := by
  obtain ⟨hs, _, htypes⟩ := h.sound (.initial context)
  exact ⟨fun _ _ _ hm hrun => hm.registers hs hrun,
    fun _ _ hrun => Context.declarations_close hs htypes hrun⟩

/-- The state after the reference to the first of two components was converted. -/
def RunState.petConverted : RunState :=
  (((Call.convert "openapi.json" "openapi.json"
    (.obj [("$ref", .str "#/components/schemas/Pet")]) "#").perform Context.petOwner).run
      (.initial Context.petOwner)).2

/-- The second component is declared because the declaration of the first one
mentions it. -/
theorem petOwner_declarations_breadthFirst :
    ∃ types ds s', Context.petOwner.declarations.run .petConverted = (.ok ds, s') ∧
      RunState.petConverted.registry.identifiers = ["Pet"] ∧
      ds.map (·.identifier) = ["Pet", "Owner"] ∧
      DeclaresClosure Context.petOwner types RunState.petConverted.registry ds s'.registry := by
  have hreaches : Context.petOwner.Reaches _ .petConverted := .call .refl (.convert ..)
  have hclose := (declarations_breadthFirst hreaches).2
  have hidentifiers : (Context.petOwner.declarations.run .petConverted).1.toOption.map
      (List.map (·.identifier)) = some ["Pet", "Owner"] := by decide +kernel
  cases hrun : Context.petOwner.declarations.run .petConverted with
  | mk result s' =>
    rw [hrun] at hidentifiers
    cases result with
    | error failure => cases hidentifiers
    | ok ds =>
      exact ⟨_, ds, s', rfl, by decide +kernel, Option.some.inj hidentifiers, hclose ds s' hrun⟩

end ApiTypes
