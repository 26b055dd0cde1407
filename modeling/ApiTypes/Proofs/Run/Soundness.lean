import ApiTypes.Proofs.Conversion.Mentions
import ApiTypes.Run.Declare

/-!
# What is known about names

The registry only grows during a run, so what is known about names stays known: a
settled type stays settled, and a declaration stays that of an entry. Between the
steps of a run the registry is sound, and all finished declarations are of this
kind.
-/

namespace ApiTypes

/-- One registry comes before another one of the same run. -/
structure Registry.Before (r r' : Registry) : Prop where
  /-- The first one is sound. -/
  left_sound : r.Sound
  /-- The second one is sound. -/
  right_sound : r'.Sound
  /-- Entries are only added, at the end. -/
  entries_isPrefix : r.entries <+: r'.entries

namespace Registry.Before

variable {r r' r'' : Registry}

/-- A sound registry comes before itself. -/
theorem refl (h : r.Sound) : r.Before r := ⟨h, h, List.prefix_refl _⟩

/-- Growing goes on. -/
theorem trans (h : r.Before r') (h' : r'.Before r'') : r.Before r'' :=
  ⟨h.left_sound, h'.right_sound, h.entries_isPrefix.trans h'.entries_isPrefix⟩

/-- Asking for names makes a sound registry grow. -/
theorem ensureAll (h : r.Sound) (requests : List NameRequest) :
    r.Before (r.ensureAll requests) :=
  ⟨h, h.ensureAll requests, r.entries_prefix_ensureAll requests⟩

/-- The canonical path of an identifier stays the same. -/
theorem pathOf? (h : r.Before r') {identifier path : String}
    (hpath : r.pathOf? identifier = some path) : r'.pathOf? identifier = some path := by
  obtain ⟨entry, hentry, hkeys⟩ := (h.left_sound.pathOf?_eq_some_iff path identifier).mp hpath
  exact (h.right_sound.pathOf?_eq_some_iff path identifier).mpr
    ⟨entry, h.entries_isPrefix.subset hentry, hkeys⟩

/-- A registered path stays registered. -/
theorem paths_subset (h : r.Before r') : r.paths ⊆ r'.paths :=
  (h.entries_isPrefix.map _).subset

end Registry.Before

/-- A registry settles a type: the components in it are registered, and its
other names come from the context. -/
structure Context.Settles (context : Context) (r : Registry) (type : TypeExpr) : Prop where
  /-- Every component is the identifier of an entry. -/
  registered : ∀ identifier ∈ type.components, ∃ entry ∈ r.entries, entry.identifier = identifier
  /-- Every other name is supplied. -/
  supplied : ∀ name ∈ type.externals, context.Supplies name

namespace Context.Settles

variable {context : Context} {r r' : Registry}

/-- A settled type stays settled. -/
theorem mono {type : TypeExpr} (h : context.Settles r type) (hentries : r.entries <+: r'.entries) :
    context.Settles r' type where
  registered identifier hmem := by
    obtain ⟨entry, hentry, hidentifier⟩ := h.registered identifier hmem
    exact ⟨entry, hentries.subset hentry, hidentifier⟩
  supplied := h.supplied

/-- In a sound registry every component of a settled type has a canonical path. -/
theorem exists_pathOf? {type : TypeExpr} (h : context.Settles r type) (hsound : r.Sound) :
    ∀ identifier ∈ type.components, ∃ path, r.pathOf? identifier = some path := by
  intro identifier hmem
  obtain ⟨entry, hentry, hidentifier⟩ := h.registered identifier hmem
  exact ⟨_, (hsound.pathOf?_eq_some_iff _ identifier).mpr ⟨entry, hentry, rfl, hidentifier⟩⟩

/-- A type whose names are those of settled types is settled. -/
theorem of_names {type : TypeExpr} (h : ∀ name ∈ type.names, ∃ settled,
    context.Settles r settled ∧ name ∈ settled.names) : context.Settles r type where
  registered identifier hmem := by
    obtain ⟨settled, hsettled, hname⟩ := h _ (TypeExpr.mem_components.mp hmem)
    exact hsettled.registered identifier (TypeExpr.mem_components.mpr hname)
  supplied external hmem := by
    obtain ⟨name, hname, hexternal⟩ := List.mem_filterMap.mp hmem
    obtain ⟨settled, hsettled, hmem'⟩ := h name hname
    exact hsettled.supplied external (List.mem_filterMap.mpr ⟨name, hmem', hexternal⟩)

end Context.Settles

/-- A finished declaration is that of an entry, with a settled type. -/
structure Context.Declares (context : Context) (r : Registry) (d : Declaration) : Prop where
  /-- The entry has the canonical path and the identifier of the declaration. -/
  registered : ∃ entry ∈ r.entries,
    entry.canonicalPath = d.canonicalPath ∧ entry.identifier = d.identifier
  /-- The names in the type are known. -/
  settled : context.Settles r d.type

/-- A declaration of an entry stays one. -/
theorem Context.Declares.mono {context : Context} {r r' : Registry} {d : Declaration}
    (h : context.Declares r d) (hentries : r.entries <+: r'.entries) : context.Declares r' d where
  registered := by
    obtain ⟨entry, hmem, hkeys⟩ := h.registered
    exact ⟨entry, hentries.subset hmem, hkeys⟩
  settled := h.settled.mono hentries

/-- What holds between the steps of a run. -/
structure RunState.Sound (context : Context) (s : RunState) : Prop where
  /-- The registry is sound. -/
  registry : s.registry.Sound
  /-- The finished declarations are those of entries. -/
  finished : ∀ d ∈ s.finished, context.Declares s.registry d

/-- Events leave a sound state sound: they only register schemas. -/
theorem RunState.Sound.after {context : Context} {s : RunState} (h : s.Sound context)
    (events : List Event) :
    (s.after events).Sound context ∧ s.registry.Before (s.after events).registry := by
  have hbefore : s.registry.Before (s.after events).registry :=
    .ensureAll h.registry (Event.requests events)
  exact ⟨⟨hbefore.right_sound, fun d hmem =>
    (h.finished d hmem).mono hbefore.entries_isPrefix⟩, hbefore⟩

/-- The canonical path of an identifier, which is the identifier itself if it is
not registered. -/
def Registry.pathOfIdentifier (r : Registry) (identifier : String) : String :=
  (r.pathOf? identifier).getD identifier

/-- The canonical paths of the components in a type, from left to right. -/
def Registry.pathsOf (r : Registry) (type : TypeExpr) : List String :=
  type.components.map r.pathOfIdentifier

/-- The canonical paths of the components in a settled type are registered. -/
theorem Context.Settles.pathsOf_subset {context : Context} {r : Registry} {type : TypeExpr}
    (h : context.Settles r type) (hsound : r.Sound) : r.pathsOf type ⊆ r.paths := by
  intro path hmem
  obtain ⟨identifier, hidentifier, rfl⟩ := List.mem_map.mp hmem
  obtain ⟨path, hpath⟩ := h.exists_pathOf? hsound identifier hidentifier
  obtain ⟨entry, hentry, rfl, _⟩ := (hsound.pathOf?_eq_some_iff path identifier).mp hpath
  rw [Registry.pathOfIdentifier, hpath]
  exact List.mem_map_of_mem hentry

/-- The canonical paths of the components in a settled type stay the same. -/
theorem Context.Settles.pathsOf_eq {context : Context} {r r' : Registry} {type : TypeExpr}
    (h : context.Settles r type) (hbefore : r.Before r') : r'.pathsOf type = r.pathsOf type := by
  apply List.map_congr_left
  intro identifier hmem
  obtain ⟨path, hpath⟩ := h.exists_pathOf? hbefore.left_sound identifier hmem
  rw [Registry.pathOfIdentifier, Registry.pathOfIdentifier, hpath, hbefore.pathOf? hpath]

namespace Registry.Names

variable {r : Registry} {unnamed named : TypeExpr}

/-- A registered path has an entry with the identifier that stands for the path. -/
theorem exists_entry {path : String} (h : path ∈ r.paths) :
    ∃ entry ∈ r.entries, entry.canonicalPath = path ∧ entry.identifier = r.identifierOf path := by
  cases hfind : r.find? path with
  | none => exact absurd h ((find?_eq_none_iff r path).mp hfind)
  | some entry =>
    have hpath : entry.canonicalPath = path := by simpa using List.find?_some hfind
    refine ⟨entry, List.mem_of_find?_eq_some hfind, hpath, ?_⟩
    rw [identifierOf, nameFor?, hfind]
    rfl

/-- The identifier that stands for a registered path belongs to it. -/
theorem pathOf?_identifierOf (hsound : r.Sound) {path : String} (h : path ∈ r.paths) :
    r.pathOf? (r.identifierOf path) = some path :=
  (hsound.pathOf?_eq_some_iff path _).mpr (exists_entry h)

/-- The components of a named type stand for the canonical paths before. -/
theorem pathsOf_eq (h : r.Names unnamed named) (hsound : r.Sound) :
    r.pathsOf named = unnamed.components := by
  obtain ⟨rfl, hregistered⟩ := h
  rw [pathsOf, Typed.rename_type, TypeExpr.components_rename, List.map_map]
  refine (List.map_congr_left fun path hmem => ?_).trans (List.map_id _)
  rw [Function.comp_apply, pathOfIdentifier, pathOf?_identifierOf hsound (hregistered path hmem)]
  rfl

/-- The components of a named type are registered. -/
theorem exists_pathOf? (h : r.Names unnamed named) (hsound : r.Sound) :
    ∀ identifier ∈ named.components, ∃ path, r.pathOf? identifier = some path := by
  obtain ⟨rfl, hregistered⟩ := h
  intro identifier hmem
  rw [Typed.rename_type, TypeExpr.components_rename] at hmem
  obtain ⟨path, hpath, rfl⟩ := List.mem_map.mp hmem
  exact ⟨path, pathOf?_identifierOf hsound (hregistered path hpath)⟩

/-- A named type is settled when the context supplies its other names. -/
theorem settles {context : Context} (h : r.Names unnamed named)
    (hsupplied : ∀ name ∈ unnamed.externals, context.Supplies name) :
    context.Settles r named := by
  obtain ⟨rfl, hregistered⟩ := h
  constructor
  · intro identifier hmem
    rw [Typed.rename_type, TypeExpr.components_rename] at hmem
    obtain ⟨path, hpath, rfl⟩ := List.mem_map.mp hmem
    obtain ⟨entry, hentry, _, hidentifier⟩ := exists_entry (hregistered path hpath)
    exact ⟨entry, hentry, hidentifier⟩
  · intro name hmem
    rw [Typed.rename_type, TypeExpr.externals_rename] at hmem
    exact hsupplied name hmem

end Registry.Names

end ApiTypes
