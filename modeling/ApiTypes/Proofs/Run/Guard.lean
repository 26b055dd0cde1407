import ApiTypes.Proofs.Conversion.Cycle

/-!
# The guard of a run

Converting with the guard ends with a cycle of references exactly when the same
rules without the guard never end. In all other cases both end in the same way,
with the same names registered and the same diagnostics.
-/

namespace ApiTypes

namespace Event

/-- What is read from events other than those of the guard. -/
theorem filterMap_unguarded {α : Type} {f : Event → Option α}
    (h : ∀ inFlight, f (.entered inFlight) = none) (events : List Event) :
    (unguarded events).filterMap f = events.filterMap f := by
  rw [unguarded, List.filterMap_filter]
  congr 1
  funext event
  cases event with
  | entered inFlight => exact (h inFlight).symm
  | _ => rfl

end Event

namespace RunState

variable {s : RunState} {events events' : List Event}

/-- The guard registers nothing. -/
theorem registry_after_congr (h : Event.unguarded events = Event.unguarded events') :
    (s.after events).registry = (s.after events').registry := by
  have hrequests (events : List Event) :
      Event.requests (Event.unguarded events) = Event.requests events :=
    Event.filterMap_unguarded (fun _ => rfl) events
  rw [registry_after, registry_after, ← hrequests events, h, hrequests]

/-- The guard reports nothing. -/
theorem diagnostics_after_congr (h : Event.unguarded events = Event.unguarded events') :
    (s.after events).diagnostics = (s.after events').diagnostics := by
  have hjournal (events : List Event) :
      (s.after events).journal.reverse = s.journal.reverse ++ events := by
    simp [after]
  rw [diagnostics, diagnostics, hjournal, hjournal, List.filterMap_append, List.filterMap_append]
  congr 1
  rw [← Event.filterMap_unguarded (fun _ => rfl) events, h,
    Event.filterMap_unguarded fun _ => rfl]

end RunState

/-- Two ends of a step that differ in the journal of the guard only. -/
structure SameEnd {α : Type} (last last' : Except Failure α × RunState) : Prop where
  /-- The results are the same. -/
  result_eq : last.1 = last'.1
  /-- The same schemas are registered. -/
  registry_eq : last.2.registry = last'.2.registry
  /-- The same diagnostics were reported. -/
  diagnostics_eq : last.2.diagnostics = last'.2.diagnostics

namespace Realizes

variable {m m' : Run TypeExpr} {script script' : Script TypeExpr} {s : RunState}

/-- A step fails like its script. -/
theorem error_iff (h : Realizes Registry.Names m s script) (failure : Failure) :
    (m.run s).1 = .error failure ↔ script.result = .error failure := by
  obtain ⟨result, hrun, hresult⟩ := h
  rw [hrun]
  generalize script.result = scripted at hresult
  cases hresult with
  | ok _ => exact ⟨nofun, nofun⟩
  | error => exact Iff.rfl

/-- Steps whose scripts do the same apart from the guard end in the same way. -/
theorem sameEnd (h : Realizes Registry.Names m s script) (h' : Realizes Registry.Names m' s script')
    (hresults : script.result = script'.result)
    (hevents : Event.unguarded script.events = Event.unguarded script'.events) :
    SameEnd (m.run s) (m'.run s) := by
  have hregistry := RunState.registry_after_congr (s := s) hevents
  refine ⟨?_, ?_, ?_⟩
  · obtain ⟨result, hrun, hresult⟩ := h
    obtain ⟨result', hrun', hresult'⟩ := h'
    rw [hrun, hrun']
    rw [hresults, hregistry] at hresult
    generalize script'.result = scripted at hresult hresult'
    cases hresult with
    | error failure =>
      cases hresult'
      rfl
    | ok hnames =>
      cases hresult' with
      | ok hnames' => exact congrArg Except.ok (hnames.1.trans hnames'.1.symm)
  · rw [h.state_eq, h'.state_eq]
    exact hregistry
  · rw [h.state_eq, h'.state_eq]
    exact RunState.diagnostics_after_congr hevents

end Realizes

/-- Converts a schema by the same rules without the guard, with at most so many
nested expansions, less one. -/
def Context.convertUnguarded (context : Context) (allowance : Nat) (point : String) (schema : Json)
    (path : String) (parent : Json := .null) : Run TypeExpr :=
  Conversion.within context Conversion.unguarded allowance point parent path schema

namespace Conversion

variable {context : Context} {point : String} {parent : Json} {path : String} {schema : Json}

/-- The allowance of a run is enough for the guarded conversion. -/
theorem script_maxNested_ends :
    (script context (maxNested context schema + 1) (some []) point parent path schema).result ≠
      .error .exhausted :=
  script_ends (.maxNested context schema) point parent path fun _ href =>
    List.mem_append_right _ href

/-- The guard finds a cycle unless the allowance of a run is enough without it. -/
theorem exists_cycle_or_ends :
    (∃ location chain, (script context (maxNested context schema + 1) (some []) point parent path
        schema).result = .error (.schema (.cycle location chain))) ∨
      (script context (maxNested context schema + 1) none point parent path schema).result ≠
        .error .exhausted := by
  have hfollows : Script.Follows
      (script context (maxNested context schema + 1) (some []) point parent path schema)
      (script context (maxNested context schema + 1) none point parent path schema) :=
    script_follows _ (.unwatched []) ..
  rcases hfollows with hcycle | ⟨hresult, _⟩
  · exact Or.inl hcycle
  · exact Or.inr (hresult ▸ script_maxNested_ends)

end Conversion

/-- The guard is exact. No point of a document has a `#`, and no pointer of a
reference has a first segment that starts with one. Then a conversion that starts
with nothing in flight fails with a cycle of references exactly when no allowance
is enough for it without the guard. Otherwise some allowance is enough, and with
every one that is enough the conversion without the guard gives the same type or
fails in the same way, registers the same names and reports the same diagnostics. -/
theorem convertSchema_guard_exact {context : Context}
    (hpoints : ∀ point ∈ context.graph.points, '#' ∉ point.toList) (point : String) {schema : Json}
    (path : String) (parent : Json)
    (hrefs : ∀ ref ∈ context.graph.refs ++ schema.refs, Reference.Plain ref) {s : RunState}
    (hinFlight : s.inFlight = []) :
    ((∃ location chain, ((context.convertSchema point schema path parent).run s).1 =
        .error (.schema (.cycle location chain))) ↔
      ∀ n, ((context.convertUnguarded n point schema path parent).run s).1 = .error .exhausted) ∧
    ((∀ location chain, ((context.convertSchema point schema path parent).run s).1 ≠
        .error (.schema (.cycle location chain))) →
      (∃ n, ((context.convertUnguarded n point schema path parent).run s).1 ≠ .error .exhausted) ∧
      ∀ n, ((context.convertUnguarded n point schema path parent).run s).1 ≠ .error .exhausted →
        SameEnd ((context.convertUnguarded n point schema path parent).run s)
          ((context.convertSchema point schema path parent).run s)) := by
  have hgraph : ∀ ref ∈ context.graph.refs, Reference.Plain ref := fun ref href =>
    hrefs ref (List.mem_append_left _ href)
  have hschema : ∀ ref ∈ schema.refs, Reference.Plain ref := fun ref href =>
    hrefs ref (List.mem_append_right _ href)
  have hguarded : Realizes Registry.Names (context.convertSchema point schema path parent) s
      (Conversion.script context (Conversion.maxNested context schema + 1) (some []) point parent
        path schema) :=
    hinFlight ▸ Realizes.within _ (.inFlight s) point parent path schema
  have hunguarded (n : Nat) : Realizes Registry.Names
      (context.convertUnguarded n point schema path parent) s
      (Conversion.script context n none point parent path schema) :=
    Realizes.within n (.nothing s) point parent path schema
  constructor
  · constructor
    · rintro ⟨location, chain, hcycle⟩ n
      rw [hguarded.error_iff] at hcycle
      rw [(hunguarded n).error_iff]
      exact Conversion.script_exhausted hpoints hgraph hschema hcycle n
    · intro hexhausted
      rcases Conversion.exists_cycle_or_ends with ⟨location, chain, hcycle⟩ | hends
      · exact ⟨location, chain, (hguarded.error_iff _).mpr hcycle⟩
      · exact absurd (((hunguarded _).error_iff _).mp (hexhausted _)) hends
  · intro hne
    constructor
    · rcases Conversion.exists_cycle_or_ends with ⟨location, chain, hcycle⟩ | hends
      · exact absurd ((hguarded.error_iff _).mpr hcycle) (hne location chain)
      · exact ⟨_, fun hexhausted => hends (((hunguarded _).error_iff _).mp hexhausted)⟩
    · intro n hn
      have hends := mt ((hunguarded n).error_iff _).mpr hn
      obtain ⟨hresults, hevents⟩ := Conversion.script_same hpoints hgraph hschema
        Conversion.script_maxNested_ends hends
      exact (hunguarded n).sameEnd hguarded hresults.symm hevents.symm

/-- Two documents whose nodes refer to each other, and a pair of one leaf. -/
def Context.linked : Context where
  graph := {
    documents := [
      ("a.json", .obj [
        ("node", .obj [("type", .str "array"), ("items", .obj [("$ref", .str "b.json#/node")])]),
        ("pair", .obj [("type", .str "object"), ("properties", .obj [
          ("left", .obj [("$ref", .str "b.json#/leaf")]),
          ("right", .obj [("$ref", .str "b.json#/leaf")])])])]),
      ("b.json", .obj [
        ("node", .obj [("$ref", .str "a.json#/node")]),
        ("leaf", .obj [("type", .str "string")])])]
    entryPoint := "a.json"
    componentRoot := .str "components"
    componentDirectories := [.str "schemas"] }

/-- The conversion of the node ends with no allowance, and that of the pair ends
as it does with the guard. -/
theorem linked_guard_exact :
    (∀ n, ((Context.linked.convertUnguarded n "a.json" (.obj [("$ref", .str "#/node")]) "#").run
      (.initial Context.linked)).1 = .error .exhausted) ∧
    ∃ n, SameEnd
      ((Context.linked.convertUnguarded n "a.json" (.obj [("$ref", .str "#/pair")]) "#").run
        (.initial Context.linked))
      ((Context.linked.convertSchema "a.json" (.obj [("$ref", .str "#/pair")]) "#").run
        (.initial Context.linked)) := by
  have hpoints : ∀ point ∈ Context.linked.graph.points, '#' ∉ point.toList := by decide +kernel
  have hnode := convertSchema_guard_exact hpoints "a.json" "#" .null (by decide +kernel :
    ∀ ref ∈ Context.linked.graph.refs ++ (Json.obj [("$ref", .str "#/node")]).refs,
      Reference.Plain ref) (rfl : (RunState.initial Context.linked).inFlight = [])
  have hpair := convertSchema_guard_exact hpoints "a.json" "#" .null (by decide +kernel :
    ∀ ref ∈ Context.linked.graph.refs ++ (Json.obj [("$ref", .str "#/pair")]).refs,
      Reference.Plain ref) (rfl : (RunState.initial Context.linked).inFlight = [])
  have hcycle : ((Context.linked.convertSchema "a.json" (.obj [("$ref", .str "#/node")]) "#").run
      (.initial Context.linked)).1 =
        .error (.schema (.cycle "a.json#/node" ["a.json#/node", "b.json#/node"])) := rfl
  have hok : ((Context.linked.convertSchema "a.json" (.obj [("$ref", .str "#/pair")]) "#").run
      (.initial Context.linked)).1.toOption.isSome := by decide +kernel
  obtain ⟨⟨n, hn⟩, hsame⟩ := hpair.2 fun location chain h => by
    rw [h] at hok
    cases hok
  exact ⟨hnode.1.mp ⟨_, _, hcycle⟩, n, hsame n hn⟩

end ApiTypes
