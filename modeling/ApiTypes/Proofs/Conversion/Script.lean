import ApiTypes.Proofs.Conversion.Node

/-!
# Scripts of conversions

The script of a conversion reads schemas and references like the conversion
itself, but writes canonical paths where the conversion writes identifiers, and
so does not depend on what is registered. The conversion realizes its script:
the registry only chooses the names.
-/

namespace ApiTypes

/-- The identifier that stands for a canonical path, which is the path itself as
long as it is not registered. -/
def Registry.identifierOf (r : Registry) (path : String) : String := (r.nameFor? path).getD path

/-- A value made of types is named by a registry after one that has canonical
paths in the place of identifiers: all of them are registered. -/
def Registry.Names {α : Type} [Typed α] (r : Registry) (unnamed named : α) : Prop :=
  named = Typed.rename r.identifierOf unnamed ∧ ∀ path ∈ Typed.components unnamed, path ∈ r.paths

namespace Registry.Names

variable {r : Registry}

/-- The identifier of a registered path stays the same. -/
theorem identifierOf_ensureAll {path : String} (h : path ∈ r.paths) (requests : List NameRequest) :
    (r.ensureAll requests).identifierOf path = r.identifierOf path := by
  cases hfind : r.find? path with
  | none => exact absurd h ((r.find?_eq_none_iff path).mp hfind)
  | some entry =>
    have hafter := find?_ensureAll_of_some hfind requests
    rw [identifierOf, identifierOf, nameFor?, nameFor?, hfind, hafter]

/-- A named type stays named when more schemas are registered. -/
theorem ensureAll {unnamed named : TypeExpr} (h : r.Names unnamed named)
    (requests : List NameRequest) : (r.ensureAll requests).Names unnamed named := by
  obtain ⟨rfl, hregistered⟩ := h
  constructor
  · apply TypeExpr.rename_congr
    intro path hmem
    have hpath := hregistered path (TypeExpr.mem_components.mpr hmem)
    exact (identifierOf_ensureAll hpath requests).symm
  · intro path hmem
    rw [paths_ensureAll]
    exact mem_appendNew.mpr (Or.inl (hregistered path hmem))

theorem nil : r.Names ([] : List TypeExpr) [] := ⟨rfl, nofun⟩

theorem cons {unnamed named : TypeExpr} {others others' : List TypeExpr}
    (h : r.Names unnamed named) (hothers : r.Names others others') :
    r.Names (unnamed :: others) (named :: others') := by
  obtain ⟨rfl, hregistered⟩ := h
  obtain ⟨rfl, hothers⟩ := hothers
  refine ⟨rfl, fun path hmem => ?_⟩
  rw [Typed.components_cons, List.mem_append] at hmem
  exact hmem.elim (hregistered path) (hothers path)

/-- The name of a registered component. -/
theorem component {path identifier : String} (h : r.nameFor? path = some identifier) :
    r.Names (TypeExpr.component path) (.component identifier) := by
  constructor
  · rw [Typed.rename_type, TypeExpr.rename, identifierOf, h]
    rfl
  · intro other hmem
    obtain rfl : other = path := by
      simpa [Typed.components_type, TypeExpr.components, TypeExpr.names, TypeName.identifier?]
        using hmem
    by_cases hregistered : other ∈ r.paths
    · exact hregistered
    · rw [nameFor?, (r.find?_eq_none_iff other).mpr hregistered] at h
      cases h

end Registry.Names

/-- Where a reference leads. -/
inductive Destination where
  /-- To a component, whose name is asked for. -/
  | component (request : NameRequest)
  /-- To a place in a document. -/
  | place (documentPoint : String) (path : List String)

namespace Context

variable (context : Context)

/-- The script of reading a reference from a document. -/
def referenceScript (currentPoint : String) : Json → Script Reference
  | .str written => do
    Script.record (.classified currentPoint written)
    Script.ofExcept (Reference.classify context.graph currentPoint written)
  | _ => Script.ofExcept (.error (.malformed .notText))

/-- The script of finding out where a reference to a place leads. -/
def placeScript (reference : Reference) : Script Destination := do
  let componentDepth ← Script.ofExcept context.settings.depth
  if context.settings.namesComponent componentDepth reference then
    let _ ← Script.lookup context reference.documentPoint reference.path
    Script.record (.named (context.placeRequest componentDepth reference))
    return .component (context.placeRequest componentDepth reference)
  else return .place reference.documentPoint reference.path

/-- The script of finding out where a reference leads. -/
def destination (currentPoint : String) (ref : Json) : Script Destination := do
  let reference ← context.referenceScript currentPoint ref
  match reference.kind with
  | .componentDocument component =>
    let _ ← Script.document context reference.documentPoint
    Script.record (.named (documentRequest reference component))
    return .component (documentRequest reference component)
  | _ => context.placeScript reference

end Context

/-- A resolution that agrees with where a reference leads. -/
def Resolution.LeadsTo (r : Registry) : Destination → Resolution → Prop
  | .component request, resolution =>
    ∃ identifier, resolution.identifier? = some identifier ∧
      r.nameFor? request.canonicalPath = some identifier
  | .place documentPoint path, resolution =>
    resolution.identifier? = none ∧ resolution.documentPoint = documentPoint ∧
      resolution.path = path ∧ resolution.canonicalPath = Pointer.locate documentPoint path ∧
      ∀ component, resolution.kind ≠ .componentDocument component

namespace Realizes

variable {context : Context} {s : RunState}

theorem classify (currentPoint : String) (ref : Json) :
    Realizes (fun _ b a => b = a) (context.classify currentPoint ref) s
      (context.referenceScript currentPoint ref) := by
  cases ref with
  | str written => exact bind (record (by simp)) fun _ _ _ => ofExcept _
  | _ => exact fail _

theorem resolvePlace {reference : Reference}
    (hkind : ∀ component, reference.kind ≠ .componentDocument component) :
    Realizes Resolution.LeadsTo (context.resolvePlace reference) s
      (context.placeScript reference) := by
  refine bind (ofExcept _) ?_
  rintro componentDepth _ rfl
  refine get ?_
  by_cases hcomponent : context.settings.namesComponent componentDepth reference
  · simp only [hcomponent, ↓reduceIte, pure_bind]
    refine bind (lookup context _ _) fun _ _ _ => ?_
    refine bind (ensure _) fun _ identifier hidentifier => ?_
    exact get (pure ⟨identifier, rfl, hidentifier⟩)
  · simp only [hcomponent, Bool.false_eq_true, ↓reduceIte, pure_bind]
    exact get (pure ⟨rfl, rfl, rfl, rfl, hkind⟩)

theorem resolve (currentPoint : String) (ref : Json) :
    Realizes Resolution.LeadsTo (context.resolve currentPoint ref) s
      (context.destination currentPoint ref) := by
  refine bind (classify currentPoint ref) ?_
  rintro reference _ rfl
  cases hkind : reference.kind with
  | componentDocument component =>
    simp only
    refine bind (document context _) fun _ _ _ => ?_
    exact bind (ensure _) fun _ identifier hidentifier => pure ⟨identifier, rfl, hidentifier⟩
  | sameDocument => exact resolvePlace (by simp [hkind])
  | otherDocument => exact resolvePlace (by simp [hkind])

end Realizes

namespace Conversion

/-- The paths that are being expanded, when they are watched. -/
abbrev Watch := Option (List String)

/-- The script of a step under a guard of a canonical path. -/
def watching {α : Type} (watch : Watch) (canonicalPath : String) (step : Watch → Script α) :
    Script α :=
  match watch with
  | none => step none
  | some inFlight =>
    if canonicalPath ∈ inFlight then
      Script.ofExcept (.error (.schema (.cycle canonicalPath inFlight)))
    else do
      Script.record (.entered (inFlight ++ [canonicalPath]))
      step (some (inFlight ++ [canonicalPath]))

/-- The script of converting what is found, given what is watched. -/
abbrev ExpandScript := Watch → (point : String) → (parent : Json) → (path : String) →
  (schema : Json) → Script TypeExpr

/-- The script of converting what is found at a place, in an object that refers
to it. -/
def placedScript (context : Context) (expand : ExpandScript) (watch : Watch) (raw : Members)
    (documentPoint : String) (path : List String) : Script TypeExpr :=
  watching watch (Pointer.locate documentPoint path) fun watch => do
    let schema ← Script.lookup context documentPoint path
    expand watch documentPoint (.obj raw) (Pointer.locate "" path) schema

/-- The script of what a reference converts to. -/
def followScript (context : Context) (expand : ExpandScript) (watch : Watch) (point : String)
    (raw : Members) (ref : Json) : Script TypeExpr := do
  match ← context.destination point ref with
  | .component request => return .component request.canonicalPath
  | .place documentPoint path => placedScript context expand watch raw documentPoint path

/-- The script of a conversion with at most so many nested expansions, less one. -/
def script (context : Context) : Nat → ExpandScript
  | 0 => fun _ _ _ _ _ => Script.ofExcept (.error .exhausted)
  | allowance + 1 => fun watch point parent path schema => do
    let node ← Script.ofExcept (Schema.parse path schema)
    (nodePlan context point parent node).script
      (followScript context (script context allowance) watch point)

/-- A guard that lets every step through. -/
def unguarded : Guard := fun _ step => step

/-- What a guard watches in a state: nothing, or the paths in flight. -/
inductive Watches : Guard → RunState → Watch → Prop
  /-- Nothing is watched without a guard. -/
  | nothing (s : RunState) : Watches unguarded s none
  /-- The guard of a run watches the paths in flight. -/
  | inFlight (s : RunState) : Watches Run.expanding s (some s.inFlight)

/-- Events do not change what is watched. -/
theorem Watches.after {guard : Guard} {s : RunState} {watch : Watch} (h : Watches guard s watch)
    (events : List Event) : Watches guard (s.after events) watch := by
  cases h with
  | nothing => exact .nothing _
  | inFlight => exact .inFlight _

end Conversion

namespace Realizes

open Conversion

variable {context : Context} {s : RunState}

/-- A guarded step realizes a watched script when the step does, once the path
is in flight. -/
theorem guarded {β : Type} {V : Registry → β → TypeExpr → Prop} {guard : Guard} {watch : Watch}
    (hwatch : Watches guard s watch) (canonicalPath : String) {step : Run TypeExpr}
    {next : Watch → Script β}
    (hstep : ∀ s' watch', Watches guard s' watch' → Realizes V step s' (next watch')) :
    Realizes V (guard canonicalPath step) s (watching watch canonicalPath next) := by
  cases hwatch with
  | nothing => exact hstep s none (.nothing s)
  | inFlight =>
    simp only [watching]
    by_cases hmem : canonicalPath ∈ s.inFlight
    · rw [if_pos hmem]
      exact ⟨_, if_pos hmem, .error _⟩
    · rw [if_neg hmem]
      -- The step starts with the path in flight, and it is taken out again in the end.
      let started : RunState := { s with
        inFlight := s.inFlight ++ [canonicalPath]
        journal := .entered (s.inFlight ++ [canonicalPath]) :: s.journal }
      obtain ⟨result, hrun, hresult⟩ := hstep started _ (.inFlight started)
      refine ⟨result, ?_, hresult⟩
      have hexpanding : (Run.expanding canonicalPath step).run s =
          ((step.run started).1, { (step.run started).2 with
            inFlight := (step.run started).2.inFlight.dropLast }) := if_neg hmem
      rw [hexpanding, hrun, Script.record_bind]
      simp [RunState.after, started, Event.requests, List.filterMap_cons, Event.request?]

/-- Steps for several items realize their scripts one after another. -/
theorem mapM {γ : Type} {f : γ → Run TypeExpr} {g : γ → Script TypeExpr} {items : List γ}
    (h : ∀ item ∈ items, ∀ events, Realizes Registry.Names (f item) (s.after events) (g item)) :
    Realizes (fun r unnamed named => r.Names unnamed named ∧ unnamed.length = items.length)
      (items.mapM f) s (items.mapM g) := by
  induction items generalizing s with
  | nil =>
    simp only [List.mapM_nil]
    exact pure ⟨.nil, rfl⟩
  | cons item rest ih =>
    simp only [List.mapM_cons]
    refine bind (h item (List.mem_cons_self ..) []) fun unnamed named hnames => ?_
    have hrest := ih (s := s.after (g item).events) fun other hmem events => by
      rw [← RunState.after_append]
      exact h other (List.mem_cons_of_mem _ hmem) _
    refine bind hrest fun others others' hothers => pure ⟨?_, ?_⟩
    · exact (hnames.ensureAll _).cons hothers.1
    · rw [List.length_cons, List.length_cons, hothers.2]

/-- Carrying out a plan realizes its script when following references does. -/
theorem plan {plan : Plan context TypeExpr} {follow : Members → Json → Run TypeExpr}
    {follow' : Members → Json → Script TypeExpr}
    (h : ∀ raw ref events,
      Realizes Registry.Names (follow raw ref) (s.after events) (follow' raw ref)) :
    Realizes Registry.Names (plan.run follow) s (plan.script follow') := by
  refine bind (mapM fun task _ events => ?_) fun unnamed named hnames => pure ?_
  · cases task with
    | warn parent =>
      exact bind (record (by simp)) fun _ _ _ => pure ⟨rfl, nofun⟩
    | fail failure _ => exact fail failure
    | follow raw ref => exact h raw ref events
  · obtain ⟨⟨rfl, hregistered⟩, hlength⟩ := hnames
    refine ⟨(plan.rename_assemble _ unnamed hlength).symm, fun path hmem => ?_⟩
    rw [plan.components_assemble unnamed hlength] at hmem
    exact hregistered path (Typed.components_types unnamed ▸ hmem)

theorem follow {guard : Guard} {watch : Watch} (hwatch : Watches guard s watch)
    {expand : Expand} {expand' : ExpandScript}
    (h : ∀ s' watch' point parent path schema, Watches guard s' watch' →
      Realizes Registry.Names (expand point parent path schema) s'
        (expand' watch' point parent path schema)) (point : String) (raw : Members) (ref : Json) :
    Realizes Registry.Names (Conversion.follow context guard expand point raw ref) s
      (followScript context expand' watch point raw ref) := by
  refine bind (resolve point ref) fun destination resolution hleads => ?_
  cases destination with
  | component request =>
    obtain ⟨identifier, hidentifier, hname⟩ := hleads
    simp only [hidentifier]
    exact pure (.component hname)
  | place documentPoint path =>
    obtain ⟨hidentifier, rfl, rfl, hcanonical, hkind⟩ := hleads
    simp only [hidentifier, hcanonical]
    apply guarded (hwatch.after _)
    intro s' watch' hwatch'
    have htarget : context.target resolution =
        Run.lookup context resolution.documentPoint resolution.path := by
      unfold Context.target
      split
      · rename_i component heq
        exact absurd heq (hkind component)
      · rfl
    rw [htarget]
    refine bind (lookup context _ _) ?_
    rintro schema _ rfl
    exact h _ _ _ _ _ _ (hwatch'.after _)

/-- A conversion realizes its script, whatever is registered. -/
theorem within {guard : Guard} {watch : Watch} (allowance : Nat) (hwatch : Watches guard s watch)
    (point : String) (parent : Json) (path : String) (schema : Json) :
    Realizes Registry.Names (Conversion.within context guard allowance point parent path schema) s
      (script context allowance watch point parent path schema) := by
  induction allowance generalizing s watch point parent path schema with
  | zero => exact fail .exhausted
  | succ allowance ih =>
    refine bind (ofExcept _) ?_
    rintro node _ rfl
    rw [ofNode_eq_run]
    apply plan
    intro raw ref events
    exact follow ((hwatch.after _).after events)
      (fun s' watch' point parent path schema hwatch' => ih hwatch' point parent path schema)
      point raw ref

/-- The conversion of a schema of its own watches the paths in flight. -/
theorem convertSchema (context : Context) (s : RunState) (point : String) (schema : Json)
    (path : String) (parent : Json) :
    Realizes Registry.Names (context.convertSchema point schema path parent) s
      (script context (maxNested context schema + 1) (some s.inFlight) point parent path schema) :=
  within _ (.inFlight s) point parent path schema

end Realizes

end ApiTypes
