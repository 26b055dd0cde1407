import ApiTypes.Proofs.Run.Reach

/-!
# Conversions and the registry

What is registered only chooses the names in a converted type. From two states
of a run with the same paths in flight a conversion does the same and ends in
the same way, with types that differ in identifiers of the same canonical paths
only. A conversion that is made again gives the type that it gave before.
-/

namespace ApiTypes

/-- Two ends of a conversion that differ in the identifiers of components only:
the same failure, or types whose components are registered for the same
canonical paths. -/
inductive SameUpToNames (r₁ r₂ : Registry) :
    Except Failure TypeExpr → Except Failure TypeExpr → Prop
  /-- Both give a type. -/
  | ok {type₁ type₂ : TypeExpr}
    (registered₁ : ∀ identifier ∈ type₁.components, ∃ path, r₁.pathOf? identifier = some path)
    (registered₂ : ∀ identifier ∈ type₂.components, ∃ path, r₂.pathOf? identifier = some path)
    (same : type₁.rename r₁.pathOfIdentifier = type₂.rename r₂.pathOfIdentifier) :
    SameUpToNames r₁ r₂ (.ok type₁) (.ok type₂)
  /-- Both fail. -/
  | error (failure : Failure) : SameUpToNames r₁ r₂ (.error failure) (.error failure)

/-- The conversions of schemas: inside a run, with what may nest in them, and
with a report of the error in the schemas that stops them. -/
inductive Context.IsConversion (context : Context) : Run TypeExpr → Prop
  /-- The conversion of what was found at a path, with at most so many nested expansions. -/
  | nested (allowance : Nat) (point : String) (parent : Json) (path : String) (schema : Json) :
    context.IsConversion
      (Conversion.within context Run.expanding allowance point parent path schema)
  /-- The conversion of a schema of its own. -/
  | whole (entryPoint point : String) (schema : Json) (path : String) :
    context.IsConversion (context.convert entryPoint point schema path)

namespace Context.IsConversion

variable {context : Context} {m : Run TypeExpr}

/-- A conversion realizes a script that depends on the paths in flight, and
accounts for the names in its type. -/
theorem exists_script (h : context.IsConversion m) :
    ∃ script : List String → Script TypeExpr,
      (∀ s : RunState, Realizes Registry.Names m s (script s.inFlight)) ∧
        ∀ inFlight, (script inFlight).Accounts context := by
  cases h with
  | nested allowance point parent path schema =>
    exact ⟨fun inFlight =>
        Conversion.script context allowance (some inFlight) point parent path schema,
      fun s => Realizes.within allowance (.inFlight s) point parent path schema,
      fun inFlight => Conversion.script_accounts _ _ _ _ _ _⟩
  | whole entryPoint point schema path =>
    refine ⟨fun inFlight => Script.reporting entryPoint schema
      (Conversion.script context (Conversion.maxNested context schema + 1) (some inFlight) point
        .null path schema), fun s => ?_, fun inFlight => ?_⟩
    · exact (Realizes.within _ (.inFlight s) point .null path schema).reporting entryPoint schema
    · exact (Conversion.script_accounts _ _ _ _ _ _).reporting entryPoint schema

end Context.IsConversion

namespace Registry.Names

variable {r r' : Registry} {unnamed named : TypeExpr}

/-- With canonical paths in the place of identifiers, a named type is what it
was before. -/
theorem rename_pathOfIdentifier (h : r.Names unnamed named) (hsound : r.Sound) :
    named.rename r.pathOfIdentifier = unnamed := by
  obtain ⟨rfl, hregistered⟩ := h
  rw [Typed.rename_type, TypeExpr.rename_rename]
  refine (TypeExpr.rename_congr unnamed fun path hmem => ?_).trans (TypeExpr.rename_id unnamed)
  have hpath := pathOf?_identifierOf hsound (hregistered path (TypeExpr.mem_components.mpr hmem))
  rw [Function.comp_apply, pathOfIdentifier, hpath]
  rfl

/-- A later registry names a type in the same way. -/
theorem of_before (h : r.Names unnamed named) (hbefore : r.Before r') :
    r'.Names unnamed named := by
  obtain ⟨rfl, hregistered⟩ := h
  refine ⟨TypeExpr.rename_congr unnamed fun path hmem => ?_, fun path hmem =>
    hbefore.paths_subset (hregistered path hmem)⟩
  have hpath := pathOf?_identifierOf hbefore.left_sound
    (hregistered path (TypeExpr.mem_components.mpr hmem))
  have hname := (hbefore.right_sound.nameFor?_iff_pathOf? path _).mpr (hbefore.pathOf? hpath)
  rw [identifierOf, identifierOf, hname]
  rfl

/-- A later registry gives the same names. -/
theorem eq_of_before (h : r.Names unnamed named) (hbefore : r.Before r') {named' : TypeExpr}
    (h' : r'.Names unnamed named') : named' = named :=
  h'.1.trans (h.of_before hbefore).1.symm

end Registry.Names

/-- Requests for registered paths change nothing. -/
theorem Registry.ensureAll_of_mem {r : Registry} {requests : List NameRequest}
    (h : ∀ request ∈ requests, request.canonicalPath ∈ r.paths) : r.ensureAll requests = r := by
  induction requests with
  | nil => rfl
  | cons request rest ih =>
    have hfirst : (r.ensure request).2 = r := by
      rcases r.ensure_cases request with ⟨_, _, heq⟩ | ⟨hnone, _⟩
      · rw [heq]
      · exact absurd (h request (List.mem_cons_self ..)) ((r.find?_eq_none_iff _).mp hnone)
    rw [ensureAll, List.foldl_cons, hfirst]
    exact ih fun other hmem => h other (List.mem_cons_of_mem _ hmem)

namespace Realizes

variable {context : Context} {m : Run TypeExpr} {script : Script TypeExpr} {s₁ s₂ : RunState}

/-- Two ends of a step that realizes one script differ in names only. -/
theorem same_up_to_names (h₁ : Realizes Registry.Names m s₁ script)
    (h₂ : Realizes Registry.Names m s₂ script) (hsound₁ : s₁.Sound context)
    (hsound₂ : s₂.Sound context) :
    SameUpToNames (m.run s₁).2.registry (m.run s₂).2.registry (m.run s₁).1 (m.run s₂).1 := by
  obtain ⟨result₁, hrun₁, hresult₁⟩ := h₁
  obtain ⟨result₂, hrun₂, hresult₂⟩ := h₂
  have hend₁ := (hsound₁.after script.events).1.registry
  have hend₂ := (hsound₂.after script.events).1.registry
  rw [hrun₁, hrun₂]
  generalize script.result = scripted at hresult₁ hresult₂
  cases hresult₁ with
  | error failure =>
    cases hresult₂
    exact .error failure
  | ok hnames₁ =>
    cases hresult₂ with
    | ok hnames₂ =>
      refine .ok (hnames₁.exists_pathOf? hend₁) (hnames₂.exists_pathOf? hend₂) ?_
      rw [hnames₁.rename_pathOfIdentifier hend₁, hnames₂.rename_pathOfIdentifier hend₂]

/-- A step that realizes one script again, in a later state, ends as before and
registers nothing. -/
theorem again (h₁ : Realizes Registry.Names m s₁ script)
    (h₂ : Realizes Registry.Names m s₂ script) (hsound₂ : s₂.Sound context)
    (hbefore : (s₁.after script.events).registry.Before s₂.registry) :
    (m.run s₂).1 = (m.run s₁).1 ∧ (m.run s₂).2.registry = s₂.registry := by
  obtain ⟨result₁, hrun₁, hresult₁⟩ := h₁
  obtain ⟨result₂, hrun₂, hresult₂⟩ := h₂
  have hlater := hbefore.trans (hsound₂.after script.events).2
  rw [hrun₁, hrun₂]
  refine ⟨?_, Registry.ensureAll_of_mem fun request hrequest => ?_⟩
  · generalize script.result = scripted at hresult₁ hresult₂
    cases hresult₁ with
    | error failure =>
      cases hresult₂
      rfl
    | ok hnames₁ =>
      cases hresult₂ with
      | ok hnames₂ => exact congrArg Except.ok (hnames₁.eq_of_before hlater hnames₂)
  · -- The first time the name was asked for as well.
    refine hbefore.paths_subset ?_
    rw [RunState.registry_after, Registry.paths_ensureAll]
    exact Registry.mem_appendNew.mpr (Or.inr (List.mem_map_of_mem hrequest))

end Realizes

/-- A conversion that starts in two states of runs of one context with the same
paths in flight has the same events in both, among them the diagnostics that it
reports and the names that it asks for. It fails with the same failure or gives
types that are equal once identifiers are replaced by the canonical paths that
they are registered for. When calls lead from its end to a state with the same
paths in flight, the conversion ends there as it did before, and registers
nothing. -/
theorem conversion_same_up_to_names {context : Context} {types₁ types₂ : List TypeExpr}
    {s₁ s₂ : RunState} {m : Run TypeExpr} (h₁ : context.Reaches types₁ s₁)
    (h₂ : context.Reaches types₂ s₂) (hinFlight : s₁.inFlight = s₂.inFlight)
    (hm : context.IsConversion m) :
    (∃ events : List Event, (m.run s₁).2.journal = events.reverse ++ s₁.journal ∧
      (m.run s₂).2.journal = events.reverse ++ s₂.journal ∧
      SameUpToNames (m.run s₁).2.registry (m.run s₂).2.registry (m.run s₁).1 (m.run s₂).1) ∧
    ∀ types s, context.Leads (m.run s₁).2 types s → s.inFlight = s₁.inFlight →
      (m.run s).1 = (m.run s₁).1 ∧ (m.run s).2.registry = s.registry := by
  obtain ⟨script, hscript, _⟩ := hm.exists_script
  have hsound₁ := (h₁.sound (.initial context)).1
  have hsound₂ := (h₂.sound (.initial context)).1
  have hrealizes₁ := hscript s₁
  have hrealizes₂ := hscript s₂
  rw [← hinFlight] at hrealizes₂
  refine ⟨⟨(script s₁.inFlight).events, ?_, ?_, ?_⟩, ?_⟩
  · rw [hrealizes₁.state_eq]
    rfl
  · rw [hrealizes₂.state_eq]
    rfl
  · exact hrealizes₁.same_up_to_names hrealizes₂ hsound₁ hsound₂
  · intro types s hleads hsame
    rw [hrealizes₁.state_eq] at hleads
    have hrealizes := hscript s
    rw [hsame] at hrealizes
    obtain ⟨hsound, hbefore, _⟩ := hleads.sound (hsound₁.after _).1
    exact hrealizes₁.again hrealizes hsound hbefore

/-- A document with two components that refer to each other. -/
def Context.petOwner : Context where
  graph := {
    documents := [("openapi.json", .obj [("components", .obj [("schemas", .obj [
      ("Pet", .obj [("type", .str "object"), ("properties", .obj [
        ("owner", .obj [("$ref", .str "#/components/schemas/Owner")])])]),
      ("Owner", .obj [("type", .str "array"), ("items",
        .obj [("$ref", .str "#/components/schemas/Pet")])])])])])]
    entryPoint := "openapi.json"
    componentRoot := .str "components"
    componentDirectories := [.str "schemas"] }

/-- The conversion of a reference to the first of the two components. -/
def Context.petConversion : Run TypeExpr :=
  Context.petOwner.convert "openapi.json" "openapi.json"
    (.obj [("$ref", .str "#/components/schemas/Pet")]) "#"

/-- The state after a schema of another document got the name of the first
component. -/
def RunState.petTaken : RunState :=
  (((Call.ensure ⟨"shared.json#/Pet", "Pet", "", "shared.json", ["Pet"]⟩).perform
    Context.petOwner).run (.initial Context.petOwner)).2

/-- The component has another identifier when its name was taken, for the same
canonical path. -/
theorem petConversion_same_up_to_names :
    (Context.petConversion.run (.initial Context.petOwner)).1.toOption.map TypeExpr.components =
      some ["Pet"] ∧
    (Context.petConversion.run .petTaken).1.toOption.map TypeExpr.components = some ["Pet2"] ∧
    SameUpToNames (Context.petConversion.run (.initial Context.petOwner)).2.registry
      (Context.petConversion.run .petTaken).2.registry
      (Context.petConversion.run (.initial Context.petOwner)).1
      (Context.petConversion.run .petTaken).1 := by
  have hfirst : Context.petOwner.Reaches [] (.initial Context.petOwner) := .refl
  have hsecond : Context.petOwner.Reaches _ .petTaken := .call .refl (.ensure _)
  obtain ⟨⟨_, _, _, hsame⟩, _⟩ := conversion_same_up_to_names hfirst hsecond rfl
    (.whole "openapi.json" "openapi.json" _ "#")
  exact ⟨by decide +kernel, by decide +kernel, hsame⟩

end ApiTypes
