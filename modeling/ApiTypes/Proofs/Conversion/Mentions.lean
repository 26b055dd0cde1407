import ApiTypes.Proofs.Conversion.Script

/-!
# What conversions mention

A conversion that succeeds has asked for the names of exactly the components in
its type, each time and in the order in which they occur. All other names in
the type come from the settings or the format rule.
-/

namespace ApiTypes

/-- The canonical paths whose names events ask for, in order. -/
def Event.asked (events : List Event) : List String :=
  (Event.requests events).map (·.canonicalPath)

/-- What is asked for by events one after another. -/
@[simp] theorem Event.asked_append (first second : List Event) :
    Event.asked (first ++ second) = Event.asked first ++ Event.asked second := by
  simp [Event.asked]

namespace Script

/-- The result of a script is related to the paths whose names it asks for. -/
def Asks {α : Type} (Q : α → List String → Prop) (script : Script α) : Prop :=
  ∀ a, script.result = .ok a → Q a (Event.asked script.events)

/-- A script that asks for no name. -/
def Quiet {α : Type} (script : Script α) : Prop := Event.asked script.events = []

namespace Quiet

variable {α β : Type} {context : Context}

/-- A calculation asks for nothing. -/
theorem ofExcept (result : Except Failure α) : (Script.ofExcept result).Quiet := rfl

/-- A document is asked for, but no name. -/
theorem document (point : String) : (Script.document context point).Quiet := by
  cases (context.graph.document point).mapError Failure.schema <;> rfl

/-- Looking something up asks for no name. -/
theorem lookup (point : String) (segments : List String) :
    (Script.lookup context point segments).Quiet := by
  cases context.graph.lookup point segments <;> rfl

/-- A report asks for no name. -/
theorem reporting {script : Script α} (h : script.Quiet) (entryPoint : String) (about : Json) :
    (script.reporting entryPoint about).Quiet := by
  unfold Script.reporting
  split
  · rw [Quiet, Event.asked_append, h]
    rfl
  · exact h

/-- A script that asks for no name leaves the registry as it is. -/
theorem registry_after {script : Script α} (h : script.Quiet) (s : RunState) :
    (s.after script.events).registry = s.registry := by
  have hnone : Event.requests script.events = [] := List.map_eq_nil_iff.mp h
  rw [RunState.registry_after, hnone]
  rfl

end Quiet

namespace Asks

variable {α β : Type} {Q : β → List String → Prop}

/-- A failure gives nothing to account for. -/
theorem fail (failure : Failure) : (Script.ofExcept (.error failure) : Script β).Asks Q := nofun

/-- Giving something asks for nothing. -/
theorem pure {b : β} (h : Q b []) : (Pure.pure b : Script β).Asks Q := by
  rintro _ ⟨⟩
  exact h

/-- A step that asks for no name can come before. -/
theorem bind_quiet {script : Script α} {next : α → Script β} (hquiet : script.Quiet)
    (hnext : ∀ a, (next a).Asks Q) : (script >>= next).Asks Q := by
  intro b hb
  obtain ⟨a, _, hresult, hevents⟩ := Script.exists_of_bind_ok hb
  have hasked := hnext a b hresult
  rwa [hevents, Event.asked_append, hquiet, List.nil_append]

/-- A request can come before a result that depends on it. -/
theorem named {request : NameRequest} {b : β} (h : Q b [request.canonicalPath]) :
    (Script.record (.named request) >>= fun _ => Pure.pure b : Script β).Asks Q := by
  rintro _ ⟨⟩
  exact h

/-- The report of an error asks for no name. -/
theorem reporting {script : Script β} (h : script.Asks Q) (entryPoint : String) (about : Json) :
    (script.reporting entryPoint about).Asks Q := by
  unfold Script.reporting
  split
  · rename_i error herror
    intro b hb
    rw [herror] at hb
    cases hb
  · exact h

end Asks

/-- A script asks for the components of its result, whose other names the
context supplies. -/
abbrev Accounts {α : Type} [Typed α] (context : Context) (script : Script α) : Prop :=
  script.Asks fun a asked =>
    asked = Typed.components a ∧ ∀ name ∈ Typed.externals a, context.Supplies name

namespace Accounts

variable {context : Context}

/-- Scripts for several items account for the types that they give. -/
theorem mapM {γ : Type} {f : γ → Script TypeExpr} {items : List γ}
    (h : ∀ item ∈ items, (f item).Accounts context) (types : List TypeExpr)
    (hresult : (items.mapM f).result = .ok types) :
    types.length = items.length ∧
      Event.asked (items.mapM f).events = types.flatMap TypeExpr.components ∧
      ∀ type ∈ types, ∀ name ∈ type.externals, context.Supplies name := by
  induction items generalizing types with
  | nil =>
    cases hresult
    exact ⟨rfl, rfl, nofun⟩
  | cons item rest ih =>
    rw [List.mapM_cons] at hresult ⊢
    obtain ⟨type, htype, hmore, hevents⟩ := Script.exists_of_bind_ok hresult
    obtain ⟨others, hothers, hpure, hmoreEvents⟩ := Script.exists_of_bind_ok hmore
    cases hpure
    obtain ⟨hasked, hexternals⟩ := h item (List.mem_cons_self ..) type htype
    obtain ⟨hlength, haskedRest, hexternalsRest⟩ :=
      ih (fun other hmem => h other (List.mem_cons_of_mem _ hmem)) others hothers
    refine ⟨by rw [List.length_cons, List.length_cons, hlength], ?_, ?_⟩
    · rw [hevents, hmoreEvents, Event.asked_append, Event.asked_append, hasked, haskedRest,
        List.flatMap_cons]
      exact congrArg _ (List.append_nil _)
    · intro other hmem
      rcases List.mem_cons.mp hmem with rfl | hmem
      · exact hexternals
      · exact hexternalsRest other hmem

/-- A plan accounts for its value when following references does. -/
theorem plan {plan : Conversion.Plan context TypeExpr} {follow : Members → Json → Script TypeExpr}
    (h : ∀ raw ref, (follow raw ref).Accounts context) : (plan.script follow).Accounts context := by
  intro type htype
  obtain ⟨types, htypes, hpure, hevents⟩ := Script.exists_of_bind_ok htype
  cases hpure
  have htasks : ∀ task ∈ plan.tasks, (Conversion.Task.script follow task).Accounts context := by
    intro task _
    cases task with
    | warn parent => exact .bind_quiet rfl fun _ => .pure ⟨rfl, nofun⟩
    | fail failure _ => exact .fail failure
    | follow raw ref => exact h raw ref
  obtain ⟨hlength, hasked, hexternals⟩ := mapM htasks types htypes
  constructor
  · rw [Conversion.Plan.script, hevents, Event.asked_append, hasked,
      plan.components_assemble types hlength]
    exact List.append_nil _
  · intro name hname
    rcases plan.externals_assemble types name hname with hsupplied | ⟨type, hmem, hname⟩
    · exact hsupplied
    · exact hexternals type hmem name hname

end Accounts

end Script

/-- The canonical paths that are asked for on the way to a destination. -/
def Destination.asked : Destination → List String
  | .component request => [request.canonicalPath]
  | .place .. => []

namespace Context

variable (context : Context)

/-- Finding the place of a reference asks for the name of the component there, if any. -/
theorem placeScript_asks (reference : Reference) :
    (context.placeScript reference).Asks fun destination asked => asked = destination.asked := by
  refine .bind_quiet (.ofExcept _) fun componentDepth => ?_
  split
  · exact .bind_quiet (.lookup _ _) fun _ => .named rfl
  · exact .pure rfl

/-- Finding out where a reference leads asks for the name of the component if it
leads to one, and for no other name. -/
theorem destination_asks (point : String) (ref : Json) :
    (context.destination point ref).Asks fun destination asked => asked = destination.asked := by
  have hquiet : (context.referenceScript point ref).Quiet := by
    cases ref <;> rfl
  refine .bind_quiet hquiet fun reference => ?_
  split
  · exact .bind_quiet (.document _) fun _ => .named rfl
  · exact context.placeScript_asks reference

end Context

namespace Conversion

variable {context : Context}

/-- A watched script accounts for its result when it does without being watched. -/
theorem watching_accounts {step : Watch → Script TypeExpr}
    (h : ∀ watch, (step watch).Accounts context) (watch : Watch) (canonicalPath : String) :
    (watching watch canonicalPath step).Accounts context := by
  cases watch with
  | none => exact h none
  | some inFlight =>
    unfold watching
    dsimp only
    split
    · exact .fail _
    · exact .bind_quiet rfl fun _ => h _

/-- Following a reference asks for what occurs in the type that it gives. -/
theorem followScript_accounts {expand : ExpandScript}
    (h : ∀ watch point parent path schema, (expand watch point parent path schema).Accounts context)
    (watch : Watch) (point : String) (raw : Members) (ref : Json) :
    (followScript context expand watch point raw ref).Accounts context := by
  intro type htype
  obtain ⟨destination, hdestination, hnext, hevents⟩ := Script.exists_of_bind_ok htype
  have hasked := context.destination_asks point ref destination hdestination
  rw [followScript, hevents, Event.asked_append, hasked]
  cases destination with
  | component request =>
    cases hnext
    exact ⟨rfl, nofun⟩
  | place documentPoint path =>
    have hstep (watch : Watch) : Script.Accounts context (do
        let schema ← Script.lookup context documentPoint path
        expand watch documentPoint (.obj raw) (Pointer.locate "" path) schema) :=
      .bind_quiet (.lookup _ _) fun _ => h _ _ _ _ _
    exact watching_accounts hstep watch _ type hnext

/-- A conversion that succeeds asks for the names of the components in its
type, in their order. -/
theorem script_accounts (allowance : Nat) (watch : Watch) (point : String) (parent : Json)
    (path : String) (schema : Json) :
    (script context allowance watch point parent path schema).Accounts context := by
  induction allowance generalizing watch point parent path schema with
  | zero => exact .fail .exhausted
  | succ allowance ih =>
    refine .bind_quiet rfl fun node => Script.Accounts.plan fun raw ref => ?_
    exact followScript_accounts ih watch point raw ref

end Conversion

end ApiTypes
