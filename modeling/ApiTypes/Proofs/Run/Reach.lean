import ApiTypes.Proofs.Run.Calls

/-!
# Reachable states

A run answers calls one after another: it converts schemas, resolves
references, registers components, and collects operations and declarations. A
call that fails keeps the state it has reached, and further calls may follow.
Every state that calls lead to is sound, and every type that was returned on the
way is settled.
-/

namespace ApiTypes

/-- A call of a run. -/
inductive Call where
  /-- Converts a schema and reports an error in the schemas. -/
  | convert (entryPoint point : String) (schema : Json) (path : String)
  /-- Converts a schema inside a parent. -/
  | convertSchema (point : String) (schema : Json) (path : String) (parent : Json)
  /-- Resolves a reference that was read from a document. -/
  | resolve (point : String) (ref : Json)
  /-- Looks up a path in a document. -/
  | lookup (point : String) (segments : List String)
  /-- Asks for the name of a schema. -/
  | ensure (request : NameRequest)
  /-- Registers the components of the entry document. -/
  | registerComponents
  /-- Collects the operations of the entry document. -/
  | operations
  /-- Generates the declarations of the registered schemas. -/
  | declarations
  /-- Puts a canonical path in flight unless it is. -/
  | enter (canonicalPath : String)
  /-- Takes the innermost path out of flight. -/
  | leave

namespace Call

/-- Carries out a call, and gives the types that it returns. -/
def perform (context : Context) : Call → Run (List TypeExpr)
  | .convert entryPoint point schema path => do
    return [← context.convert entryPoint point schema path]
  | .convertSchema point schema path parent => do
    return [← context.convertSchema point schema path parent]
  | .resolve point ref => do
    let _ ← context.resolve point ref
    return []
  | .lookup point segments => do
    let _ ← Run.lookup context point segments
    return []
  | .ensure request => do
    let _ ← Run.ensure request
    return []
  | .registerComponents => do
    let _ ← context.registerComponents
    return []
  | .operations => do return (← context.operations).flatMap Operation.types
  | .declarations => do return (← context.declarations).map (·.type)
  | .enter canonicalPath => ExceptT.mk fun s =>
    if canonicalPath ∈ s.inFlight then
      (.error (.schema (.cycle canonicalPath s.inFlight)), s)
    else
      let inFlight := s.inFlight ++ [canonicalPath]
      (.ok [], { s with inFlight, journal := .entered inFlight :: s.journal })
  | .leave => do
    modify fun s => { s with inFlight := s.inFlight.dropLast }
    return []

/-- The types that a call has returned. -/
def returned : Except Failure (List TypeExpr) → List TypeExpr
  | .ok types => types
  | .error _ => []

end Call

/-- The state after a call. -/
abbrev RunState.afterCall (s : RunState) (context : Context) (call : Call) : RunState :=
  ((call.perform context).run s).2

/-- Calls lead from one state to another one, and return types on the way. -/
inductive Context.Leads (context : Context) (s : RunState) : List TypeExpr → RunState → Prop
  /-- No call is made. -/
  | refl : context.Leads s [] s
  /-- One more call is made. -/
  | call {types : List TypeExpr} {s' : RunState} (h : context.Leads s types s') (call : Call) :
    context.Leads s (types ++ Call.returned ((call.perform context).run s').1)
      ((call.perform context).run s').2

/-- Calls lead from the start of a run to a state, and return types on the way. -/
abbrev Context.Reaches (context : Context) : List TypeExpr → RunState → Prop :=
  context.Leads (.initial context)

namespace Call

variable {context : Context}

/-- A call that does a whole piece of work, unlike the beginning and the end of an
expansion. -/
def IsWhole : Call → Prop
  | .enter _ => False
  | .leave => False
  | _ => True

/-- What a call may do in any state: read every reference that it meets, ask for the
document or the name that it is about, and finish declarations if it generates them. -/
def permission (call : Call) : Permission :=
  { Permission.readsAll with
    opens := ∃ point segments, call = .lookup point segments
    asks := ∃ request, call = .ensure request
    finishes := call = .declarations }

/-- A call may read what it meets, so all conversions in it are allowed. -/
theorem permission_suits (call : Call) : call.permission.Suits context :=
  ⟨fun _ _ _ _ _ => trivial, Or.inl trivial⟩

/-- Whole calls do no more than they may. They return settled types, provided that
what was finished before are declarations of entries. -/
theorem perform_does (context : Context) {call : Call} (h : call.IsWhole) (s : RunState) :
    Run.Does context call.permission (fun r types => (∀ d ∈ s.finished, context.Declares r d) →
      ∀ type ∈ types, context.Settles r type) (call.perform context) s := by
  have hR : call.permission.Suits context := call.permission_suits
  have hallows (point : String) (value : Json) : call.permission.reads.Allows point value :=
    fun _ _ => trivial
  have hone {r : Registry} {type : TypeExpr} (htype : context.Settles r type) :
      ∀ other ∈ [type], context.Settles r other := by
    intro other hmem
    obtain rfl := List.mem_singleton.mp hmem
    exact htype
  cases call with
  | convert entryPoint point schema path =>
    exact (Run.Does.convert hR.covers _ (hR.atMost schema) (hallows _ _) _).give
      fun _ _ htype _ => hone htype
  | convertSchema point schema path parent =>
    exact (Run.Does.convertSchema hR.covers (hR.atMost schema) (hallows _ _) _ _).give
      fun _ _ htype _ => hone htype
  | resolve point ref =>
    exact (Run.Does.resolve fun _ _ => trivial).give fun _ _ _ _ _ hmem => nomatch hmem
  | lookup point segments =>
    have hopens : (Call.lookup point segments).permission.Opens s.registry point :=
      .inl ⟨point, segments, rfl⟩
    exact (Run.Does.lookup hopens segments).give fun _ _ _ _ _ hmem => nomatch hmem
  | ensure request =>
    have harises : request.Arises context.graph (Call.ensure request).permission s.journal :=
      .inl ⟨request, rfl⟩
    exact (Run.Does.ensure harises).give fun _ _ _ _ _ hmem => nomatch hmem
  | registerComponents =>
    exact (Run.Does.registerComponents fun _ _ _ _ => trivial).give
      fun _ _ _ _ _ hmem => nomatch hmem
  | operations =>
    refine (Run.Does.operations hR (hallows _ _)).give
      fun r operations hoperations _ type hmem => ?_
    obtain ⟨operation, hoperation, htype⟩ := List.mem_flatMap.mp hmem
    exact hoperations operation hoperation type htype
  | declarations =>
    refine (Run.Does.declarations hR rfl).give fun r ds hds hfinished type hmem => ?_
    obtain ⟨d, hd, rfl⟩ := List.mem_map.mp hmem
    rcases hds d hd with hold | ⟨entry, hentry, hdefines⟩
    · exact (hfinished d hold).settled
    · exact (hdefines.declares hentry).settled
  | enter canonicalPath => exact h.elim
  | leave => exact h.elim

/-- An expansion begins by putting its path in flight, unless it is. -/
theorem run_enter (canonicalPath : String) (s : RunState) :
    ((Call.enter canonicalPath).perform context).run s =
      if canonicalPath ∈ s.inFlight then
        (.error (.schema (.cycle canonicalPath s.inFlight)), s)
      else (.ok [], s.entering canonicalPath) := rfl

/-- The beginning and the end of an expansion register, finish and return nothing. -/
theorem perform_of_not_isWhole (context : Context) {call : Call} (h : ¬ call.IsWhole)
    (s : RunState) :
    (s.afterCall context call).registry = s.registry ∧
    (s.afterCall context call).finished = s.finished ∧
    s.journal ⊆ (s.afterCall context call).journal ∧
    returned ((call.perform context).run s).1 = [] := by
  cases call with
  | enter canonicalPath =>
    rw [RunState.afterCall, run_enter]
    split
    · exact ⟨rfl, rfl, List.Subset.refl _, rfl⟩
    · exact ⟨rfl, rfl, List.subset_cons_self .., rfl⟩
  | leave => exact ⟨rfl, rfl, List.Subset.refl _, rfl⟩
  | _ => exact absurd trivial h

/-- How a call ends that started in a state: in a sound state with more
registered schemas. The types that it has returned are settled. -/
structure SoundEnd (context : Context) (s : RunState)
    (last : Except Failure (List TypeExpr) × RunState) : Prop where
  /-- The state in the end is sound. -/
  sound : last.2.Sound context
  /-- Entries are only added, at the end. -/
  entries_isPrefix : s.registry.entries <+: last.2.registry.entries
  /-- The names in returned types are known. -/
  settled : ∀ type ∈ returned last.1, context.Settles last.2.registry type

/-- A call leaves a sound state sound, and returns settled types. -/
theorem perform_sound (call : Call) {s : RunState} (hs : s.Sound context) :
    SoundEnd context s ((call.perform context).run s) := by
  by_cases hwhole : call.IsWhole
  · have hdoes := perform_does context hwhole s
    obtain ⟨hsound, hbefore⟩ := hdoes.progress.sound hs
    refine ⟨hsound, hbefore.entries_isPrefix, ?_⟩
    cases hresult : ((call.perform context).run s).1 with
    | error failure => exact fun _ hmem => nomatch hmem
    | ok types =>
      exact hdoes.gives types hresult fun d hd => (hs.finished d hd).mono hbefore.entries_isPrefix
  · obtain ⟨hregistry, hfinished, _, hnone⟩ := perform_of_not_isWhole context hwhole s
    refine ⟨⟨?_, ?_⟩, ?_, ?_⟩
    · rw [hregistry]
      exact hs.registry
    · rw [hregistry, hfinished]
      exact hs.finished
    · exact hregistry ▸ List.prefix_refl s.registry.entries
    · rw [hnone]
      exact fun _ hmem => nomatch hmem

end Call

/-- A run starts in a sound state. -/
theorem RunState.Sound.initial (context : Context) : (RunState.initial context).Sound context :=
  ⟨.empty _, fun _ hmem => nomatch hmem⟩

namespace Context.Leads

variable {context : Context} {s s' : RunState} {types : List TypeExpr}

/-- Calls lead from a sound state to a sound one with more registered schemas,
and the types that they return are settled. -/
theorem sound (h : context.Leads s types s') (hs : s.Sound context) :
    s'.Sound context ∧ s.registry.Before s'.registry ∧
      ∀ type ∈ types, context.Settles s'.registry type := by
  induction h with
  | refl => exact ⟨hs, .refl hs.registry, fun _ hmem => nomatch hmem⟩
  | @call types s' _ call ih =>
    obtain ⟨hs', hbefore, hsettled⟩ := ih
    have hend := call.perform_sound hs'
    have hgrown : s'.registry.Before ((call.perform context).run s').2.registry :=
      ⟨hs'.registry, hend.sound.registry, hend.entries_isPrefix⟩
    refine ⟨hend.sound, hbefore.trans hgrown, fun type hmem => ?_⟩
    rcases List.mem_append.mp hmem with hmem | hmem
    · exact (hsettled type hmem).mono hgrown.entries_isPrefix
    · exact hend.settled type hmem

end Context.Leads

/-- Calls of one kind lead from one state to another one. -/
inductive Context.LeadsBy (context : Context) (kind : Call → Prop) (s : RunState) :
    RunState → Prop
  /-- No call is made. -/
  | refl : context.LeadsBy kind s s
  /-- One more call is made. -/
  | call {s' : RunState} (h : context.LeadsBy kind s s') (call : Call) (hkind : kind call) :
    context.LeadsBy kind s ((call.perform context).run s').2

/-- Calls of one kind are calls. -/
theorem Context.LeadsBy.leads {context : Context} {kind : Call → Prop} {s s' : RunState}
    (h : context.LeadsBy kind s s') : ∃ types, context.Leads s types s' := by
  induction h with
  | refl => exact ⟨_, .refl⟩
  | call _ call _ ih =>
    obtain ⟨_, hleads⟩ := ih
    exact ⟨_, .call hleads call⟩

end ApiTypes
