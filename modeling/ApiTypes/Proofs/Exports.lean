import ApiTypes.CommandLine
import ApiTypes.Proofs.Run.Denotation
import Mathlib.Data.List.Nodup
import Mathlib.Data.List.Perm.Basic

/-!
# Exported names

A module exports its declarations and the types of its operations. The registry hands
out every identifier once, so declarations have names of their own. The name of the
type of an operation is built from the name of the operation, and for a response from
its status too, by replacing what may not stand in an identifier: the names of two
types are the same when these are written alike or differ only in such characters.
-/

namespace ApiTypes

/-- The text of a declaration has its name. -/
theorem Declaration.render_name {layout : Layout} {d : Declaration} {rendered : Rendered}
    (h : d.render layout = .ok rendered) : rendered.name = d.identifier := by
  obtain ⟨_, _, hmore⟩ := Calculation.exists_of_bind_ok h
  obtain ⟨_, _, hpure⟩ := Calculation.exists_of_bind_ok hmore
  cases hpure
  rfl

namespace Operation

variable {layout : Layout} {operation : Operation} {operations : List Operation}

/-- The name of an operation, escaped; an operation without one has the escaped empty
name. -/
def escapedId (operation : Operation) : String :=
  match operation.operationId with
  | .str name => Identifier.escape name
  | _ => "_"

/-- A status as it appears in the name of the type of a response. -/
def escapedStatus (status : String) : String :=
  String.ofList (Identifier.replaceInvalid status.toList)

/-- The names of the types of an operation, in the order in which they are printed. -/
def typeNames (operation : Operation) : List String :=
  (if operation.parameters?.isSome then [parametersName operation.escapedId] else []) ++
    (if operation.requestBodies.isEmpty then [] else [requestBodyName operation.escapedId]) ++
    operation.responses.map fun entry => responseName operation.escapedId entry.1

theorem baseName_eq {base : String} (h : operation.baseName = .ok base) :
    base = operation.escapedId := by
  unfold baseName at h
  unfold escapedId
  cases hid : operation.operationId with
  | str name =>
    rw [hid] at h
    by_cases htruthy : (Json.str name).truthy = true
    · rw [if_pos htruthy] at h
      exact (Except.ok.inj h).symm
    · rw [if_neg htruthy] at h
      have hempty : name = "" := by simpa [Json.truthy] using htruthy
      rw [hempty, ← Except.ok.inj h]
      rfl
  | _ =>
    rw [hid] at h
    split at h
    · cases h
    · exact (Except.ok.inj h).symm

/-- The type of the parameters, if there are any. -/
def parameterTypes (layout : Layout) (base comment : String) (operation : Operation) :
    Except Failure (List Rendered) :=
  match operation.parameters? with
  | some type => do return [⟨parametersName base, ← type.print layout 0, comment, false⟩]
  | none => .ok []

/-- The type of the bodies of the request, if there are any. -/
def bodyTypes (layout : Layout) (base : String) (operation : Operation) :
    Except Failure (List Rendered) :=
  if operation.requestBodies.isEmpty then .ok []
  else do
    let body ← (Content.toType operation.requestBodies).print layout 0
    return [{ name := requestBodyName base, body }]

/-- The type of the bodies of a response. -/
def responseType (layout : Layout) (base : String) (entry : String × Content) :
    Except Failure Rendered := do
  let body ← (Content.toType entry.2).print layout 0
  return { name := responseName base entry.1, body }

theorem render_eq (layout : Layout) (operation : Operation) :
    operation.render layout = do
      let base ← operation.baseName
      let comment ← Rendered.commentOf operation.summary
      let parameters ← operation.parameterTypes layout base comment
      let bodies ← operation.bodyTypes layout base
      let responses ← operation.responses.mapM (responseType layout base)
      return parameters ++ bodies ++ responses := by
  refine congrArg (operation.baseName >>= ·) (funext fun base => ?_)
  refine congrArg (Rendered.commentOf operation.summary >>= ·) (funext fun comment => ?_)
  rw [parameterTypes, bodyTypes]
  cases operation.parameters? with
  | none => split <;> (simp only [bind_assoc, pure_bind]; rfl)
  | some type =>
    split <;> (simp only [bind_assoc, pure_bind]; rfl)

/-- An operation exports the types of its parameters, its bodies and its responses. -/
theorem render_names {rendered : List Rendered} (h : operation.render layout = .ok rendered) :
    rendered.map (·.name) = operation.typeNames := by
  rw [render_eq] at h
  obtain ⟨base, hbase, hmore⟩ := Calculation.exists_of_bind_ok h
  obtain ⟨comment, _, hmore⟩ := Calculation.exists_of_bind_ok hmore
  obtain ⟨parameters, hparameters, hmore⟩ := Calculation.exists_of_bind_ok hmore
  obtain ⟨bodies, hbodies, hmore⟩ := Calculation.exists_of_bind_ok hmore
  obtain ⟨responses, hresponses, hpure⟩ := Calculation.exists_of_bind_ok hmore
  cases hpure
  obtain rfl := baseName_eq hbase
  have hparameterNames : parameters.map (·.name) =
      if operation.parameters?.isSome then [parametersName operation.escapedId] else [] := by
    unfold parameterTypes at hparameters
    split at hparameters
    · rename_i hsome
      obtain ⟨_, _, hpure⟩ := Calculation.exists_of_bind_ok hparameters
      cases hpure
      rw [hsome]
      rfl
    · rename_i hnone
      cases hparameters
      rw [hnone]
      rfl
  have hbodyNames : bodies.map (·.name) =
      if operation.requestBodies.isEmpty then [] else [requestBodyName operation.escapedId] := by
    unfold bodyTypes at hbodies
    split at hbodies
    · rename_i hnone
      cases hbodies
      rw [if_pos hnone]
      rfl
    · rename_i hsome
      obtain ⟨_, _, hpure⟩ := Calculation.exists_of_bind_ok hbodies
      cases hpure
      rw [if_neg hsome]
      rfl
  have hresponseNames : responses.map (·.name) =
      operation.responses.map fun entry => responseName operation.escapedId entry.1 := by
    refine Calculation.map_of_mapM_ok (fun entry response hresponse => ?_) hresponses
    obtain ⟨_, _, hpure⟩ := Calculation.exists_of_bind_ok hresponse
    cases hpure
    rfl
  rw [typeNames, List.map_append, List.map_append, hparameterNames, hbodyNames, hresponseNames]

/-- What the types of the responses of an operation are named after. -/
def responseKeys (operation : Operation) : List String :=
  operation.responses.map fun entry =>
    operation.escapedId ++ ("$Status$" ++ escapedStatus entry.1)

/-- What the types of operations are named after is not written twice. -/
structure NamedApart (operations : List Operation) : Prop where
  /-- Operations with parameters differ in their names. -/
  parameters : ((operations.filter (·.parameters?.isSome)).map escapedId).Nodup
  /-- Operations with bodies differ in their names. -/
  bodies : ((operations.filter (!·.requestBodies.isEmpty)).map escapedId).Nodup
  /-- Responses differ in the name of their operation with their status. -/
  responses : (operations.flatMap responseKeys).Nodup

/-- What is named after the operations of one kind has a name for each of them. -/
theorem flatMap_ite_eq (before : String) (p : Operation → Bool) (operations : List Operation) :
    operations.flatMap (fun operation =>
        if p operation then [before ++ operation.escapedId] else []) =
      ((operations.filter p).map escapedId).map (before ++ ·) := by
  induction operations with
  | nil => rfl
  | cons operation rest ih =>
    rw [List.flatMap_cons, ih, List.filter_cons]
    split <;> rfl

/-- The names of all types, grouped by what they are types of. -/
theorem typeNames_perm (operations : List Operation) :
    (operations.flatMap typeNames).Perm
      (((operations.filter (·.parameters?.isSome)).map escapedId).map ("Parameter$" ++ ·) ++
        ((operations.filter (!·.requestBodies.isEmpty)).map escapedId).map ("RequestBody$" ++ ·) ++
        (operations.flatMap responseKeys).map ("Response$" ++ ·)) := by
  have hbodies : (fun operation : Operation =>
      if operation.requestBodies.isEmpty then [] else [requestBodyName operation.escapedId]) =
      fun operation => if !operation.requestBodies.isEmpty then
        ["RequestBody$" ++ operation.escapedId] else [] := by
    funext operation
    cases operation.requestBodies.isEmpty <;> rfl
  have hresponses : (fun operation : Operation =>
      operation.responses.map fun entry => responseName operation.escapedId entry.1) =
      fun operation => operation.responseKeys.map ("Response$" ++ ·) := by
    funext operation
    rw [responseKeys, List.map_map]
    refine List.map_congr_left fun entry _ => ?_
    simp only [responseName, Function.comp_apply, escapedStatus, String.append_assoc]
  rw [← flatMap_ite_eq, ← flatMap_ite_eq, List.map_flatMap, ← hresponses, ← hbodies]
  exact ((List.flatMap_append_perm operations _ _).append_right _).trans
    (List.flatMap_append_perm operations _ _) |>.symm

/-- Types of operations have names of their own if what they are named after differs. -/
theorem nodup_typeNames_iff (operations : List Operation) :
    (operations.flatMap typeNames).Nodup ↔ NamedApart operations := by
  have hinjective (before : String) : Function.Injective (before ++ ·) :=
    fun _ _ h => (String.append_right_inj before).mp h
  have hparameters (a b : String) : "Parameter$" ++ a ≠ "RequestBody$" ++ b := by
    intro h
    simpa using congrArg String.toList h
  have hresponses (a b : String) : "Parameter$" ++ a ≠ "Response$" ++ b := by
    intro h
    simpa using congrArg String.toList h
  have hbodies (a b : String) : "RequestBody$" ++ a ≠ "Response$" ++ b := by
    intro h
    simpa using congrArg String.toList h
  rw [(typeNames_perm operations).nodup_iff, List.nodup_append, List.nodup_append,
    List.nodup_map_iff (hinjective _), List.nodup_map_iff (hinjective _),
    List.nodup_map_iff (hinjective _)]
  constructor
  · rintro ⟨⟨hparameter, hbody, _⟩, hresponse, _⟩
    exact ⟨hparameter, hbody, hresponse⟩
  · rintro ⟨hparameter, hbody, hresponse⟩
    refine ⟨⟨hparameter, hbody, fun name hname other hother => ?_⟩, hresponse,
      fun name hname other hother => ?_⟩
    · obtain ⟨_, _, rfl⟩ := List.mem_map.mp hname
      obtain ⟨_, _, rfl⟩ := List.mem_map.mp hother
      exact hparameters _ _
    · obtain ⟨_, _, rfl⟩ := List.mem_map.mp hother
      rcases List.mem_append.mp hname with hname | hname
      · obtain ⟨_, _, rfl⟩ := List.mem_map.mp hname
        exact hresponses _ _
      · obtain ⟨_, _, rfl⟩ := List.mem_map.mp hname
        exact hbodies _ _

end Operation

namespace Module

variable {layout : Layout} {declarations : List Declaration} {operations : List Operation}

/-- The names that a module exports: those of its declarations, then those of the types
of its operations when these are printed. -/
def exports (layout : Layout) (declarations : List Declaration) (operations : List Operation) :
    List String :=
  declarations.map (·.identifier) ++
    if layout.operations.truthy then operations.flatMap Operation.typeNames else []

theorem render_names {rendered : List Rendered}
    (h : render layout declarations operations = .ok rendered) :
    rendered.map (·.name) = exports layout declarations operations := by
  obtain ⟨declared, hdeclared, hmore⟩ := Calculation.exists_of_bind_ok h
  have hdeclaredNames : declared.map (·.name) = declarations.map (·.identifier) :=
    Calculation.map_of_mapM_ok (fun _ _ => Declaration.render_name) hdeclared
  rw [exports]
  dsimp only at hmore
  split at hmore
  · rename_i htruthy
    obtain ⟨ofOperations, hoperations, hpure⟩ := Calculation.exists_of_bind_ok hmore
    cases hpure
    have hnames := Calculation.map_of_mapM_ok (fun _ _ => Operation.render_names) hoperations
    rw [if_pos htruthy, List.map_append, hdeclaredNames, List.map_flatten, hnames,
      List.flatMap_def]
  · rename_i hfalsy
    obtain ⟨ofOperations, hnone, hpure⟩ := Calculation.exists_of_bind_ok hmore
    cases hnone
    cases hpure
    rw [if_neg hfalsy, List.flatten_nil, List.append_nil, List.append_nil, hdeclaredNames]

/-- A module whose declarations have names of their own exports no name twice if this
holds of the types of its operations and none of them is named like a declaration. -/
theorem nodup_exports_iff (h : (declarations.map (·.identifier)).Nodup) :
    (exports layout declarations operations).Nodup ↔
      (layout.operations.truthy → Operation.NamedApart operations ∧
        ∀ name ∈ operations.flatMap Operation.typeNames,
          name ∉ declarations.map (·.identifier)) := by
  rw [exports]
  split
  · rename_i htruthy
    rw [List.nodup_append, Operation.nodup_typeNames_iff]
    constructor
    · rintro ⟨_, hapart, hne⟩ _
      exact ⟨hapart, fun name hname hdeclared => hne name hdeclared name hname rfl⟩
    · intro hboth
      obtain ⟨hapart, hnew⟩ := hboth htruthy
      exact ⟨h, hapart, fun name hdeclared other hother heq => hnew other hother (heq ▸ hdeclared)⟩
  · rename_i hfalsy
    rw [List.append_nil]
    exact ⟨fun _ htruthy => absurd htruthy hfalsy, fun _ => h⟩

end Module

/-- A document with one schema and two paths that answer with a text. -/
def Context.textPaths (path other : String) : Context where
  graph := {
    documents := [("openapi.json", .obj [
      ("components", .obj [("schemas", .obj [("Pet", .obj [("type", .str "string")])])]),
      ("paths", .obj [(path, .obj [("get", answer)]), (other, .obj [("get", answer)])])])]
    entryPoint := "openapi.json"
    componentRoot := .str "components"
    componentDirectories := [.str "schemas"] }
where
  /-- An operation that answers with a text. -/
  answer : Json := .obj [("responses", .obj [("200", .obj [("content", .obj [
    ("application/json", .obj [("schema", .obj [("type", .str "string")])])])])])]

/-- A step that a call carries out leads on. -/
theorem Context.Leads.exists_of_run {context : Context} {s s' after : RunState}
    {types : List TypeExpr} {α : Type} {m : Run α} {a : α} (h : context.Leads s types s')
    (hm : m.run s' = (.ok a, after)) (call : Call) (f : α → List TypeExpr)
    (hperform : call.perform context = do return f (← m)) :
    ∃ types, context.Leads s types after := by
  have hstate := Run.state_return m f s'
  rw [← hperform, hm] at hstate
  exact ⟨_, hstate ▸ h.call call⟩

/-- What is generated for a document are the declarations of a reachable state. -/
theorem exists_reaches_of_generate {context : Context} {c : Configuration}
    {declarations : List Declaration} {operations : List Operation} {after : RunState}
    (h : (CommandLine.generate context c).run (.initial context) =
      (.ok (declarations, operations), after)) :
    ∃ types before, context.Reaches types before ∧
      context.declarations.run before = (.ok declarations, after) := by
  obtain ⟨_, registered, hregistered, hmore⟩ := Run.exists_of_run_bind_ok h
  have hinitial : context.Reaches [] (.initial context) := .refl
  obtain ⟨types, hreaches⟩ := hinitial.exists_of_run hregistered .registerComponents
    (fun _ => []) rfl
  dsimp only at hmore
  split at hmore
  · obtain ⟨_, collected, hcollected, hmore⟩ := Run.exists_of_run_bind_ok hmore
    obtain ⟨types, hreaches⟩ := hreaches.exists_of_run hcollected .operations
      (·.flatMap Operation.types) rfl
    obtain ⟨_, _, hdeclared, hpure⟩ := Run.exists_of_run_bind_ok hmore
    cases hpure
    exact ⟨types, collected, hreaches, hdeclared⟩
  · obtain ⟨_, _, hnone, hmore⟩ := Run.exists_of_run_bind_ok hmore
    cases hnone
    obtain ⟨_, _, hdeclared, hpure⟩ := Run.exists_of_run_bind_ok hmore
    cases hpure
    exact ⟨types, registered, hreaches, hdeclared⟩

/-- A module of all declarations and operations of a document. -/
structure Context.Prints (context : Context) (declarations : List Declaration)
    (operations : List Operation) (rendered : List Rendered) : Prop where
  /-- They are generated one after another. -/
  generated : ∃ after, (CommandLine.generate context {}).run (.initial context) =
    (.ok (declarations, operations), after)
  /-- They can be printed. -/
  rendered : Module.render {} declarations operations = .ok rendered

/-- The names that the module of a document exports. -/
def Context.exported? (context : Context) : Option (List String) := do
  let (declarations, operations) ←
    ((CommandLine.generate context {}).run (.initial context)).1.toOption
  let rendered ← (Module.render {} declarations operations).toOption
  return rendered.map (·.name)

theorem Context.exists_prints {context : Context} {names : List String}
    (h : context.exported? = some names) :
    ∃ declarations operations rendered, context.Prints declarations operations rendered ∧
      rendered.map (·.name) = names := by
  obtain ⟨⟨declarations, operations⟩, hgenerated, hmore⟩ := Option.bind_eq_some_iff.mp h
  obtain ⟨rendered, hrendered, hnames⟩ := Option.bind_eq_some_iff.mp hmore
  refine ⟨declarations, operations, rendered, ⟨?_, ?_⟩, Option.some.inj hnames⟩
  · rcases hrun : (CommandLine.generate context {}).run (.initial context) with
      ⟨failure | generated, after⟩
    · rw [hrun] at hgenerated
      cases hgenerated
    · rw [hrun] at hgenerated
      cases hgenerated
      exact ⟨after, rfl⟩
  · cases hresult : Module.render {} declarations operations with
    | error failure =>
      rw [hresult] at hrendered
      cases hrendered
    | ok found =>
      rw [hresult] at hrendered
      cases hrendered
      rfl

/-- What a module exports twice. In every state of a run, declarations that are generated
have names of their own. So a module of them exports a name twice exactly if the types of
operations are printed, and two operations that both have parameters or both have bodies
have the same escaped name, or two responses have the same escaped name and status, or a
declaration is named like the type of an operation. -/
theorem exports_nodup_iff {context : Context} {types : List TypeExpr} {before after : RunState}
    {declarations : List Declaration} {layout : Layout} {operations : List Operation}
    {rendered : List Rendered} (h : context.Reaches types before)
    (hdeclared : context.declarations.run before = (.ok declarations, after))
    (hrendered : Module.render layout declarations operations = .ok rendered) :
    (declarations.map (·.identifier)).Nodup ∧
    ((rendered.map (·.name)).Nodup ↔
      (layout.operations.truthy → Operation.NamedApart operations ∧
        ∀ name ∈ operations.flatMap Operation.typeNames,
          name ∉ declarations.map (·.identifier))) := by
  obtain ⟨hs, _, _⟩ := h.sound (.initial context)
  obtain ⟨hclosed, rfl⟩ := Context.declared_of_declarations_ok hs hdeclared
  have hnodup : (after.declarations.map (·.identifier)).Nodup := by
    rw [hclosed.identifiers_eq]
    exact hclosed.later.sound.registry.identifiers_nodup
  refine ⟨hnodup, ?_⟩
  rw [Module.render_names hrendered]
  exact Module.nodup_exports_iff hnodup

/-- Operations of paths with different words have names of their own. -/
theorem textPaths_named_apart :
    ∃ declarations operations rendered,
      (Context.textPaths "/pets" "/owners").Prints declarations operations rendered ∧
      rendered.map (·.name) =
        ["Pet", "Response$getPets$Status$200", "Response$getOwners$Status$200"] ∧
      Operation.NamedApart operations := by
  have hexported : (Context.textPaths "/pets" "/owners").exported? =
      some ["Pet", "Response$getPets$Status$200", "Response$getOwners$Status$200"] := by
    decide +kernel
  obtain ⟨declarations, operations, rendered, hprints, hnames⟩ := Context.exists_prints hexported
  obtain ⟨after, hrun⟩ := hprints.generated
  obtain ⟨types, before, hreaches, hdeclared⟩ := exists_reaches_of_generate hrun
  obtain ⟨_, hiff⟩ := exports_nodup_iff hreaches hdeclared hprints.rendered
  refine ⟨declarations, operations, rendered, hprints, hnames, ?_⟩
  rw [hnames] at hiff
  exact (hiff.mp (by decide) rfl).1

/-- The name of an operation that has none in the document does not show a slash at the
end of its path. -/
theorem textPaths_exported_twice :
    ∃ declarations operations rendered,
      (Context.textPaths "/pets" "/pets/").Prints declarations operations rendered ∧
      ¬ (rendered.map (·.name)).Nodup := by
  have hexported : (Context.textPaths "/pets" "/pets/").exported? =
      some ["Pet", "Response$getPets$Status$200", "Response$getPets$Status$200"] := by
    decide +kernel
  obtain ⟨declarations, operations, rendered, hprints, hnames⟩ := Context.exists_prints hexported
  exact ⟨declarations, operations, rendered, hprints, hnames ▸ by decide⟩

end ApiTypes
