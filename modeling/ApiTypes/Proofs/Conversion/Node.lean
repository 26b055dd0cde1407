import ApiTypes.Proofs.Conversion.Plan
import ApiTypes.Proofs.Schema.References

/-!
# Plans of nodes

The plan of a node follows its structure: a reference is one task, and what
holds other schemas has their tasks in the order in which they are converted.
The conversion of a node carries out its plan. What all tasks of the plan have in
common follows from what the nodes inside the node are.
-/

namespace ApiTypes

/-- A type beside the null type is supplied when the type is. -/
theorem Context.SuppliesType.orNull {context : Context} {type : TypeExpr}
    (h : context.SuppliesType type) (nullable : Bool) :
    context.SuppliesType (type.orNull nullable) := by
  simpa only [Context.SuppliesType, TypeExpr.components, TypeExpr.externals,
    TypeExpr.names_orNull] using h

namespace Conversion

variable {context : Context}

/-- The type that the settings name for a format is supplied. -/
theorem gives_overrideFor? {overrides : Json}
    (h : context.settings.formatOverrides = .ok overrides) (format : Json) :
    Gives (fun type? => ∀ type ∈ type?, context.SuppliesType type)
      (overrideFor? overrides format) := by
  simp only [overrideFor?]
  split
  · rename_i members
    split
    · trivial
    · split
      · rename_i name _
        intro type htype
        split at htype
        · rename_i htruthy
          cases htype
          refine ⟨rfl, ?_⟩
          intro external hexternal
          obtain rfl : external = Members.get members name := by
            simpa [TypeExpr.externals, TypeExpr.names, TypeName.external?] using hexternal
          refine Or.inl ⟨members, name, h, ?_⟩
          cases hget : Members.get? members name with
          | none => simp [Members.get, hget, Json.truthy] at htruthy
          | some value => simp [Members.get, hget]
        · cases htype
      · intro type htype
        cases htype
  · trivial

/-- A type that stands for a format is supplied. -/
theorem gives_formatType? (path : String) (raw : Members) (format : Json) :
    Gives (fun type? => ∀ type ∈ type?, context.SuppliesType type)
      (formatType? context path raw format) := by
  simp only [formatType?]
  split
  · split
    · rename_i ruled hrule
      rintro type ⟨⟩
      exact ⟨ruled.property, fun name hname => Or.inr ⟨path, raw, ruled, hrule, hname⟩⟩
    · cases hoverrides : context.settings.formatOverrides with
      | error failure =>
        have hdefect := gives_present context.settings.formatOverrides?
        rwa [← Settings.formatOverrides, hoverrides] at hdefect
      | ok overrides => exact gives_overrideFor? hoverrides format
  · intro type htype
    cases htype

/-- A primitive type is supplied. -/
theorem gives_primitive (path : String) (raw : Members) (typeName : String)
    (keywords : Keywords) :
    Gives context.SuppliesType (primitive context path raw typeName keywords) := by
  refine (gives_formatType? path raw keywords.format).bind fun type? htype => ?_
  cases type? with
  | some type => exact (htype type rfl).orNull _
  | none =>
    have hlisted : Gives (fun _ => True) (listedValues? typeName keywords.enumeration) := by
      simp only [listedValues?]
      split
      · exact (Json.gives_elements _).bind fun _ _ => trivial
      · trivial
    refine hlisted.bind fun values? _ => ?_
    cases values? with
    | some values => exact (Context.suppliesType_of_names rfl).orNull _
    | none => exact (Context.suppliesType_of_names rfl).orNull _

/-- Required names are given as they are listed. -/
theorem gives_requiredNames (required : List Json) :
    Gives (fun names => names = required) (requiredNames required) := by
  simp only [requiredNames]
  split
  · rfl
  · trivial

/-- The union of listed types, or the only one of them. -/
def listed : List TypeExpr → TypeExpr
  | [] => .any
  | [type] => type
  | types => .union types

/-- The union of listed types has their names. -/
theorem keeps_listed : Typed.Keeps listed where
  names_eq types := by
    match types with
    | [] => rfl
    | [type] => exact (List.append_nil _).symm
    | _ :: _ :: _ => exact TypeExpr.namesOfAll_eq _
  rename_eq f types := by
    match types with
    | [] | [_] => rfl
    | _ :: _ :: _ => exact congrArg TypeExpr.union (TypeExpr.renameAll_eq f _)

/-- A composition has the names of its members. -/
theorem keeps_composed (kind : Composition) (nullable : Bool) :
    Typed.Keeps fun types => (composed kind types).orNull nullable where
  names_eq types := by
    have hnames := TypeExpr.namesOfAll_eq types
    refine (TypeExpr.names_orNull ..).trans ?_
    cases kind <;> exact hnames
  rename_eq f types := by
    have hrename := TypeExpr.renameAll_eq f types
    refine (TypeExpr.rename_orNull ..).trans (congrArg (TypeExpr.orNull · nullable) ?_)
    cases kind
    · exact congrArg TypeExpr.union hrename
    · exact congrArg TypeExpr.intersection hrename
    · exact congrArg TypeExpr.union hrename

/-- The names in an object type are those in its members, even when the index
signature goes into a type of its own. -/
theorem names_objectType (properties : List (Property TypeExpr))
    (index? : Option (IndexSignature TypeExpr)) (nullable : Bool) :
    (objectType properties index? nullable).names = Typed.names (properties, index?) := by
  have hproperties := TypeExpr.namesOfProperties_eq properties
  cases index? with
  | none => simp [objectType, TypeExpr.names, Typed.names, hproperties]
  | some index =>
    simp only [objectType]
    split
    · simp [TypeExpr.names, TypeExpr.namesOfAll, TypeExpr.namesOfProperties, Typed.names,
        hproperties]
    · simp [TypeExpr.names, Typed.names, hproperties]

/-- An object type is renamed in its properties and its index signature. -/
theorem rename_objectType (f : String → String) (properties : List (Property TypeExpr))
    (index? : Option (IndexSignature TypeExpr)) (nullable : Bool) :
    (objectType properties index? nullable).rename f =
      objectType (Typed.rename f properties) (Typed.rename f index?) nullable := by
  have hproperties := TypeExpr.renameProperties_eq f properties
  cases index? with
  | none => simp [objectType, TypeExpr.rename, Typed.rename, hproperties]
  | some index =>
    have hoptional : (Typed.rename f properties).any (·.optional) =
        properties.any (·.optional) := by
      simp [Typed.rename, Function.comp_def]
    simp only [objectType, Typed.rename, Option.map_some] at hoptional ⊢
    rw [hoptional]
    split
    · simp [TypeExpr.rename, TypeExpr.renameAll, TypeExpr.renameProperties, hproperties]
    · simp [TypeExpr.rename, hproperties]

/-- The names in an object type are those in its members. -/
theorem keeps_objectType (nullable : Bool) :
    Typed.Keeps fun members : ObjectMembers => objectType members.1 members.2 nullable where
  names_eq _ := names_objectType ..
  rename_eq _ _ := rename_objectType ..

namespace Plan

variable {α : Type} [Typed α]

/-- The plan of no value. -/
def nil : Plan context (List α) := const [] rfl (fun _ h => nomatch h) fun _ => rfl

/-- The plan of a value and then of others. -/
def cons (first : Plan context α) (others : Plan context (List α)) : Plan context (List α) :=
  (first.pair others).map (fun pair => pair.1 :: pair.2) .cons

/-- The plan of a value that is missing. -/
def nothing : Plan context (Option α) := const none rfl (fun _ h => nomatch h) fun _ => rfl

/-- Nothing is given without a task. -/
@[simp] theorem run_nothing (follow : Members → Json → Run TypeExpr) :
    (nothing : Plan context (Option α)).run follow = pure none :=
  run_const follow ..

/-- No items are given without a task. -/
@[simp] theorem run_nil (follow : Members → Json → Run TypeExpr) :
    (nil : Plan context (List α)).run follow = pure [] :=
  run_const follow ..

/-- The first item is given before the others. -/
@[simp] theorem run_cons (first : Plan context α) (others : Plan context (List α))
    (follow : Members → Json → Run TypeExpr) :
    (first.cons others).run follow = do
      let value ← first.run follow
      let values ← others.run follow
      return value :: values := by
  simp [cons]

end Plan

mutual

/-- The plan of a declared type, given that of a type name. -/
def declaredPlan (named : Members → String → Plan context TypeExpr) (raw : Members) :
    Json → Plan context TypeExpr
  | .str typeName => named raw typeName
  | .arr types => (eachPlan named raw types).map listed keeps_listed
  | _ => .plain .any TypeExpr.names_any

/-- The plan of the items of a list of types. -/
def eachPlan (named : Members → String → Plan context TypeExpr) (raw : Members) :
    List Json → Plan context (List TypeExpr)
  | [] => .nil
  | type :: rest =>
    (declaredPlan named (Members.put "type" type raw) type).cons (eachPlan named raw rest)

end

/-- The plan of a schema of a type, given the plans of what it holds. -/
def namedPlan (context : Context) (path : String) (keywords : Keywords)
    (additional : Additional Node) (item : Members → Plan context TypeExpr)
    (members : Members → List Json → Plan context ObjectMembers) (raw : Members)
    (typeName : String) : Plan context TypeExpr :=
  match typeName with
  | "null" => .plain .null TypeExpr.names_null
  | "array" =>
    (item raw).map (fun item => (TypeExpr.array item).orNull (keywords.nullable?.getD false))
      (.array _)
  | "object" =>
    match additional with
    | .allowed true => .plain .anyObject TypeExpr.names_anyObject
    | _ =>
      .given (requiredNames keywords.required) (gives_requiredNames _) fun required _ =>
        (members raw required).map
          (fun members => objectType members.1 members.2 (keywords.nullable?.getD false))
          (keeps_objectType _)
  | "boolean" | "integer" | "number" | "string" =>
    .given (primitive context path raw typeName keywords) (gives_primitive ..) .known
  | _ => .plain .any TypeExpr.names_any

/-- The plan of a schema of which no type is known, inside a parent. -/
def untypedPlan (nullable? : Option Bool) (parent : Json) : Plan context TypeExpr :=
  match nullable? with
  | some nullable => .plain (TypeExpr.any.orNull nullable)
    (by rw [TypeExpr.names_orNull, TypeExpr.names_any])
  | none => match parent with
    | .null => .plain .any TypeExpr.names_any
    | parent => .single (.warn parent)

mutual

/-- The plan of a node. -/
def nodePlan (context : Context) (point : String) (parent : Json) : Node → Plan context TypeExpr
  | .boolean .. => .plain .anyObject TypeExpr.names_anyObject
  | .reference _ raw ref => .single (.follow raw ref)
  | .composition _ _ kind members nullable =>
    (membersPlan context point members).map (fun types => (composed kind types).orNull nullable)
      (keeps_composed kind nullable)
  | .value path raw type? keywords items properties additional =>
    let named := namedPlan context path keywords additional
      (fun raw => itemsPlan context point path raw items)
      fun raw required =>
        let declared := Members.get raw "properties"
        (propertiesPlan context point declared required properties).pair
          (additionalPlan context point declared additional)
    match type? with
    | some type => declaredPlan named raw type
    | none =>
      if raw.isEmpty then .plain .anyObject TypeExpr.names_anyObject
      else match Schema.impliedType? raw with
        | some typeName => named (Members.put "type" (.str typeName) raw) typeName
        | none => untypedPlan keywords.nullable? parent

/-- The plan of the members of a composition. -/
def membersPlan (context : Context) (point : String) : List Node → Plan context (List TypeExpr)
  | [] => .nil
  | node :: rest => (nodePlan context point .null node).cons (membersPlan context point rest)

/-- The plan of the items of an array. -/
def itemsPlan (context : Context) (point path : String) (raw : Members) :
    Items Node → Plan context TypeExpr
  | .schema node => nodePlan context point (.obj raw) node
  | .other .null => .plain .any TypeExpr.names_any
  | .other (.arr items) => .single (.fail
    (.schema (.shape .notItems (.arr items) (Pointer.locateWritten point path))) trivial)
  | .other (.bool flag) => .single (.fail
    (.schema (.shape .notItems (.bool flag) (Pointer.locateWritten point path))) trivial)
  | .other value => .single (.fail (.schema (.shape .notSchema value "#")) trivial)

/-- The plan of the declared members of an object. -/
def propertiesPlan (context : Context) (point : String) (declared : Json) (required : List Json) :
    List (String × Node) → Plan context (List (Property TypeExpr))
  | [] => .nil
  | (name, node) :: rest =>
    Plan.cons
      ((nodePlan context point declared node).map (fun type => ({
        name := .str name
        type
        optional := !required.any (Json.isText name)
        readOnly := (node.keyword "readOnly").truthy
        comment := node.keyword "description" } : Property TypeExpr)) (.property ..))
      (propertiesPlan context point declared required rest)

/-- The plan of the members of an object that are not declared. -/
def additionalPlan (context : Context) (point : String) (declared : Json) :
    Additional Node → Plan context (Option (IndexSignature TypeExpr))
  | .schema node =>
    (nodePlan context point declared node).map
      (fun type => some { key := context.settings.indexKey, type }) (.index _)
  | _ => .nothing

end

section

variable {follow : Members → Json → Run TypeExpr} {named : Members → String → Run TypeExpr}
  {plan : Members → String → Plan context TypeExpr}

mutual

/-- The conversion of a declared type carries out its plan when that of every
type name does. -/
theorem byDeclaredType_eq_run
    (h : ∀ raw typeName, named raw typeName = (plan raw typeName).run follow) (raw : Members) :
    (type : Json) → byDeclaredType named raw type = (declaredPlan plan raw type).run follow
  | .str typeName => h raw typeName
  | .arr types => by
    rw [byDeclaredType, byEachType_eq_run h raw types, declaredPlan, Plan.run_map]
    congr 1
    funext types
    match types with
    | [] | [_] | _ :: _ :: _ => rfl
  | .null | .bool _ | .int _ | .float _ | .obj _ => by
    simp [byDeclaredType, declaredPlan]

/-- The conversion by each listed type carries out the plans for all of them. -/
theorem byEachType_eq_run (h : ∀ raw typeName, named raw typeName = (plan raw typeName).run follow)
    (raw : Members) :
    (types : List Json) → byEachType named raw types = (eachPlan plan raw types).run follow
  | [] => by simp [byEachType, eachPlan]
  | type :: rest => by
    simp [byEachType, eachPlan, byDeclaredType_eq_run h _ type, byEachType_eq_run h raw rest]

end

end

/-- The conversion of a schema of a type carries out its plan when those of
what it holds do. -/
theorem byTypeName_eq_run {follow : Members → Json → Run TypeExpr} (path : String)
    (keywords : Keywords) (additional : Additional Node) {item : Members → Run TypeExpr}
    {itemPlan : Members → Plan context TypeExpr}
    (hitem : ∀ raw, item raw = (itemPlan raw).run follow)
    {members : Members → List Json → Run ObjectMembers}
    {membersPlan : Members → List Json → Plan context ObjectMembers}
    (hmembers : ∀ raw required, members raw required = (membersPlan raw required).run follow)
    (raw : Members) (typeName : String) :
    byTypeName context path keywords additional item members raw typeName =
      (namedPlan context path keywords additional itemPlan membersPlan raw typeName).run
        follow := by
  have hprimitive (typeName : String) :
      (Plan.given (primitive context path raw typeName keywords) (gives_primitive ..) .known).run
        follow = (Run.ofExcept (primitive context path raw typeName keywords) : Run TypeExpr) := by
    rw [Plan.run_given follow fun type h => Plan.run_known follow type h, bind_pure]
  unfold byTypeName namedPlan
  split
  · simp
  · simp [hitem]
  · by_cases hallowed : additional = .allowed true
    · subst hallowed
      simp
    · simp only
      refine (Plan.run_given follow fun required _ => ?_).symm
      rw [Plan.run_map, hmembers]
  · exact (hprimitive _).symm
  · exact (hprimitive _).symm
  · exact (hprimitive _).symm
  · exact (hprimitive _).symm
  · simp

/-- The conversion of a schema without a type carries out its plan. -/
theorem untyped_eq_run (follow : Members → Json → Run TypeExpr) (nullable? : Option Bool)
    (parent : Json) :
    untyped nullable? parent =
      (untypedPlan nullable? parent : Plan context TypeExpr).run follow := by
  cases nullable? with
  | some nullable => simp [untyped, untypedPlan]
  | none => cases parent <;> simp [untyped, untypedPlan, Task.run]

mutual

/-- The conversion of a node carries out its plan. -/
theorem ofNode_eq_run (follow : Follow) (point : String) (parent : Json) : (node : Node) →
    ofNode context follow point parent node =
      (nodePlan context point parent node).run (follow point)
  | .boolean .. => by simp [ofNode, nodePlan]
  | .reference _ raw ref => by simp [ofNode, nodePlan, Task.run]
  | .composition _ _ kind members nullable => by
    rw [ofNode, nodePlan, Plan.run_map, ofMembers_eq_run follow point members]
  | .value path raw type? keywords items properties additional => by
    have hmembers (raw : Members) (required : List Json) : (do
        let members ← ofProperties context follow point (Members.get raw "properties") required
          properties
        let index? ← ofAdditional context follow point (Members.get raw "properties") additional
        return (members, index?) : Run ObjectMembers) =
        ((propertiesPlan context point (Members.get raw "properties") required properties).pair
          (additionalPlan context point (Members.get raw "properties") additional)).run
            (follow point) := by
      rw [Plan.run_pair, ofProperties_eq_run follow point _ required properties,
        ofAdditional_eq_run follow point _ additional]
    have hnamed := byTypeName_eq_run path keywords additional
      (fun raw => ofItems_eq_run follow point path raw items) hmembers
    cases type? with
    | some type =>
      simp only [ofNode, nodePlan]
      exact byDeclaredType_eq_run hnamed raw type
    | none =>
      by_cases hempty : raw.isEmpty
      · simp [ofNode, nodePlan, hempty]
      · cases himplied : Schema.impliedType? raw with
        | some typeName =>
          simp only [ofNode, nodePlan, hempty, himplied]
          exact hnamed ..
        | none =>
          simp only [ofNode, nodePlan, hempty, himplied]
          exact untyped_eq_run ..

/-- The conversion of the members of a composition carries out their plans. -/
theorem ofMembers_eq_run (follow : Follow) (point : String) : (nodes : List Node) →
    ofMembers context follow point nodes = (membersPlan context point nodes).run (follow point)
  | [] => by simp [ofMembers, membersPlan]
  | node :: rest => by
    simp [ofMembers, membersPlan, ofNode_eq_run follow point .null node,
      ofMembers_eq_run follow point rest]

/-- The conversion of items carries out their plan. -/
theorem ofItems_eq_run (follow : Follow) (point path : String) (raw : Members) :
    (items : Items Node) →
    ofItems context follow point path raw items =
      (itemsPlan context point path raw items).run (follow point)
  | .schema node => by rw [ofItems, itemsPlan, ofNode_eq_run follow point (.obj raw) node]
  | .other value => by cases value <;> simp [ofItems, itemsPlan, Task.run]

/-- The conversion of declared properties carries out their plans. -/
theorem ofProperties_eq_run (follow : Follow) (point : String) (declared : Json)
    (required : List Json) : (properties : List (String × Node)) →
    ofProperties context follow point declared required properties =
      (propertiesPlan context point declared required properties).run (follow point)
  | [] => by simp [ofProperties, propertiesPlan]
  | (name, node) :: rest => by
    simp [ofProperties, propertiesPlan, ofNode_eq_run follow point declared node,
      ofProperties_eq_run follow point declared required rest]

/-- The conversion of additional properties carries out their plan. -/
theorem ofAdditional_eq_run (follow : Follow) (point : String) (declared : Json) :
    (additional : Additional Node) →
    ofAdditional context follow point declared additional =
      (additionalPlan context point declared additional).run (follow point)
  | .schema node => by
    rw [ofAdditional, additionalPlan, ofNode_eq_run follow point declared node]
    exact (Plan.run_map ..).symm
  | .unspecified | .allowed _ => by simp [ofAdditional, additionalPlan]

end

/-! ### Tasks of plans -/

/-- All tasks of a plan have a property. -/
def Plan.All {α : Type} [Typed α] (Q : Task → Prop) (plan : Plan context α) : Prop :=
  ∀ task ∈ plan.tasks, Q task

namespace Plan.All

variable {α β : Type} [Typed α] [Typed β] {Q : Task → Prop}

/-- A plan without tasks has none without the property. -/
theorem of_tasks_eq_nil {plan : Plan context α} (h : plan.tasks = []) : plan.All Q := by
  simp [Plan.All, h]

/-- A plan of one task has that one. -/
theorem single {task : Task} (h : Q task) :
    (Plan.single task : Plan context TypeExpr).All Q := by
  simpa [Plan.All, Plan.single] using h

/-- Putting what is made into something else adds no task. -/
theorem map {g : α → β} {hg : Typed.Keeps g} {plan : Plan context α} (h : plan.All Q) :
    (plan.map g hg).All Q := h

/-- Two plans have the tasks of both. -/
theorem pair {first : Plan context α} {second : Plan context β} (hfirst : first.All Q)
    (hsecond : second.All Q) : (first.pair second).All Q := by
  intro task hmem
  rcases List.mem_append.mp hmem with h | h
  · exact hfirst task h
  · exact hsecond task h

/-- A plan before others adds its tasks. -/
theorem cons {first : Plan context α} {others : Plan context (List α)} (hfirst : first.All Q)
    (hothers : others.All Q) : (first.cons others).All Q :=
  map (pair hfirst hothers)

/-- A plan that goes on from a calculation has the tasks that follow, or one that fails. -/
theorem given {γ : Type} {R R' : γ → Prop} {result : Except Failure γ} {h : Gives R result}
    {next : (c : γ) → R c → Plan context TypeExpr}
    (hfails : Yields (fun failure => ∀ defect, Q (.fail failure defect)) R' result)
    (hnext : ∀ c hc, (next c hc).All Q) : (Plan.given result h next).All Q := by
  cases result with
  | error failure => exact single (hfails h)
  | ok c => exact hnext c h

end Plan.All

section

variable {Q : Task → Prop} {plan : Members → String → Plan context TypeExpr}

mutual

/-- The tasks for a declared type have the property if those for its names do. -/
theorem declaredPlan_all (h : ∀ raw typeName, (plan raw typeName).All Q) (raw : Members) :
    (type : Json) → (declaredPlan plan raw type).All Q
  | .str typeName => by
    rw [declaredPlan]
    exact h raw typeName
  | .arr types => by
    rw [declaredPlan]
    exact (eachPlan_all h raw types).map
  | .null | .bool _ | .int _ | .float _ | .obj _ => by
    simp only [declaredPlan]
    exact .of_tasks_eq_nil rfl

/-- The tasks for listed types have the property if those for their names do. -/
theorem eachPlan_all (h : ∀ raw typeName, (plan raw typeName).All Q) (raw : Members) :
    (types : List Json) → (eachPlan plan raw types).All Q
  | [] => by
    rw [eachPlan]
    exact .of_tasks_eq_nil rfl
  | type :: rest => by
    rw [eachPlan]
    exact (declaredPlan_all h _ type).cons (eachPlan_all h raw rest)

end

end

section

variable {E : Failure → Prop} (hE : ∀ cause, E (.malformed cause))
include hE

/-- Required names are listed or malformed. -/
theorem yields_requiredNames (required : List Json) :
    Yields E (fun _ => True) (requiredNames required) := by
  simp only [requiredNames]
  split
  · trivial
  · exact hE _

/-- The conversion of a primitive schema finds no fault with its shape. -/
theorem yields_primitive (path : String) (raw : Members) (typeName : String)
    (keywords : Keywords) :
    Yields E (fun _ => True) (primitive context path raw typeName keywords) := by
  have hoverride (overrides : Json) :
      Yields E (fun _ => True) (overrideFor? overrides keywords.format) := by
    simp only [overrideFor?]
    split
    · split
      · exact hE _
      · split <;> trivial
    · exact hE _
  have hformat : Yields E (fun _ => True) (formatType? context path raw keywords.format) := by
    simp only [formatType?]
    split
    · split
      · trivial
      · have hoverrides : Yields E (fun _ => True) context.settings.formatOverrides := by
          rw [Settings.formatOverrides]
          cases context.settings.formatOverrides? with
          | none => exact hE _
          | some overrides => trivial
        exact hoverrides.bind fun overrides _ => hoverride overrides
    · trivial
  have hlisted : Yields E (fun _ => True) (listedValues? typeName keywords.enumeration) := by
    simp only [listedValues?]
    split
    · exact (Schema.yields_elements hE _).bind fun _ _ => trivial
    · trivial
  refine hformat.bind fun type? _ => ?_
  cases type? with
  | some type => trivial
  | none =>
    refine hlisted.bind fun values? _ => ?_
    cases values? <;> trivial

end

section

variable {Q : Task → Prop}

/-- The tasks of a schema of a type have the property if those for its parts do. -/
theorem namedPlan_all
    (hmalformed : ∀ cause defect, Q (.fail (.malformed cause) defect)) (path : String)
    (keywords : Keywords) (additional : Additional Node) {item : Members → Plan context TypeExpr}
    (hitem : ∀ raw, (item raw).All Q) {members : Members → List Json → Plan context ObjectMembers}
    (hmembers : ∀ raw required, (members raw required).All Q) (raw : Members)
    (typeName : String) :
    (namedPlan context path keywords additional item members raw typeName).All Q := by
  have hprimitive (typeName : String) :
      (Plan.given (primitive context path raw typeName keywords) (gives_primitive ..)
        .known : Plan context TypeExpr).All Q :=
    .given (yields_primitive hmalformed path raw typeName keywords) fun _ _ => .of_tasks_eq_nil rfl
  unfold namedPlan
  split
  · exact .of_tasks_eq_nil rfl
  · exact (hitem raw).map
  · split
    · exact .of_tasks_eq_nil rfl
    · exact .given (yields_requiredNames hmalformed _) fun required _ => (hmembers raw required).map
  · exact hprimitive _
  · exact hprimitive _
  · exact hprimitive _
  · exact hprimitive _
  · exact .of_tasks_eq_nil rfl

/-- The only task of a schema without a type is to warn. -/
theorem untypedPlan_all (hwarn : ∀ parent, Q (.warn parent)) (nullable? : Option Bool)
    (parent : Json) : (untypedPlan nullable? parent : Plan context TypeExpr).All Q := by
  unfold untypedPlan
  split
  · exact .of_tasks_eq_nil rfl
  · split
    · exact .of_tasks_eq_nil rfl
    · exact .single (hwarn _)

/-- A property that all tasks have which concern neither a reference nor the shape of a
schema. -/
structure Task.Common (Q : Task → Prop) : Prop where
  /-- Warnings have it. -/
  warn : ∀ parent, Q (.warn parent)
  /-- Failures because of malformed input have it. -/
  malformed : ∀ cause defect, Q (.fail (.malformed cause) defect)

/-- The tasks that a node has beside those of the nodes inside it have a property: the
reference that it is, and the failure of items that are no schema. -/
def Admits (context : Context) (point : String) (Q : Task → Prop) : Node → Prop
  | .reference _ raw ref => Q (.follow raw ref)
  | .value path _ _ _ (.other value) _ _ =>
    ∀ raw, (itemsPlan context point path raw (.other value)).All Q
  | _ => True

mutual

/-- All tasks of the plan of a node are those of the nodes inside it, warnings, and failures
that do not concern the shape of a schema. -/
theorem nodePlan_all (hQ : Task.Common Q) (point : String) (parent : Json) : (node : Node) →
    node.Everywhere (Admits context point Q) → (nodePlan context point parent node).All Q
  | .boolean .., _ => by
    rw [nodePlan]
    exact .of_tasks_eq_nil rfl
  | .reference _ raw ref, h => by
    rw [nodePlan]
    exact .single h.1
  | .composition _ _ kind members nullable, h => by
    rw [nodePlan]
    exact (membersPlan_all hQ point members h.2).map
  | .value path raw type? keywords items properties additional, h => by
    have hitems (raw : Members) : (itemsPlan context point path raw items).All Q := by
      refine itemsPlan_all hQ point path raw items h.2.1 ?_
      rintro value rfl
      exact h.1 raw
    have hnamed := namedPlan_all hQ.malformed path keywords additional hitems
      fun raw required =>
        (propertiesPlan_all hQ point (Members.get raw "properties") required properties
          h.2.2.1).pair
          (additionalPlan_all hQ point (Members.get raw "properties") additional h.2.2.2)
    cases type? with
    | some type =>
      simp only [nodePlan]
      exact declaredPlan_all hnamed raw type
    | none =>
      simp only [nodePlan]
      split
      · exact .of_tasks_eq_nil rfl
      · split
        · exact hnamed _ _
        · exact untypedPlan_all hQ.warn _ _

/-- The tasks for the members of a composition have the property. -/
theorem membersPlan_all (hQ : Task.Common Q) (point : String) : (nodes : List Node) →
    Node.MembersInside (Admits context point Q) nodes → (membersPlan context point nodes).All Q
  | [], _ => by
    rw [membersPlan]
    exact .of_tasks_eq_nil rfl
  | node :: rest, h => by
    rw [membersPlan]
    exact (nodePlan_all hQ point .null node h.1).cons (membersPlan_all hQ point rest h.2)

/-- The tasks for items have the property if those for other values do. -/
theorem itemsPlan_all (hQ : Task.Common Q) (point path : String) (raw : Members) :
    (items : Items Node) → Node.ItemsInside (Admits context point Q) items →
    (∀ value, items = .other value → (itemsPlan context point path raw (.other value)).All Q) →
    (itemsPlan context point path raw items).All Q
  | .schema node, h, _ => by
    rw [itemsPlan]
    exact nodePlan_all hQ point (.obj raw) node h
  | .other value, _, hother => hother value rfl

/-- The tasks for declared properties have the property. -/
theorem propertiesPlan_all (hQ : Task.Common Q) (point : String) (declared : Json)
    (required : List Json) :
    (properties : List (String × Node)) →
    Node.PropertiesInside (Admits context point Q) properties →
    (propertiesPlan context point declared required properties).All Q
  | [], _ => by
    rw [propertiesPlan]
    exact .of_tasks_eq_nil rfl
  | (name, node) :: rest, h => by
    rw [propertiesPlan]
    exact (nodePlan_all hQ point declared node h.1).map.cons
      (propertiesPlan_all hQ point declared required rest h.2)

/-- The tasks for additional properties have the property. -/
theorem additionalPlan_all (hQ : Task.Common Q) (point : String) (declared : Json) :
    (additional : Additional Node) → Node.AdditionalInside (Admits context point Q) additional →
    (additionalPlan context point declared additional).All Q
  | .schema node, h => by
    rw [additionalPlan]
    exact (nodePlan_all hQ point declared node h).map
  | .unspecified, _ | .allowed _, _ => by
    simp only [additionalPlan]
    exact .of_tasks_eq_nil rfl

end

end

/-- The reference of a task, if it is a text, has a property. -/
def Task.Reads (P : String → Prop) : Task → Prop
  | .follow _ ref => ∀ written, ref = .str written → P written
  | _ => True

/-- The references of a plan have a property. -/
def Plan.Reads {α : Type} [Typed α] (P : String → Prop) (plan : Plan context α) : Prop :=
  ∀ task ∈ plan.tasks, task.Reads P

/-- A plan has no other references than its node. -/
theorem nodePlan_reads {P : String → Prop} (point : String) (parent : Json) (node : Node)
    (h : node.AllRefs P) : (nodePlan context point parent node).Reads P := by
  have hadmits : ∀ node, Node.RefIs P node → Admits context point (Task.Reads P) node := by
    intro node hnode
    cases node with
    | reference path raw ref => exact hnode
    | value path raw type? keywords items properties additional =>
      cases items with
      | other value =>
        intro raw
        cases value <;> simp only [itemsPlan]
        · exact .of_tasks_eq_nil rfl
        all_goals exact .single trivial
      | schema => trivial
    | _ => trivial
  exact nodePlan_all ⟨fun _ => trivial, fun _ _ => trivial⟩ point parent node
    (((Node.allRefs_iff node).mp h).mono hadmits)

/-- The parent only matters to a schema of which no type is known. -/
theorem nodePlan_parent (point : String) (node : Node) :
    (∃ plan, ∀ parent, nodePlan context point parent node = plan) ∨
      ∃ nullable?, ∀ parent, nodePlan context point parent node = untypedPlan nullable? parent := by
  cases node with
  | boolean | reference | composition => exact Or.inl ⟨_, fun parent => by rw [nodePlan]⟩
  | value path raw type? keywords items properties additional =>
    cases type? with
    | some type => exact Or.inl ⟨_, fun parent => by simp only [nodePlan]; rfl⟩
    | none =>
      by_cases hempty : raw.isEmpty
      · exact Or.inl ⟨_, fun parent => by simp only [nodePlan, if_pos hempty]; rfl⟩
      · cases himplied : Schema.impliedType? raw with
        | some typeName =>
          exact Or.inl ⟨_, fun parent => by simp only [nodePlan, if_neg hempty, himplied]; rfl⟩
        | none =>
          exact Or.inr ⟨keywords.nullable?, fun parent => by
            simp only [nodePlan, if_neg hempty, himplied]⟩

end Conversion

end ApiTypes
