import ApiTypes.Proofs.Conversion.Node
import ApiTypes.Proofs.Schema.Parts
import ApiTypes.Proofs.TypeExpr.Parts

/-!
# What conversions build

The type that a node converts to is put together from those of the nodes inside it and
from those that references stand for. A property of every part of a type is therefore
one of every part of a converted type, if the types that conversions put together have
it whatever their operands are: lists, unions of several members, compositions, objects
with the names of the declared properties, and few others.
-/

namespace ApiTypes

namespace TypeExpr

/-- Every part of a type has a property. -/
def Everywhere (L : TypeExpr → Prop) (type : TypeExpr) : Prop := ∀ part ∈ type.parts, L part

variable {L : TypeExpr → Prop}

/-- A type and its operands, with everything that these consist of. -/
theorem everywhere_iff (type : TypeExpr) :
    type.Everywhere L ↔ L type ∧ ∀ operand ∈ type.operands, operand.Everywhere L := by
  simp only [Everywhere, parts_eq type, List.mem_cons, List.mem_flatMap, forall_eq_or_imp]
  refine and_congr_right fun _ => ?_
  constructor
  · exact fun h operand hoperand part hpart => h part ⟨operand, hoperand, hpart⟩
  · rintro h part ⟨operand, hoperand, hpart⟩
    exact h operand hoperand part hpart

/-- A type without operands has no other parts than itself. -/
theorem everywhere_of_operands_eq_nil {type : TypeExpr} (h : L type)
    (hoperands : type.operands = []) : type.Everywhere L :=
  (everywhere_iff type).mpr ⟨h, by simp [hoperands]⟩

end TypeExpr

namespace Conversion

open TypeExpr (Everywhere everywhere_iff everywhere_of_operands_eq_nil)

variable {context : Context} {N : Node → Prop} {L : TypeExpr → Prop}

/-! ### Types of primitive schemas -/

/-- The names of the primitive types. -/
def primitiveNames : List String := ["boolean", "integer", "number", "string"]

/-- A name that the settings give for a format is one of their overrides. -/
theorem overrideFor?_some {overrides format : Json} {type : TypeExpr}
    (h : overrideFor? overrides format = .ok (some type)) :
    ∃ members key name, overrides = .obj members ∧ Members.get? members key = some name ∧
      name.truthy ∧ type = .external name := by
  simp only [overrideFor?] at h
  split at h
  · rename_i members
    split at h
    · cases h
    · split at h
      · rename_i key _
        split at h
        · rename_i htruthy
          cases h
          cases hget : Members.get? members key with
          | none =>
            rw [Members.get, hget] at htruthy
            cases htruthy
          | some name =>
            rw [Members.get, hget] at htruthy ⊢
            exact ⟨members, key, name, rfl, hget, htruthy, rfl⟩
        · cases h
      · cases h
  · cases h

/-- Listed values that count are several ones of the type. -/
theorem listedValues?_some {typeName : String} {enumeration : Json} {values : List Json}
    (h : listedValues? typeName enumeration = .ok (some values)) :
    values ≠ [] ∧ values.all (isOfType typeName) := by
  simp only [listedValues?] at h
  split at h
  · rename_i htruthy
    obtain ⟨elements, helements, hrest⟩ := Calculation.exists_of_bind_ok h
    have hne : elements ≠ [] := by
      rintro rfl
      cases enumeration with
      | arr items => simp_all [Json.elements, Json.truthy]
      | obj members => simp_all [Json.elements, Json.truthy]
      | str text => simp_all [Json.elements, Json.truthy]
      | null | bool | int | float => cases helements
    by_cases hall : elements.all (isOfType typeName) = true
    · simp only [hall, if_true] at hrest
      cases hrest
      exact ⟨hne, hall⟩
    · simp only [if_neg hall] at hrest
      cases hrest
  · cases h

/-! ### Types that are put together -/

/-- The types that conversions put together have a property, if the nodes that they are
put together from have another one. -/
structure Builds (context : Context) (N : Node → Prop) (L : TypeExpr → Prop) : Prop where
  /-- Any value. -/
  any : L .any
  /-- The value `null`. -/
  null : L .null
  /-- The primitive types. -/
  primitive : ∀ typeName ∈ primitiveNames, L (.primitive typeName)
  /-- Listed values of a primitive type. -/
  literals : ∀ typeName ∈ primitiveNames, ∀ values ≠ [], values.all (isOfType typeName) →
    L (.literals typeName values)
  /-- A name that the settings give for a format. -/
  overriding : ∀ {overrides format name}, context.settings.formatOverrides = .ok (.obj overrides) →
    Members.get? overrides format = some name → name.truthy → L (.external name)
  /-- Every part of a type that the format rule gives. -/
  ruled : ∀ {path raw type}, context.formatType?.type? path raw = some type →
    type.val.Everywhere L
  /-- A component. -/
  component : ∀ identifier, L (.component identifier)
  /-- A list. -/
  array : ∀ item, L (.array item)
  /-- A union of several types. -/
  union : ∀ first second rest, L (.union (first :: second :: rest))
  /-- The union or the intersection that a composition stands for. -/
  composed : ∀ {path raw kind nodes nullable types}, N (.composition path raw kind nodes nullable) →
    types.length = nodes.length → L (composed kind types)
  /-- The object type without members. -/
  anyObject : L .anyObject
  /-- An object type with the declared properties of a node, of which none is optional if
  there is an index signature. -/
  object : ∀ {path raw type? keywords items declared additional properties index?},
    N (.value path raw type? keywords items declared additional) →
    properties.map (fun property : Property TypeExpr => (property.name, property.comment)) =
      declared.map (fun pair => (Json.str pair.1, pair.2.keyword "description")) →
    (index?.isSome → properties.any (·.optional) = false) → L (.object properties index?)
  /-- An index signature in an object type of its own. -/
  index : ∀ index, L (.object [] (some index))
  /-- Optional members beside an index signature. -/
  beside : ∀ first second, L (.intersection [first, second])

/-- The members of an object type are the declared properties of a node and maybe an
index signature, and every part of their types has a property. -/
structure Declares (L : TypeExpr → Prop) (declared : List (String × Node))
    (members : ObjectMembers) : Prop where
  /-- The types of the properties. -/
  types : ∀ property ∈ members.1, property.type.Everywhere L
  /-- Their names and comments. -/
  names : members.1.map (fun property => (property.name, property.comment)) =
    declared.map fun pair => (Json.str pair.1, pair.2.keyword "description")
  /-- The type of the index signature. -/
  index : ∀ index ∈ members.2, index.type.Everywhere L

namespace Builds

variable (h : Builds context N L)
include h

/-- What can be any value has no other parts. -/
theorem everywhere_any : Everywhere L .any := everywhere_of_operands_eq_nil h.any rfl

/-- The value `null` has no other parts. -/
theorem everywhere_null : Everywhere L .null := everywhere_of_operands_eq_nil h.null rfl

/-- The object type without members has no other parts. -/
theorem everywhere_anyObject : Everywhere L .anyObject :=
  everywhere_of_operands_eq_nil h.anyObject rfl

/-- A list of such a type is one. -/
theorem everywhere_array {item : TypeExpr} (hitem : item.Everywhere L) :
    Everywhere L (.array item) := by
  refine (everywhere_iff _).mpr ⟨h.array item, fun operand hoperand => ?_⟩
  rwa [List.mem_singleton.mp hoperand]

/-- A union of such types is one. -/
theorem everywhere_union {first second : TypeExpr} {rest : List TypeExpr}
    (hmembers : ∀ member ∈ first :: second :: rest, member.Everywhere L) :
    Everywhere L (.union (first :: second :: rest)) :=
  (everywhere_iff _).mpr ⟨h.union first second rest, hmembers⟩

/-- Such a type can be made nullable. -/
theorem everywhere_orNull {type : TypeExpr} (htype : type.Everywhere L) (nullable : Bool) :
    (type.orNull nullable).Everywhere L := by
  cases nullable with
  | false => exact htype
  | true =>
    refine h.everywhere_union fun member hmember => ?_
    rcases List.mem_pair.mp hmember with rfl | rfl
    · exact htype
    · exact h.everywhere_null

/-- The union of listed types. -/
theorem everywhere_listed {types : List TypeExpr} (htypes : ∀ type ∈ types, type.Everywhere L) :
    (listed types).Everywhere L := by
  match types with
  | [] => exact h.everywhere_any
  | [type] => exact htypes type (List.mem_singleton_self type)
  | first :: second :: rest => exact h.everywhere_union htypes

/-- The type of a composition is one if its members are. -/
theorem everywhere_composed {path : String} {raw : Members} {kind : Composition}
    {nodes : List Node} {nullable : Bool} {types : List TypeExpr}
    (hnode : N (.composition path raw kind nodes nullable)) (hlength : types.length = nodes.length)
    (htypes : ∀ type ∈ types, type.Everywhere L) :
    (Conversion.composed kind types).Everywhere L := by
  have hoperands : (Conversion.composed kind types).operands = types := by cases kind <;> rfl
  refine (everywhere_iff _).mpr ⟨h.composed hnode hlength, ?_⟩
  rwa [hoperands]

/-- The type that stands for a format. -/
theorem everywhere_formatType? {path : String} {raw : Members} {format : Json}
    {type : TypeExpr} (hformat : formatType? context path raw format = .ok (some type)) :
    type.Everywhere L := by
  simp only [formatType?] at hformat
  split at hformat
  · split at hformat
    · rename_i ruled hruled
      cases hformat
      exact h.ruled hruled
    · obtain ⟨overrides, hoverrides, hoverride⟩ := Calculation.exists_of_bind_ok hformat
      obtain ⟨members, key, name, rfl, hget, htruthy, rfl⟩ := overrideFor?_some hoverride
      exact everywhere_of_operands_eq_nil (h.overriding hoverrides hget htruthy) rfl
  · cases hformat

/-- The type of a primitive schema. -/
theorem everywhere_primitive {path : String} {raw : Members} {typeName : String}
    {keywords : Keywords} {type : TypeExpr} (hname : typeName ∈ primitiveNames)
    (hprimitive : Conversion.primitive context path raw typeName keywords = .ok type) :
    type.Everywhere L := by
  obtain ⟨type?, hformat, hrest⟩ := Calculation.exists_of_bind_ok hprimitive
  cases type? with
  | some found =>
    cases hrest
    exact h.everywhere_orNull (h.everywhere_formatType? hformat) _
  | none =>
    obtain ⟨values?, hlisted, hrest⟩ := Calculation.exists_of_bind_ok hrest
    cases values? with
    | none =>
      cases hrest
      exact h.everywhere_orNull (everywhere_of_operands_eq_nil (h.primitive _ hname) rfl) _
    | some values =>
      cases hrest
      obtain ⟨hne, hall⟩ := listedValues?_some hlisted
      have hliterals := h.literals typeName hname values hne hall
      exact h.everywhere_orNull (everywhere_of_operands_eq_nil hliterals rfl) _

/-- The type of an object. Optional members go into a type of their own beside an index
signature. -/
theorem everywhere_objectType {path : String} {raw : Members} {type? : Option Json}
    {keywords : Keywords} {items : Items Node} {declared : List (String × Node)}
    {additional : Additional Node} {members : ObjectMembers}
    (hnode : N (.value path raw type? keywords items declared additional))
    (hmembers : Declares L declared members) (nullable : Bool) :
    (objectType members.1 members.2 nullable).Everywhere L := by
  obtain ⟨properties, index?⟩ := members
  have hoperands : ∀ operand ∈ (TypeExpr.object properties index?).operands,
      operand.Everywhere L := by
    intro operand hoperand
    rcases List.mem_append.mp hoperand with hoperand | hoperand
    · obtain ⟨property, hproperty, rfl⟩ := List.mem_map.mp hoperand
      exact hmembers.types property hproperty
    · obtain ⟨index, hindex, rfl⟩ := List.mem_map.mp hoperand
      exact hmembers.index index (Option.mem_toList.mp hindex)
  have hnamed : Everywhere L (.object properties none) := by
    refine (everywhere_iff _).mpr ⟨h.object hnode hmembers.names nofun, fun operand hmem => ?_⟩
    exact hoperands operand (List.mem_append_left _ (by simpa [TypeExpr.operands] using hmem))
  cases index? with
  | none => exact h.everywhere_orNull hnamed nullable
  | some index =>
    have hindex : Everywhere L (.object [] (some index)) := by
      refine (everywhere_iff _).mpr ⟨h.index index, fun operand hmem => ?_⟩
      rw [List.mem_singleton.mp hmem]
      exact hmembers.index index rfl
    simp only [objectType]
    split
    · refine h.everywhere_orNull ((everywhere_iff _).mpr ⟨h.beside _ _, fun operand hmem => ?_⟩) _
      rcases List.mem_pair.mp hmem with rfl | rfl
      · exact hnamed
      · exact hindex
    · rename_i hoptional
      have hrequired : properties.any (·.optional) = false := by simpa using hoptional
      exact (everywhere_iff _).mpr
        ⟨h.object hnode hmembers.names fun _ => hrequired, hoperands⟩

end Builds

/-! ### Plans -/

/-- What a plan makes of types with one property has another one. -/
def Plan.Makes {α : Type} [Typed α] (Q : TypeExpr → Prop) (R : α → Prop)
    (plan : Plan context α) : Prop :=
  ∀ types, types.length = plan.tasks.length → (∀ type ∈ types, Q type) →
    R (plan.assemble types)

namespace Plan.Makes

variable {α β : Type} [Typed α] [Typed β] {Q : TypeExpr → Prop} {R : α → Prop} {S : β → Prop}

/-- A plan without tasks makes its type. -/
theorem plain {type : TypeExpr} {hnames : type.names = []} (h : Q type) :
    (Plan.plain type hnames : Plan context TypeExpr).Makes Q Q := fun _ _ _ => h

/-- A plan of one task makes the type that the task is given. -/
theorem single (task : Task) : (Plan.single task : Plan context TypeExpr).Makes Q Q := by
  intro types hlength htypes
  obtain ⟨type, rfl⟩ := List.length_eq_one_iff.mp hlength
  exact htypes type (List.mem_singleton_self type)

/-- What is made can be put into something else. -/
theorem map {g : α → β} {hg : Typed.Keeps g} {plan : Plan context α} (h : plan.Makes Q R)
    (hS : ∀ a, R a → S (g a)) : (plan.map g hg).Makes Q S :=
  fun types hlength htypes => hS _ (h types hlength htypes)

/-- A weaker property will do. -/
theorem mono {plan : Plan context α} {R' : α → Prop} (h : plan.Makes Q R)
    (hR : ∀ a, R a → R' a) : plan.Makes Q R' :=
  fun types hlength htypes => hR _ (h types hlength htypes)

/-- Two plans make two things, each out of its own types. -/
theorem pair {first : Plan context α} {second : Plan context β} (hfirst : first.Makes Q R)
    (hsecond : second.Makes Q S) : (first.pair second).Makes Q fun both => R both.1 ∧ S both.2 := by
  intro types hlength htypes
  have hlength : types.length = first.tasks.length + second.tasks.length := by
    rw [hlength, Plan.pair, List.length_append]
  refine ⟨hfirst _ ?_ fun type hmem => htypes type (List.mem_of_mem_take hmem),
    hsecond _ ?_ fun type hmem => htypes type (List.mem_of_mem_drop hmem)⟩
  · rw [List.length_take]
    omega
  · rw [List.length_drop]
    omega

/-- A plan before others makes the first one of a list. -/
theorem cons {first : Plan context α} {others : Plan context (List α)} {T T' : List α → Prop}
    (hfirst : first.Makes Q R) (hothers : others.Makes Q T)
    (hT : ∀ a rest, R a → T rest → T' (a :: rest)) : (first.cons others).Makes Q T' :=
  (hfirst.pair hothers).map fun both h => hT both.1 both.2 h.1 h.2

/-- A plan that goes on from a calculation may use what was calculated. A failure leaves the
type to a task. -/
theorem given {γ : Type} {P : γ → Prop} {result : Except Failure γ} {h : Gives P result}
    {next : (c : γ) → P c → Plan context TypeExpr}
    (hnext : ∀ c hc, result = .ok c → (next c hc).Makes Q Q) :
    (Plan.given result h next).Makes Q Q := by
  cases result with
  | error failure => exact single _
  | ok c => exact hnext c h rfl

end Plan.Makes

section

variable {plan : Members → String → Plan context TypeExpr}

mutual

/-- The plan for a declared type makes such types if those for its names do. -/
theorem declaredPlan_makes (h : Builds context N L)
    (hplan : ∀ raw typeName, (plan raw typeName).Makes (Everywhere L) (Everywhere L))
    (raw : Members) :
    (type : Json) → (declaredPlan plan raw type).Makes (Everywhere L) (Everywhere L)
  | .str typeName => by
    rw [declaredPlan]
    exact hplan raw typeName
  | .arr types => by
    rw [declaredPlan]
    exact (eachPlan_makes h hplan raw types).map fun types htypes => h.everywhere_listed htypes
  | .null | .bool _ | .int _ | .float _ | .obj _ => by
    simp only [declaredPlan]
    exact .plain h.everywhere_any

/-- So do the plans for the types of a list, one for each. -/
theorem eachPlan_makes (h : Builds context N L)
    (hplan : ∀ raw typeName, (plan raw typeName).Makes (Everywhere L) (Everywhere L))
    (raw : Members) :
    (types : List Json) → (eachPlan plan raw types).Makes (Everywhere L)
      fun types => ∀ type ∈ types, type.Everywhere L
  | [] => by
    rw [eachPlan]
    exact fun _ _ _ => nofun
  | type :: rest => by
    rw [eachPlan]
    exact (declaredPlan_makes h hplan _ type).cons (eachPlan_makes h hplan raw rest)
      fun first others hfirst hothers => List.forall_mem_cons.mpr ⟨hfirst, hothers⟩

end

/-- The plan of a schema of a type, given those of what it holds. -/
theorem namedPlan_makes (h : Builds context N L) {path : String} {keywords : Keywords}
    {additional : Additional Node} {declared : List (String × Node)} {raw₀ : Members}
    {type? : Option Json} {items : Items Node}
    (hnode : N (.value path raw₀ type? keywords items declared additional))
    {item : Members → Plan context TypeExpr}
    (hitem : ∀ raw, (item raw).Makes (Everywhere L) (Everywhere L))
    {members : Members → List Json → Plan context ObjectMembers}
    (hmembers : ∀ raw required, (members raw required).Makes (Everywhere L) (Declares L declared))
    (raw : Members) (typeName : String) :
    (namedPlan context path keywords additional item members raw typeName).Makes
      (Everywhere L) (Everywhere L) := by
  have hprimitive (typeName : String) (hname : typeName ∈ primitiveNames) :
      (Plan.given (primitive context path raw typeName keywords) (gives_primitive ..)
        .known : Plan context TypeExpr).Makes (Everywhere L) (Everywhere L) :=
    .given fun type _ hok _ _ _ => h.everywhere_primitive hname hok
  unfold namedPlan
  split
  · exact .plain h.everywhere_null
  · exact (hitem raw).map fun type htype => h.everywhere_orNull (h.everywhere_array htype) _
  · split
    · exact .plain h.everywhere_anyObject
    · refine .given fun required _ _ => ?_
      exact (hmembers raw required).map fun found hfound => h.everywhere_objectType hnode hfound _
  · exact hprimitive _ (by decide)
  · exact hprimitive _ (by decide)
  · exact hprimitive _ (by decide)
  · exact hprimitive _ (by decide)
  · exact .plain h.everywhere_any

/-- The plan of a schema without a type makes such types. -/
theorem untypedPlan_makes (h : Builds context N L) (nullable? : Option Bool) (parent : Json) :
    (untypedPlan nullable? parent : Plan context TypeExpr).Makes (Everywhere L)
      (Everywhere L) := by
  unfold untypedPlan
  split
  · exact .plain (h.everywhere_orNull h.everywhere_any _)
  · split
    · exact .plain h.everywhere_any
    · exact .single _

mutual

/-- The plan of a node makes a type whose parts have the property, out of types whose parts
have it. The induction follows the nodes inside the node. -/
theorem nodePlan_makes (h : Builds context N L) (point : String) (parent : Json) :
    (node : Node) → node.Everywhere N →
    (nodePlan context point parent node).Makes (Everywhere L) (Everywhere L)
  | .boolean .., _ => by
    rw [nodePlan]
    exact .plain h.everywhere_anyObject
  | .reference _ raw ref, _ => by
    rw [nodePlan]
    exact .single _
  | .composition _ _ kind members nullable, hnode => by
    rw [nodePlan]
    refine (membersPlan_makes h point members hnode.2).map fun types htypes => ?_
    exact h.everywhere_orNull (h.everywhere_composed hnode.1 htypes.1 htypes.2) nullable
  | .value path raw type? keywords items properties additional, hnode => by
    have hitems (raw : Members) := itemsPlan_makes h point path raw items hnode.2.1
    have hmembers (raw : Members) (required : List Json) :
        ((propertiesPlan context point (Members.get raw "properties") required properties).pair
          (additionalPlan context point (Members.get raw "properties") additional)).Makes
            (Everywhere L) (Declares L properties) :=
      ((propertiesPlan_makes h point _ required properties hnode.2.2.1).pair
        (additionalPlan_makes h point _ additional hnode.2.2.2)).mono
          fun members hmembers => ⟨hmembers.1.1, hmembers.1.2, hmembers.2⟩
    have hnamed := namedPlan_makes h hnode.1 hitems hmembers
    cases type? with
    | some type =>
      simp only [nodePlan]
      exact declaredPlan_makes h hnamed raw type
    | none =>
      simp only [nodePlan]
      split
      · exact .plain h.everywhere_anyObject
      · split
        · exact hnamed _ _
        · exact untypedPlan_makes h _ _

/-- The plans of the members of a composition make as many such types as there are members. -/
theorem membersPlan_makes (h : Builds context N L) (point : String) : (nodes : List Node) →
    Node.MembersInside N nodes →
    (membersPlan context point nodes).Makes (Everywhere L)
      fun types => types.length = nodes.length ∧ ∀ type ∈ types, type.Everywhere L
  | [], _ => by
    rw [membersPlan]
    exact fun _ _ _ => ⟨rfl, nofun⟩
  | node :: rest, hnodes => by
    rw [membersPlan]
    refine (nodePlan_makes h point .null node hnodes.1).cons
      (membersPlan_makes h point rest hnodes.2) fun first others hfirst hothers => ?_
    exact ⟨congrArg (· + 1) hothers.1, List.forall_mem_cons.mpr ⟨hfirst, hothers.2⟩⟩

/-- The plan of the items of a list makes such types. -/
theorem itemsPlan_makes (h : Builds context N L) (point path : String) (raw : Members) :
    (items : Items Node) → Node.ItemsInside N items →
    (itemsPlan context point path raw items).Makes (Everywhere L) (Everywhere L)
  | .schema node, hitems => by
    rw [itemsPlan]
    exact nodePlan_makes h point (.obj raw) node hitems
  | .other value, _ => by
    cases value <;> simp only [itemsPlan]
    · exact .plain h.everywhere_any
    all_goals exact .single _

/-- The plans of declared properties make properties of such types, with their names and
comments. -/
theorem propertiesPlan_makes (h : Builds context N L) (point : String) (declared : Json)
    (required : List Json) : (properties : List (String × Node)) →
    Node.PropertiesInside N properties →
    (propertiesPlan context point declared required properties).Makes (Everywhere L)
      fun members => (∀ property ∈ members, property.type.Everywhere L) ∧
        members.map (fun property => (property.name, property.comment)) =
          properties.map fun pair => (Json.str pair.1, pair.2.keyword "description")
  | [], _ => by
    rw [propertiesPlan]
    exact fun _ _ _ => ⟨nofun, rfl⟩
  | (name, node) :: rest, hproperties => by
    rw [propertiesPlan]
    let R (property : Property TypeExpr) : Prop := property.type.Everywhere L ∧
      (property.name, property.comment) = (Json.str name, node.keyword "description")
    refine .cons (R := R) ((nodePlan_makes h point declared node hproperties.1).map ?_)
      (propertiesPlan_makes h point declared required rest hproperties.2) ?_
    · exact fun type htype => ⟨htype, rfl⟩
    · intro property others hproperty hothers
      refine ⟨List.forall_mem_cons.mpr ⟨hproperty.1, hothers.1⟩, ?_⟩
      rw [List.map_cons, List.map_cons, hproperty.2, hothers.2]

/-- The plan of additional properties makes an index signature of such a type, if any. -/
theorem additionalPlan_makes (h : Builds context N L) (point : String) (declared : Json) :
    (additional : Additional Node) → Node.AdditionalInside N additional →
    (additionalPlan context point declared additional).Makes (Everywhere L)
      fun index? => ∀ index ∈ index?, index.type.Everywhere L
  | .schema node, hadditional => by
    rw [additionalPlan]
    refine (nodePlan_makes h point declared node hadditional).map fun type htype => ?_
    rintro index ⟨⟩
    exact htype
  | .unspecified, _ | .allowed _, _ => by
    simp only [additionalPlan]
    exact fun _ _ _ => nofun

end

end

end Conversion

end ApiTypes
