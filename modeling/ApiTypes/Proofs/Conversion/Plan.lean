import ApiTypes.Proofs.Calculation
import ApiTypes.Proofs.Run.Script
import ApiTypes.Run.Convert

/-!
# Plans of conversions

What a schema converts to depends on its references only through the types that
they stand for. A plan separates the two: the tasks of the conversion in order,
and how the types they give are put together. No task depends on what an earlier
one gave. The conversion of a node carries out the tasks of its plan.
-/

namespace ApiTypes

/-- A name that the settings or the format rule give. -/
def Context.Supplies (context : Context) (name : Json) : Prop :=
  (∃ overrides format, context.settings.formatOverrides = .ok (.obj overrides) ∧
    Members.get? overrides format = some name) ∨
  ∃ path raw type, context.formatType?.type? path raw = some type ∧ name ∈ type.val.externals

/-- A type without components, all of whose names the settings or the format
rule give. -/
def Context.SuppliesType (context : Context) (type : TypeExpr) : Prop :=
  type.components = [] ∧ ∀ name ∈ type.externals, context.Supplies name

/-- A type without names needs none. -/
theorem Context.suppliesType_of_names {context : Context} {type : TypeExpr}
    (h : type.names = []) : context.SuppliesType type := by
  simp [Context.SuppliesType, TypeExpr.components, TypeExpr.externals, h]

/-- Values that are made of types. -/
class Typed (α : Type) where
  /-- The names in the types. -/
  names : α → List TypeName
  /-- The value with other names for components. -/
  rename : (String → String) → α → α

namespace Typed

instance : Typed TypeExpr := ⟨TypeExpr.names, TypeExpr.rename⟩

instance {α β : Type} [Typed α] [Typed β] : Typed (α × β) where
  names pair := names pair.1 ++ names pair.2
  rename f pair := (rename f pair.1, rename f pair.2)

instance {α : Type} [Typed α] : Typed (List α) where
  names values := values.flatMap names
  rename f values := values.map (rename f)

instance {α : Type} [Typed α] : Typed (Option α) where
  names value? := value?.elim [] names
  rename f value? := value?.map (rename f)

instance : Typed (Property TypeExpr) where
  names property := property.type.names
  rename f property := { property with type := property.type.rename f }

instance : Typed (IndexSignature TypeExpr) where
  names index := index.type.names
  rename f index := { index with type := index.type.rename f }

variable {α : Type} [Typed α]

/-- The identifiers of the components in the types. -/
def components (value : α) : List String := (names value).filterMap TypeName.identifier?

/-- The names in the types that are not declared. -/
def externals (value : α) : List Json := (names value).filterMap TypeName.external?

/-- The components of a list are those of its first item and of the others. -/
theorem components_cons (first : α) (others : List α) :
    components (first :: others) = components first ++ components others :=
  List.filterMap_append

/-- A type is renamed as such. -/
theorem rename_type (f : String → String) (type : TypeExpr) : rename f type = type.rename f := rfl

/-- The components of a type are those that it names. -/
theorem components_type (type : TypeExpr) : components type = type.components := rfl

/-- The components of types are those of all of them. -/
theorem components_types (types : List TypeExpr) :
    components types = types.flatMap TypeExpr.components :=
  List.filterMap_flatMap

/-- A function that keeps the names in types where they are. -/
structure Keeps {β : Type} [Typed β] (g : α → β) : Prop where
  /-- The names are the same. -/
  names_eq : ∀ a, names (g a) = names a
  /-- Components can be renamed before or after. -/
  rename_eq : ∀ f a, rename f (g a) = g (rename f a)

namespace Keeps

/-- Putting an item before others keeps the names of both. -/
theorem cons : Keeps fun pair : α × List α => pair.1 :: pair.2 :=
  ⟨fun _ => rfl, fun _ _ => rfl⟩

/-- A list, maybe a nullable one, has the names of its items. -/
theorem array (nullable : Bool) : Keeps fun item => (TypeExpr.array item).orNull nullable where
  names_eq _ := TypeExpr.names_orNull ..
  rename_eq _ _ := TypeExpr.rename_orNull ..

/-- A property has the names of its type. -/
theorem property (name : Json) (optional readOnly : Bool) (comment : Json) :
    Keeps fun type => ({ name, type, optional, readOnly, comment } : Property TypeExpr) :=
  ⟨fun _ => rfl, fun _ _ => rfl⟩

/-- An index signature has the names of its type. -/
theorem index (key : Json) : Keeps fun type => some ({ key, type } : IndexSignature TypeExpr) :=
  ⟨fun _ => rfl, fun _ _ => rfl⟩

end Keeps

end Typed

namespace Conversion

/-- A step of a conversion that has an effect. -/
inductive Task where
  /-- No type is known: any type, and a warning with the parent. -/
  | warn (parent : Json)
  /-- The conversion stops. -/
  | fail (failure : Failure) (defect : failure.IsDefect)
  /-- The type that a reference stands for, read in an object that holds it. -/
  | follow (raw : Members) (ref : Json)

/-- Carries out a task, given what references convert to. -/
def Task.run (follow : Members → Json → Run TypeExpr) : Task → Run TypeExpr
  | .warn parent => do
    Run.report .warning untypedMessage parent
    return .any
  | .fail failure _ => throw failure
  | .follow raw ref => follow raw ref

/-- The script of a task, given those of references. -/
def Task.script (follow : Members → Json → Script TypeExpr) : Task → Script TypeExpr
  | .warn parent => do
    Script.record (.reported ⟨.warning, untypedMessage, parent⟩)
    return .any
  | .fail failure _ => Script.ofExcept (.error failure)
  | .follow raw ref => follow raw ref

/-- The tasks of a conversion in order, and the value that is made of the types
that they give. The names in the value are those in the types, in their order,
beside external ones that the context supplies. -/
structure Plan (context : Context) (α : Type) [Typed α] where
  /-- The tasks. -/
  tasks : List Task
  /-- What the types that they give make up. -/
  assemble : List TypeExpr → α
  /-- The components are those in the types. -/
  components_assemble : ∀ types, types.length = tasks.length →
    Typed.components (assemble types) = types.flatMap TypeExpr.components
  /-- The other names are in the types or come from the context. -/
  externals_assemble : ∀ types, ∀ name ∈ Typed.externals (assemble types),
    context.Supplies name ∨ ∃ type ∈ types, name ∈ type.externals
  /-- Components can be renamed before or after. -/
  rename_assemble : ∀ f types, types.length = tasks.length →
    Typed.rename f (assemble types) = assemble (types.map (TypeExpr.rename f))

namespace Plan

variable {context : Context} {α β : Type} [Typed α] [Typed β]

/-- The plan of a value that needs no task. -/
def const (a : α) (hcomponents : Typed.components a = [])
    (hexternals : ∀ name ∈ Typed.externals a, context.Supplies name)
    (hrename : ∀ f, Typed.rename f a = a) : Plan context α where
  tasks := []
  assemble _ := a
  components_assemble types hlength := by
    rw [List.eq_nil_of_length_eq_zero hlength, hcomponents]
    rfl
  externals_assemble _ name hname := Or.inl (hexternals name hname)
  rename_assemble f _ _ := hrename f

/-- The plan of a type that the context supplies. -/
def known (type : TypeExpr) (h : context.SuppliesType type) : Plan context TypeExpr :=
  const type h.1 h.2 fun f => TypeExpr.rename_of_components_eq_nil f h.1

/-- The plan of a known type without names. -/
def plain (type : TypeExpr) (h : type.names = []) : Plan context TypeExpr :=
  known type (Context.suppliesType_of_names h)

/-- The plan of one task. -/
def single (task : Task) : Plan context TypeExpr where
  tasks := [task]
  assemble types := types.headD .any
  components_assemble types hlength := by
    obtain ⟨type, rfl⟩ := List.length_eq_one_iff.mp hlength
    exact (List.append_nil _).symm
  externals_assemble types name hname := by
    cases types with
    | nil => cases hname
    | cons type rest => exact Or.inr ⟨type, List.mem_cons_self .., hname⟩
  rename_assemble f types hlength := by
    obtain ⟨type, rfl⟩ := List.length_eq_one_iff.mp hlength
    rfl

/-- The plan of a value made of another one with the same names. -/
def map (g : α → β) (h : Typed.Keeps g) (plan : Plan context α) : Plan context β where
  tasks := plan.tasks
  assemble types := g (plan.assemble types)
  components_assemble types hlength := by
    rw [Typed.components, h.names_eq]
    exact plan.components_assemble types hlength
  externals_assemble types name hname := by
    rw [Typed.externals, h.names_eq] at hname
    exact plan.externals_assemble types name hname
  rename_assemble f types hlength := by
    rw [h.rename_eq, plan.rename_assemble f types hlength]

/-- The plan of two values, one after the other. -/
def pair (first : Plan context α) (second : Plan context β) : Plan context (α × β) where
  tasks := first.tasks ++ second.tasks
  assemble types :=
    (first.assemble (types.take first.tasks.length),
      second.assemble (types.drop first.tasks.length))
  components_assemble types hlength := by
    rw [List.length_append] at hlength
    have hfirst := first.components_assemble (types.take first.tasks.length) (by simp; omega)
    have hsecond := second.components_assemble (types.drop first.tasks.length) (by simp; omega)
    simp only [Typed.components] at hfirst hsecond
    simp only [Typed.components, Typed.names, List.filterMap_append, hfirst, hsecond]
    rw [← List.flatMap_append, List.take_append_drop]
  externals_assemble types name hname := by
    simp only [Typed.externals, Typed.names, List.filterMap_append, List.mem_append] at hname
    rcases hname with hname | hname
    · rcases first.externals_assemble _ name hname with h | ⟨type, hmem, h⟩
      · exact Or.inl h
      · exact Or.inr ⟨type, List.mem_of_mem_take hmem, h⟩
    · rcases second.externals_assemble _ name hname with h | ⟨type, hmem, h⟩
      · exact Or.inl h
      · exact Or.inr ⟨type, List.mem_of_mem_drop hmem, h⟩
  rename_assemble f types hlength := by
    rw [List.length_append] at hlength
    have hfirst := first.rename_assemble f (types.take first.tasks.length) (by simp; omega)
    have hsecond := second.rename_assemble f (types.drop first.tasks.length) (by simp; omega)
    simp only [Typed.rename] at hfirst hsecond ⊢
    rw [hfirst, hsecond, List.map_take, List.map_drop]

/-- The plan that follows a calculation. -/
def given {γ : Type} {Q : γ → Prop} (result : Except Failure γ) (h : Gives Q result)
    (next : (c : γ) → Q c → Plan context TypeExpr) : Plan context TypeExpr :=
  match result, h with
  | .error failure, hdefect => single (.fail failure hdefect)
  | .ok c, hc => next c hc

/-- Carries out the tasks of a plan, and puts together the types that they give. -/
def run (plan : Plan context α) (follow : Members → Json → Run TypeExpr) : Run α := do
  return plan.assemble (← plan.tasks.mapM (Task.run follow))

/-- The script of a plan, given those of its references. -/
def script (plan : Plan context α) (follow : Members → Json → Script TypeExpr) : Script α := do
  return plan.assemble (← plan.tasks.mapM (Task.script follow))

variable (follow : Members → Json → Run TypeExpr)

/-- A constant is given without a task. -/
@[simp] theorem run_const (a : α) (hcomponents : Typed.components a = [])
    (hexternals : ∀ name ∈ Typed.externals a, context.Supplies name)
    (hrename : ∀ f, Typed.rename f a = a) :
    (const a hcomponents hexternals hrename).run follow = pure a := by
  simp [run, const]

/-- A known type is given without a task. -/
@[simp] theorem run_known (type : TypeExpr) (h : context.SuppliesType type) :
    (known type h).run follow = pure type :=
  run_const follow ..

/-- A plain type is given without a task. -/
@[simp] theorem run_plain (type : TypeExpr) (h : type.names = []) :
    (plain type h : Plan context TypeExpr).run follow = pure type := by
  simp only [plain, run_known]

/-- A plan of one task carries it out. -/
@[simp] theorem run_single (task : Task) :
    (single task : Plan context TypeExpr).run follow = task.run follow := by
  simp [run, single]

/-- What a plan gives is put into something else. -/
@[simp] theorem run_map (g : α → β) (h : Typed.Keeps g) (plan : Plan context α) :
    (plan.map g h).run follow = do return g (← plan.run follow) := by
  simp [run, map]

/-- The tasks of the first plan come first. -/
@[simp] theorem run_pair (first : Plan context α) (second : Plan context β) :
    (first.pair second).run follow = do
      let a ← first.run follow
      let b ← second.run follow
      return (a, b) := by
  simp only [run, pair, List.mapM_append, bind_assoc, pure_bind]
  refine Run.bind_congr_of_ok fun s types after hrun => ?_
  have hlength : types.length = first.tasks.length := Run.length_of_mapM_ok hrun
  congr 1
  funext others
  rw [← hlength, List.take_left, List.drop_left]

/-- A plan that goes on from a calculation is carried out after it. -/
theorem run_given {γ : Type} {Q : γ → Prop} {result : Except Failure γ} {h : Gives Q result}
    {next : (c : γ) → Q c → Plan context TypeExpr} {f : γ → Run TypeExpr}
    (hnext : ∀ c hc, (next c hc).run follow = f c) :
    (given result h next).run follow = Run.ofExcept result >>= f := by
  cases result with
  | error failure => exact run_single follow _
  | ok c => exact hnext c h

end Plan

end Conversion

end ApiTypes
