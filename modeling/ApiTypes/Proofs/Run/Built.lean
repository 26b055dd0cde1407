import ApiTypes.Proofs.Conversion.Builds
import ApiTypes.Proofs.Conversion.Visits
import ApiTypes.Proofs.Run.Conversions
import ApiTypes.Proofs.Run.Steps

/-!
# What a run converts to

A conversion that follows references puts its type together from nodes of the schema and
of the values that references lead to. So what is known of all schemas that it comes to is
known of every node on the way.
-/

namespace ApiTypes

/-- What a step returns has a property. -/
def Run.Returns {α : Type} (Q : α → Prop) (m : Run α) : Prop :=
  ∀ s a s', m.run s = (.ok a, s') → Q a

namespace Run.Returns

variable {α β : Type} {Q : α → Prop} {R : β → Prop}

/-- Giving something returns it. -/
theorem pure {a : α} (h : Q a) : Returns Q (Pure.pure a) := by
  rintro s _ _ ⟨⟩
  exact h

/-- A failure returns nothing. -/
theorem throw (failure : Failure) : Returns Q (MonadExcept.throw failure) := nofun

/-- A calculation returns what it calculates. -/
theorem ofExcept {result : Except Failure α} (h : ∀ a, result = .ok a → Q a) :
    Returns Q (Run.ofExcept result) := by
  rintro s a _ ⟨⟩
  exact h a rfl

/-- Nothing needs to be known of what is returned. -/
theorem any (m : Run α) : Returns (fun _ => True) m := fun _ _ _ _ => trivial

/-- What the first step returns is known to the second one. -/
theorem bind {m : Run α} {f : α → Run β} (hm : Returns Q m) (hf : ∀ a, Q a → Returns R (f a)) :
    Returns R (m >>= f) := by
  intro s b s' hrun
  obtain ⟨a, after, hfirst, hnext⟩ := exists_of_run_bind_ok hrun
  exact hf a (hm s a after hfirst) after b s' hnext

/-- One step for each item returns as many results. -/
theorem mapM {f : α → Run β} {items : List α} (h : ∀ item ∈ items, Returns R (f item)) :
    Returns (fun results => results.length = items.length ∧ ∀ b ∈ results, R b)
      (items.mapM f) := by
  induction items with
  | nil => exact pure ⟨rfl, nofun⟩
  | cons item rest ih =>
    rw [List.mapM_cons]
    obtain ⟨hitem, hrest⟩ := List.forall_mem_cons.mp h
    refine bind hitem fun b hb => bind (ih hrest) fun others hothers => pure ?_
    exact ⟨congrArg (· + 1) hothers.1, List.forall_mem_cons.mpr ⟨hb, hothers.2⟩⟩

/-- What is expanded returns what the step inside it does. -/
theorem expanding {m : Run α} (hm : Returns Q m) (canonicalPath : String) :
    Returns Q (Run.expanding canonicalPath m) := by
  intro s a s' hrun
  rw [run_expanding] at hrun
  split at hrun
  · cases hrun
  · have hresult : (m.run (s.entering canonicalPath)).1 = .ok a := congrArg Prod.fst hrun
    exact hm (s.entering canonicalPath) a _ (Prod.ext hresult rfl)

/-- A reference without an identifier is resolved to a place. -/
theorem resolve {context : Context} (point : String) (ref : Json) :
    Returns (fun resolution => resolution.identifier? = none → resolution.IsPlace point ref)
      (context.resolve point ref) :=
  fun _ _ _ hrun => Context.resolve_isPlace hrun

/-- What is looked up is what the documents have at the place. -/
theorem lookup (context : Context) (point : String) (segments : List String) :
    Returns (fun value => context.graph.lookup point segments = .ok value)
      (Run.lookup context point segments) :=
  (any (Run.record _)).bind fun _ _ => ofExcept fun _ hlookup => hlookup

end Run.Returns

namespace Conversion

open TypeExpr (Everywhere)

variable {context : Context} {N : Node → Prop} {L : TypeExpr → Prop} {V : String → Json → Prop}

/-- What a plan makes, its run returns, if following its references does. -/
theorem Plan.Makes.run {α : Type} [Typed α] {Q : TypeExpr → Prop} {R : α → Prop}
    {plan : Plan context α} (h : plan.Makes Q R) (hany : Q .any)
    {follow : Members → Json → Run TypeExpr}
    (hfollow : ∀ raw ref, .follow raw ref ∈ plan.tasks → (follow raw ref).Returns Q) :
    (plan.run follow).Returns R := by
  have htask (task : Task) (hmem : task ∈ plan.tasks) : (task.run follow).Returns Q := by
    cases task with
    | warn parent => exact (Run.Returns.any _).bind fun _ _ => .pure hany
    | fail failure defect => exact .throw failure
    | follow raw ref => exact hfollow raw ref hmem
  exact (Run.Returns.mapM htask).bind fun types htypes => .pure (h types htypes.1 htypes.2)

/-- Every part of a converted type has the property that everything has which conversions
build from the schemas that they come to. The induction is on the nesting of expansions. -/
theorem within_everywhere (h : Builds context N L) (hV : Inherits context V)
    (hN : ∀ {point path value node}, V point value → Schema.parse path value = .ok node → N node)
    (allowance : Nat) (point : String) (parent : Json) (path : String) {schema : Json}
    (hschema : V point schema) :
    (within context Run.expanding allowance point parent path schema).Returns
      (Everywhere L) := by
  induction allowance generalizing point parent path schema with
  | zero => exact .throw _
  | succ allowance ih =>
    have hparse : (Run.ofExcept (Schema.parse path schema)).Returns
        fun node => Schema.parse path schema = .ok node := .ofExcept fun _ hnode => hnode
    refine hparse.bind fun node hnode => ?_
    have hinside : node.Everywhere N := hV.everywhere (fun hvalue => hN hvalue) hschema hnode
    have htasks := hV.nodePlan_startsIn hschema hnode parent
    rw [ofNode_eq_run]
    refine (nodePlan_makes h point parent node hinside).run h.everywhere_any
      fun raw ref hmem => ?_
    obtain ⟨hraw, href⟩ : V point (.obj raw) ∧ Members.get? raw "$ref" = some ref :=
      htasks _ hmem
    refine (Run.Returns.resolve point ref).bind fun resolution hplace => ?_
    split
    · exact .pure (TypeExpr.everywhere_of_operands_eq_nil (h.component _) rfl)
    · rename_i hidentifier
      have hplace := hplace hidentifier
      obtain ⟨written, rfl, hdocument, hpath, _⟩ := hplace.written
      rw [Context.target_eq_lookup hplace, hdocument, hpath]
      refine .expanding ((Run.Returns.lookup context _ _).bind fun value hlookup => ?_) _
      exact ih _ _ _ (hV.target hraw href hlookup)

end Conversion

end ApiTypes
