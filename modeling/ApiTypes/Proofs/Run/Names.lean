import ApiTypes.Proofs.Identifier
import ApiTypes.Proofs.Run.Reach

/-!
# Names in a run

Steps of a run change the registry only by requests for names. What requests keep is
therefore kept by every call, and holds in all states that calls lead to. So all schemas
are registered under names, and so are the types that a module of a run exports.
-/

namespace ApiTypes

/-- What requests keep, every call keeps. -/
theorem Call.perform_keeps (context : Context) (call : Call) {P : Registry → Prop}
    (hP : ∀ r request, P r → P (Registry.ensure r request).2) {s : RunState} (hs : P s.registry) :
    P (s.afterCall context call).registry := by
  by_cases hwhole : call.IsWhole
  · exact (Call.perform_does context hwhole s).progress.keeps hP hs
  · rw [(Call.perform_of_not_isWhole context hwhole s).1]
    exact hs

namespace Context.Leads

variable {context : Context} {s s' : RunState} {types : List TypeExpr}

/-- What requests keep, holds in all states that calls lead to. -/
theorem keeps {P : Registry → Prop} (hP : ∀ r request, P r → P (Registry.ensure r request).2)
    (h : context.Leads s types s') (hs : P s.registry) : P s'.registry := by
  induction h with
  | refl => exact hs
  | call _ call ih => exact call.perform_keeps context hP ih

/-- In every state of a run, schemas are registered under names. -/
theorem hasNames (h : context.Reaches types s) : s.registry.HasNames :=
  h.keeps (fun _ request hr => (Registry.HasNames.ensure hr request).2) (.empty _)

end Context.Leads

end ApiTypes
