import ApiTypes.Proofs.Conversion.Allowance
import ApiTypes.Proofs.Run.Termination

/-!
# The parts of a schema are schemas

The conversion of a schema converts its parts with the allowance of the whole. This is
enough for each of them, and so is its own one: a part is converted like a schema of its
own.
-/

namespace ApiTypes

/-- Steps that realize one script, with types that are named by the registry, do the same. -/
theorem Realizes.run_eq {m m' : Run TypeExpr} {s : RunState} {script : Script TypeExpr}
    (h : Realizes Registry.Names m s script) (h' : Realizes Registry.Names m' s script) :
    m.run s = m'.run s := by
  obtain ⟨result, hrun, hresult⟩ := h
  obtain ⟨result', hrun', hresult'⟩ := h'
  rw [hrun, hrun']
  generalize script.result = scripted at hresult hresult'
  cases hresult with
  | ok hnames =>
    cases hresult' with
    | ok hnames' => rw [hnames.1, hnames'.1]
  | error failure =>
    cases hresult'
    rfl

/-- A step does not use up its allowance if the script that it realizes does not, and the
other way round. -/
theorem Realizes.exhausted_iff {m : Run TypeExpr} {s : RunState} {script : Script TypeExpr}
    (h : Realizes Registry.Names m s script) :
    (m.run s).1 = .error .exhausted ↔ script.result = .error .exhausted := by
  obtain ⟨result, hrun, hresult⟩ := h
  rw [hrun]
  generalize script.result = scripted at hresult
  cases hresult with
  | ok => exact ⟨nofun, nofun⟩
  | error failure =>
    exact ⟨fun h => congrArg _ (Except.error.inj h), fun h => congrArg _ (Except.error.inj h)⟩

namespace Context

open Conversion

variable {context : Context}

/-- What references convert to while a schema is converted. -/
abbrev following (context : Context) (schema : Json) : Follow :=
  Conversion.follow context Run.expanding (within context Run.expanding (maxNested context schema))

/-- The allowance of a schema is enough for its parts. -/
theorem within_does {schema part : Json} (hrefs : part.refs ⊆ schema.refs) (point : String)
    (parent : Json) (path : String) (s : RunState) :
    Run.Does context (Reading.among (context.readable point schema)).only (fun _ _ => True)
      (within context Run.expanding (maxNested context schema + 1) point parent path part) s :=
  .within (context.readable_covers point schema)
    (.inr (((Reading.atMost_card _).mono (context.card_readable_le point schema)).room s.inFlight))
    (context.readable_allows point schema (List.subset_append_of_subset_right _ hrefs)) parent path

/-- A part of a schema is converted like a schema of its own. -/
theorem within_eq_convertSchema {schema part : Json} (hrefs : part.refs ⊆ schema.refs)
    (point : String) (parent : Json) (path : String) :
    within context Run.expanding (maxNested context schema + 1) point parent path part =
      context.convertSchema point part path parent := by
  refine ExceptT.ext (funext fun s => ?_)
  have hpart : Realizes Registry.Names
      (within context Run.expanding (maxNested context schema + 1) point parent path part) s
      (script context (maxNested context schema + 1) (some s.inFlight) point parent path part) :=
    .within _ (.inFlight s) point parent path part
  have hown := Realizes.convertSchema context s point part path parent
  have hends := (within_does hrefs point parent path s).endsWithin id
    ((Reading.atMost_card _).mono (context.card_readable_le point schema))
  have hends' := (context.convertSchema_does s point part path parent).endsWithin id
    ((Reading.atMost_card _).mono (context.card_readable_le point part))
  have heq := script_eq_of_ends (mt hpart.exhausted_iff.mpr hends.ne_exhausted)
    (mt hown.exhausted_iff.mpr hends'.ne_exhausted)
  exact hpart.run_eq (heq ▸ hown)

/-- What is read from a part of a schema is converted like a schema of its own. -/
theorem ofNode_eq_convertSchema {schema part : Json} (hrefs : part.refs ⊆ schema.refs)
    {path : String} {node : Node} (hnode : Schema.parse path part = .ok node) (point : String)
    (parent : Json) :
    ofNode context (context.following schema) point parent node =
      context.convertSchema point part path parent := by
  rw [← within_eq_convertSchema hrefs, within]
  simp only [hnode]
  rfl

end Context

end ApiTypes
