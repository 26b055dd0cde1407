import Mathlib.Data.List.Nodup
import ApiTypes.Proofs.Run.Guard
import ApiTypes.Proofs.Run.Reach

/-!
# What is in flight

Paths are put in flight and taken out by position, in steps that nest and that
can fail at any depth. Still every step leaves the list as it found it, no path
is ever in it twice, and a cycle of references is told by a chain of different
paths in which the one that was met again occurs.
-/

namespace ApiTypes

/-- A failure that is no cycle of references. -/
def Failure.IsOther (failure : Failure) : Prop :=
  ∀ canonicalPath chain, failure ≠ .schema (.cycle canonicalPath chain)

/-- A path that is not in flight can be put behind different ones. -/
theorem nodup_entered {inFlight : List String} {canonicalPath : String} (h : inFlight.Nodup)
    (hnew : canonicalPath ∉ inFlight) : (inFlight ++ [canonicalPath]).Nodup := by
  rw [← List.concat_eq_append]
  exact (List.nodup_concat ..).mpr ⟨hnew, h⟩

/-- Locations that can be put in flight stand behind different paths. -/
theorem Reading.Fresh.nodup_append {R : Reading} {inFlight locations : List String}
    (h : R.Fresh inFlight locations) (hinFlight : inFlight.Nodup) :
    (inFlight ++ locations).Nodup :=
  List.nodup_append.mpr ⟨hinFlight, h.nodup, fun _ hpath location hmem heq =>
    h.notMem location hmem (heq ▸ hpath)⟩

/-- How a step ends that started in a state and balances what is in flight. -/
structure EndsBalanced {α : Type} (s : RunState) (last : Except Failure α × RunState) : Prop where
  /-- The same paths are in flight as before, whether the step failed or not. -/
  inFlight_eq : last.2.inFlight = s.inFlight
  /-- On the way paths were put in flight behind those that were, none of them twice. -/
  entered : ∀ paths, .entered paths ∈ last.2.journal →
    .entered paths ∈ s.journal ∨ s.inFlight <+: paths ∧ paths.Nodup
  /-- If the step found a cycle, then its chain continues what was in flight, has
  different paths and contains the one that was met again. -/
  cycle : ∀ canonicalPath chain, last.1 = .error (.schema (.cycle canonicalPath chain)) →
    s.inFlight <+: chain ∧ chain.Nodup ∧ canonicalPath ∈ chain

/-- A step that does no more than it may, whatever that is, balances what is in flight. -/
theorem Run.Does.endsBalanced {α : Type} {context : Context} {may : Permission}
    {Q : Registry → α → Prop} {m : Run α} {s : RunState} (h : Run.Does context may Q m s)
    (hs : s.inFlight.Nodup) : EndsBalanced s (m.run s) where
  inFlight_eq := h.progress.inFlight_eq
  entered paths hmem := by
    rcases h.progress.mem_journal hmem with hmem | ⟨locations, rfl, hfresh⟩
    · exact Or.inl hmem
    · exact Or.inr ⟨List.prefix_append .., hfresh.nodup_append hs⟩
  cycle canonicalPath chain hfailure := by
    obtain ⟨hmet, locations, rfl, hfresh⟩ := (h.fails _ hfailure).cycle canonicalPath chain rfl
    exact ⟨List.prefix_append .., hfresh.nodup_append hs, hmet⟩

/-- A step balances what is in flight from every state without repetition. -/
def Run.Balanced {α : Type} (m : Run α) : Prop :=
  ∀ s : RunState, s.inFlight.Nodup → EndsBalanced s (m.run s)

namespace Run.Balanced

variable {α β : Type}

/-- A calculation that finds no cycle leaves the state as it is. -/
theorem ofExcept {result : Except Failure α}
    (h : ∀ failure, result = .error failure → failure.IsOther) :
    Balanced (Run.ofExcept result) := by
  intro s _
  exact {
    inFlight_eq := rfl
    entered := fun paths hmem => Or.inl hmem
    cycle := fun canonicalPath chain hfailure => absurd rfl (h _ hfailure canonicalPath chain) }

/-- One balanced step can follow another one. -/
theorem bind {m : Run α} {f : α → Run β} (hm : Balanced m) (hf : ∀ a, Balanced (f a)) :
    Balanced (m >>= f) := by
  intro s hs
  have hfirst := hm s hs
  rcases hrun : m.run s with ⟨failure | a, after⟩
  · rw [hrun] at hfirst
    rw [run_bind_of_error hrun]
    refine ⟨hfirst.inFlight_eq, hfirst.entered, ?_⟩
    rintro canonicalPath chain ⟨⟩
    exact hfirst.cycle canonicalPath chain rfl
  · rw [hrun] at hfirst
    rw [run_bind_of_ok hrun]
    have hsame : after.inFlight = s.inFlight := hfirst.inFlight_eq
    have hnext := hf a after (hsame ▸ hs)
    refine ⟨hnext.inFlight_eq.trans hsame, fun paths hmem => ?_, hsame ▸ hnext.cycle⟩
    rcases hnext.entered paths hmem with hmem | hlater
    · exact hfirst.entered paths hmem
    · exact Or.inr (hsame ▸ hlater)

/-- A failure can be handled by another balanced step. -/
theorem handle {m : Run α} {f : Failure → Run α} (hm : Balanced m) (hf : ∀ e, Balanced (f e)) :
    Balanced (tryCatch m f) := by
  intro s hs
  have hfirst := hm s hs
  rw [run_tryCatch]
  rcases hrun : m.run s with ⟨failure | a, after⟩
  · rw [hrun] at hfirst
    have hsame : after.inFlight = s.inFlight := hfirst.inFlight_eq
    have hnext := hf failure after (hsame ▸ hs)
    refine ⟨hnext.inFlight_eq.trans hsame, fun paths hmem => ?_, hsame ▸ hnext.cycle⟩
    rcases hnext.entered paths hmem with hmem | hlater
    · exact hfirst.entered paths hmem
    · exact Or.inr (hsame ▸ hlater)
  · rw [hrun] at hfirst
    exact hfirst

/-- A path that was put in flight is the last one when the step ends, and so it is
the one that is taken out. -/
theorem expanding {m : Run α} (hm : Balanced m) (canonicalPath : String) :
    Balanced (Run.expanding canonicalPath m) := by
  intro s hs
  rw [run_expanding]
  split
  · rename_i hmem
    refine ⟨rfl, fun paths hmem => Or.inl hmem, ?_⟩
    rintro _ _ ⟨⟩
    exact ⟨List.prefix_refl _, hs, hmem⟩
  · rename_i hnew
    have hnodup : (s.inFlight ++ [canonicalPath]).Nodup := nodup_entered hs hnew
    have hbehind : s.inFlight <+: s.inFlight ++ [canonicalPath] := List.prefix_append _ _
    have hend := hm (s.entering canonicalPath) hnodup
    refine ⟨?_, fun paths hpaths => ?_, fun path chain hfailure => ?_⟩
    · rw [RunState.leaving, hend.inFlight_eq]
      exact List.dropLast_concat
    · rcases hend.entered paths hpaths with hpaths | ⟨hlater, hdistinct⟩
      · rcases List.mem_cons.mp hpaths with hentered | hpaths
        · cases hentered
          exact Or.inr ⟨hbehind, hnodup⟩
        · exact Or.inl hpaths
      · exact Or.inr ⟨hbehind.trans hlater, hdistinct⟩
    · obtain ⟨hlater, hdistinct, hmet⟩ := hend.cycle path chain hfailure
      exact ⟨hbehind.trans hlater, hdistinct, hmet⟩

end Run.Balanced

/-- What the user of a run does in it: whole calls and calculations, one after
another and inside expansions, nested to any depth, with failures handled on the
way or passed on. -/
inductive Context.Uses (context : Context) : {α : Type} → Run α → Prop
  /-- A whole call is made. -/
  | call {call : Call} (h : call.IsWhole) : context.Uses (call.perform context)
  /-- Something is calculated, with a result or a failure that is no cycle of references. -/
  | calculate {α : Type} {result : Except Failure α}
    (h : ∀ failure, result = .error failure → failure.IsOther) :
    context.Uses (Run.ofExcept result)
  /-- One thing is done after another. -/
  | bind {α β : Type} {m : Run α} {f : α → Run β} (hm : context.Uses m)
    (hf : ∀ a, context.Uses (f a)) : context.Uses (m >>= f)
  /-- A failure is handled. -/
  | handle {α : Type} {m : Run α} {f : Failure → Run α} (hm : context.Uses m)
    (hf : ∀ failure, context.Uses (f failure)) : context.Uses (tryCatch m f)
  /-- Something is done while a path is being expanded. -/
  | expanding {α : Type} {m : Run α} (hm : context.Uses m) (canonicalPath : String) :
    context.Uses (Run.expanding canonicalPath m)

/-- Whole calls balance what is in flight. -/
theorem Call.perform_balanced {context : Context} {call : Call} (h : call.IsWhole) :
    (call.perform context).Balanced :=
  fun s hs => (Call.perform_does context h s).endsBalanced hs

/-- Whatever is put together from balanced steps is balanced. -/
theorem Context.Uses.balanced {context : Context} {α : Type} {m : Run α} (h : context.Uses m) :
    m.Balanced := by
  induction h with
  | call h => exact Call.perform_balanced h
  | calculate h => exact .ofExcept h
  | bind _ _ ihm ihf => exact ihm.bind ihf
  | handle _ _ ihm ihf => exact ihm.handle ihf
  | expanding _ canonicalPath ih => exact ih.expanding canonicalPath

/-- No path is in flight twice, now or before. -/
structure RunState.Distinct (s : RunState) : Prop where
  /-- The paths in flight are different. -/
  inFlight : s.inFlight.Nodup
  /-- So were those in flight whenever one was put there. -/
  entered : ∀ paths, .entered paths ∈ s.journal → paths.Nodup

namespace RunState.Distinct

variable {context : Context} {s s' : RunState}

/-- Nothing is in flight in the beginning. -/
theorem initial (context : Context) : (RunState.initial context).Distinct :=
  ⟨List.nodup_nil, fun _ hmem => nomatch hmem⟩

/-- Balanced steps keep the paths in flight different. -/
theorem of_endsBalanced {α : Type} {last : Except Failure α × RunState} (hs : s.Distinct)
    (h : EndsBalanced s last) : last.2.Distinct where
  inFlight := h.inFlight_eq ▸ hs.inFlight
  entered paths hmem := (h.entered paths hmem).elim (hs.entered paths) And.right

/-- Every call keeps the paths in flight different, also one that begins or ends an
expansion. -/
theorem afterCall (hs : s.Distinct) (call : Call) : (s.afterCall context call).Distinct := by
  by_cases hwhole : call.IsWhole
  · exact hs.of_endsBalanced (Call.perform_balanced hwhole s hs.inFlight)
  · cases call with
    | enter canonicalPath =>
      rw [RunState.afterCall, Call.run_enter]
      split
      · exact hs
      · rename_i hmem
        have hnodup : (s.inFlight ++ [canonicalPath]).Nodup := nodup_entered hs.inFlight hmem
        refine ⟨hnodup, fun paths hpaths => ?_⟩
        rcases List.mem_cons.mp hpaths with hentered | hpaths
        · cases hentered
          exact hnodup
        · exact hs.entered paths hpaths
    | leave => exact ⟨hs.inFlight.sublist (List.dropLast_sublist _), hs.entered⟩
    | _ => exact absurd trivial hwhole

/-- So do calls one after another. -/
theorem of_leads {types : List TypeExpr} (hs : s.Distinct) (h : context.Leads s types s') :
    s'.Distinct := by
  induction h with
  | refl => exact hs
  | call _ call ih => exact ih.afterCall call

end RunState.Distinct

/-- What is in flight is balanced. In every state that calls lead to, also inside
any nesting of expansions, the paths in flight are different, and so they were
whenever one was put in flight. From there the calls that convert, resolve, look up
or register, collect operations or generate declarations, and whatever is put
together from them by sequencing, handling failures and expanding paths around them,
leave the list as they found it, whether they succeed or fail. What they put in flight
on the way stands behind that list, without repetition. Each cycle of references with
which they fail has a chain of different paths that begins with that list and contains
the path that was met again. -/
theorem inFlight_balanced {context : Context} {types : List TypeExpr} {s : RunState}
    (h : context.Reaches types s) :
    s.Distinct ∧
    ∀ {α : Type} {m : Run α}, context.Uses m → EndsBalanced s (m.run s) ∧ (m.run s).2.Distinct := by
  have hdistinct : s.Distinct := (RunState.Distinct.initial context).of_leads h
  refine ⟨hdistinct, fun hm => ?_⟩
  have hend := hm.balanced s hdistinct.inFlight
  exact ⟨hend, hdistinct.of_endsBalanced hend⟩

/-- The state while the conversion of a pair is being expanded. -/
def RunState.pairEntered : RunState :=
  (((Call.enter "a.json#/pair").perform Context.linked).run (.initial Context.linked)).2

/-- Inside the expansion of the pair, under one more expansion, the conversion of the
node fails with a chain that begins with both, and leaves the pair in flight. -/
theorem linked_inFlight_balanced :
    ((Run.expanding "b.json#/leaf" ((Call.convertSchema "a.json"
        (.obj [("$ref", .str "#/node")]) "#" .null).perform Context.linked)).run .pairEntered).1 =
      .error (.schema (.cycle "a.json#/node"
        ["a.json#/pair", "b.json#/leaf", "a.json#/node", "b.json#/node"])) ∧
    EndsBalanced RunState.pairEntered
      ((Run.expanding "b.json#/leaf" ((Call.convertSchema "a.json"
        (.obj [("$ref", .str "#/node")]) "#" .null).perform Context.linked)).run .pairEntered) := by
  have hreaches : Context.linked.Reaches _ .pairEntered := .call .refl (.enter "a.json#/pair")
  have hwhole : (Call.convertSchema "a.json" (.obj [("$ref", .str "#/node")]) "#" .null).IsWhole :=
    trivial
  have hcall : Context.linked.Uses ((Call.convertSchema "a.json" (.obj [("$ref", .str "#/node")])
    "#" .null).perform Context.linked) := .call hwhole
  exact ⟨rfl, ((inFlight_balanced hreaches).2 (hcall.expanding "b.json#/leaf")).1⟩

end ApiTypes
