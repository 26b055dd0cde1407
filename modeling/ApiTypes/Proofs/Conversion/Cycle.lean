import ApiTypes.Proofs.Conversion.Allowance

/-!
# Cycles of references

The guard is exact. A place that is met again while it is being expanded is
nested in itself, so that no allowance is enough for it without guard: an
expansion that ends would have one inside that ends with a smaller allowance.
In all other cases the guard makes no difference.
-/

namespace ApiTypes

/-- A guarded script beside the one without guard: one of them uses up its
allowance, a cycle with a property is found, or both end in the same way. -/
inductive Script.Guards (Q : String → Prop) {α : Type} (guarded script : Script α) : Prop
  /-- The allowance without guard is used up. -/
  | endless (h : script.result = .error .exhausted)
  /-- The allowance with the guard is used up. -/
  | exhausted (h : guarded.result = .error .exhausted)
  /-- The guard finds a cycle. -/
  | cycle {path : String} {inFlight : List String}
    (h : guarded.result = .error (.schema (.cycle path inFlight))) (hpath : Q path)
  /-- Both end in the same way. -/
  | same (h : guarded.result = script.result) (hplain : guarded.Plain)

theorem Script.Plain.ne_cycle {α : Type} {script : Script α} (h : script.Plain) (path : String)
    (inFlight : List String) : script.result ≠ .error (.schema (.cycle path inFlight)) := by
  intro hcycle
  rw [Plain, hcycle] at h
  exact h

theorem Script.Guards.congruence (Q : String → Prop) : Congruence (Guards Q) where
  refl h := .same rfl h
  bind {_ _ first second next next'} h hnext := by
    cases h with
    | endless h => exact .endless (by rw [bind_of_error h])
    | exhausted h => exact .exhausted (by rw [bind_of_error h])
    | cycle h hpath => exact .cycle (by rw [bind_of_error h]) hpath
    | same h hplain =>
      cases hresult : first.result with
      | error failure =>
        rw [bind_of_error hresult, bind_of_error (h ▸ hresult)]
        refine .same rfl ?_
        rw [Plain, hresult] at hplain
        exact hplain
      | ok a =>
        rw [bind_of_ok hresult, bind_of_ok (h ▸ hresult)]
        cases hnext a hresult with
        | endless h => exact .endless h
        | exhausted h => exact .exhausted h
        | cycle h hpath => exact .cycle h hpath
        | same h hplain => exact .same h hplain

namespace Conversion

variable {context : Context}

/-- A schema of which no type is known has the same type inside any parent. -/
theorem exists_untypedPlan_result (context : Context) (follow : Members → Json → Script TypeExpr)
    (nullable? : Option Bool) :
    ∃ type, ∀ parent,
      ((untypedPlan nullable? parent : Plan context TypeExpr).script follow).result = .ok type := by
  cases nullable? with
  | some nullable => exact ⟨_, fun _ => rfl⟩
  | none => exact ⟨.any, fun parent => by cases parent <;> rfl⟩

/-- The parent makes no difference to how a conversion ends. -/
theorem script_parent (n : Nat) (watch : Watch) (point : String) (parent parent' : Json)
    (path : String) (schema : Json) :
    (script context n watch point parent path schema).result =
      (script context n watch point parent' path schema).result := by
  cases n with
  | zero => rfl
  | succ n =>
    simp only [script]
    cases hparse : Schema.parse path schema with
    | error failure => rfl
    | ok node =>
      have hscript : (Script.ofExcept (.ok node) : Script Node).result = .ok node := rfl
      rw [Script.bind_of_ok hscript, Script.bind_of_ok hscript]
      have hparent : (∃ plan, ∀ parent, nodePlan context point parent node = plan) ∨
          ∃ nullable?, ∀ parent, nodePlan context point parent node =
            untypedPlan nullable? parent := nodePlan_parent point node
      rcases hparent with ⟨plan, hplan⟩ | ⟨nullable?, hplan⟩
      · simp only [hplan]
      · obtain ⟨type, htype⟩ := exists_untypedPlan_result context
          (followScript context (script context n) watch point) nullable?
        simp only [hplan, htype]

/-- A place that exists in a document, with what is found there. Its location is
that of no other place. -/
structure Place (context : Context) where
  /-- The document. -/
  documentPoint : String
  /-- The segments that lead to it. -/
  segments : List String
  /-- What is found there. -/
  found : Json
  /-- The point has no `#`. -/
  hash_not_mem : '#' ∉ documentPoint.toList
  /-- The segments can be read back from a location. -/
  plain : Pointer.Plain segments
  /-- The segments lead to what is found. -/
  lookup_eq : context.graph.lookup documentPoint segments = .ok found

namespace Place

/-- Where the place is. -/
def location (place : Place context) : String := Pointer.locate place.documentPoint place.segments

theorem eq_of_location {place place' : Place context} (h : place.location = place'.location) :
    place = place' := by
  obtain ⟨point, segments, found, hhash, hplain, hlookup⟩ := place
  obtain ⟨point', segments', found', hhash', hplain', hlookup'⟩ := place'
  obtain ⟨rfl, rfl⟩ := Pointer.locate_injective hhash hhash' hplain hplain' h
  rw [hlookup] at hlookup'
  cases hlookup'
  rfl

/-- The script of converting what is found at the place. -/
def script (place : Place context) (n : Nat) (watch : Watch) (parent : Json) : Script TypeExpr :=
  Conversion.script context n watch place.documentPoint parent (Pointer.locate "" place.segments)
    place.found

/-- An allowance is enough for the place without guard. -/
def EndsWithin (place : Place context) (n : Nat) : Prop :=
  (place.script n none .null).result ≠ .error .exhausted

end Place

/-- What is known of a cycle that is found beside an allowance without guard:
the place was in flight, and a smaller allowance is enough for it. -/
def Descends (context : Context) (inFlight : List String) (m : Nat) (location : String) : Prop :=
  location ∈ inFlight ∧
    ∃ place : Place context, place.location = location ∧ ∃ j, j < m ∧ place.EndsWithin j

/-- Where a conversion may start: all that is in flight are places, and when
there are some then the document has no `#`. -/
structure Started (context : Context) (inFlight : List String) (point : String) : Prop where
  /-- What is in flight are places. -/
  places : ∀ location ∈ inFlight, ∃ place : Place context, place.location = location
  /-- Inside of a place the document has no `#`. -/
  hash_not_mem : inFlight ≠ [] → '#' ∉ (Point.normalize point).toList

namespace Started

variable {inFlight : List String} {point written : String}

/-- Conversions start with nothing in flight. -/
theorem nil (point : String) : Started context [] point := ⟨nofun, fun h => absurd rfl h⟩

/-- A reference that leads to a location in flight leads to the place there. -/
theorem exists_place (h : Started context inFlight point) (hwritten : Reference.Plain written)
    (hmem : Pointer.locate (Reference.documentOf point written) (Reference.segments written) ∈
      inFlight) :
    ∃ place : Place context, place.documentPoint = Reference.documentOf point written ∧
      place.segments = Reference.segments written := by
  obtain ⟨place, hlocation⟩ := h.places _ hmem
  have hhash := Reference.hash_not_mem_documentOf (h.hash_not_mem (List.ne_nil_of_mem hmem)) written
  exact ⟨place, Pointer.locate_injective place.hash_not_mem hhash place.plain hwritten.segments
    hlocation⟩

/-- What is found at a place is converted with the place in flight. -/
theorem enter (h : Started context inFlight point) (place : Place context)
    (hnormal : Point.normalize place.documentPoint = place.documentPoint) :
    Started context (inFlight ++ [place.location]) place.documentPoint where
  places location hmem := by
    rcases List.mem_append.mp hmem with hmem | hmem
    · exact h.places location hmem
    · exact ⟨place, (List.mem_singleton.mp hmem).symm⟩
  hash_not_mem _ := hnormal.symm ▸ place.hash_not_mem

end Started

/-- What is compared for one allowance without guard. -/
def Compared (context : Context) (m : Nat) : Prop :=
  ∀ (n : Nat) (inFlight : List String) (point : String) (parent : Json) (path : String)
    (schema : Json), Started context inFlight point → (∀ ref ∈ schema.refs, Reference.Plain ref) →
    Script.Guards (Descends context inFlight m)
      (script context n (some inFlight) point parent path schema)
      (script context m none point parent path schema)

/-- A place in which a cycle back to it is found ends with no allowance, as an
allowance that is enough would lead to a smaller one. -/
theorem Place.not_endsWithin (place : Place context) {m : Nat}
    (hcompared : ∀ j, j < m → Compared context j) {n : Nat} {inFlight chain : List String}
    {parent : Json} (hstarted : Started context inFlight place.documentPoint)
    (hrefs : ∀ ref ∈ place.found.refs, Reference.Plain ref)
    (hcycle : (place.script n (some inFlight) parent).result =
      .error (.schema (.cycle place.location chain))) (j : Nat) (hj : j < m) :
    ¬ place.EndsWithin j := by
  induction j using Nat.strongRecOn with
  | ind j ih =>
    intro hends
    have hguards : Script.Guards (Descends context inFlight j)
        (place.script n (some inFlight) parent) (place.script j none parent) :=
      hcompared j hj n inFlight _ _ _ _ hstarted hrefs
    cases hguards with
    | endless h =>
      rw [Place.script, script_parent] at h
      exact hends h
    | exhausted h =>
      rw [h] at hcycle
      cases hcycle
    | cycle h hdescends =>
      rw [hcycle] at h
      cases h
      obtain ⟨_, place', hlocation, j', hj', hends'⟩ := hdescends
      obtain rfl := Place.eq_of_location hlocation
      exact ih j' hj' (Nat.lt_trans hj' hj) hends'
    | same _ hplain => exact hplain.ne_cycle _ _ hcycle

section

variable {m n : Nat} {inFlight : List String} {raw : Members} (place : Place context)

/-- At a place that is in flight the guard finds a cycle, which descends if an
allowance without guard is enough. -/
theorem placed_guards_of_mem (hmem : place.location ∈ inFlight) :
    Script.Guards (Descends context inFlight (m + 1))
      (placedScript context (script context n) (some inFlight) raw place.documentPoint
        place.segments)
      (placedScript context (script context m) none raw place.documentPoint place.segments) := by
  have hfound : (placedScript context (script context m) none raw place.documentPoint
      place.segments).result = (place.script m none .null).result :=
    (placed_of_ok (Watch.free_none _) place.lookup_eq).trans (script_parent _ _ _ _ _ _ _)
  by_cases hends : place.EndsWithin m
  · exact .cycle (placed_of_mem hmem) ⟨hmem, place, rfl, m, Nat.lt_succ_self m, hends⟩
  · exact .endless (hfound.trans (Classical.not_not.mp hends))

/-- A cycle that is found at a place that was not in flight leads to another
one. -/
theorem placed_guards (hmem : place.location ∉ inFlight)
    (hcompared : ∀ j, j < m + 1 → Compared context j)
    (hstarted : Started context (inFlight ++ [place.location]) place.documentPoint)
    (hrefs : ∀ ref ∈ place.found.refs, Reference.Plain ref) :
    Script.Guards (Descends context inFlight (m + 1))
      (placedScript context (script context n) (some inFlight) raw place.documentPoint
        place.segments)
      (placedScript context (script context m) none raw place.documentPoint place.segments) := by
  have hguarded : (placedScript context (script context n) (some inFlight) raw place.documentPoint
      place.segments).result =
        (place.script n (some (inFlight ++ [place.location])) (.obj raw)).result :=
    placed_of_ok (Watch.free_some hmem) place.lookup_eq
  have hunguarded : (placedScript context (script context m) none raw place.documentPoint
      place.segments).result = (place.script m none (.obj raw)).result :=
    placed_of_ok (Watch.free_none _) place.lookup_eq
  have hguards : Script.Guards (Descends context (inFlight ++ [place.location]) m)
      (place.script n (some (inFlight ++ [place.location])) (.obj raw))
      (place.script m none (.obj raw)) :=
    hcompared m (Nat.lt_succ_self m) _ _ _ _ _ _ hstarted hrefs
  cases hguards with
  | endless h => exact .endless (hunguarded.trans h)
  | exhausted h => exact .exhausted (hguarded.trans h)
  | cycle h hdescends =>
    obtain ⟨hlocation, other, rfl, j, hj, hends⟩ := hdescends
    rcases List.mem_append.mp hlocation with hlocation | hlocation
    · exact .cycle (hguarded.trans h) ⟨hlocation, other, rfl, j, Nat.lt_succ_of_lt hj, hends⟩
    · -- A cycle back to the place itself would descend without end.
      obtain rfl := Place.eq_of_location (List.mem_singleton.mp hlocation)
      exact absurd hends (other.not_endsWithin (fun i hi => hcompared i (Nat.lt_succ_of_lt hi))
        hstarted hrefs h j hj)
  | same h hplain =>
    refine .same ((hguarded.trans h).trans hunguarded.symm) ?_
    rw [Script.Plain, hguarded]
    exact hplain

end

/-- With any two allowances the guarded conversion and the one without guard end
in the same way, unless an allowance is used up or a cycle is found that
descends. -/
theorem compared (hpoints : ∀ point ∈ context.graph.points, '#' ∉ point.toList)
    (hrefs : ∀ ref ∈ context.graph.refs, Reference.Plain ref) (m : Nat) : Compared context m := by
  induction m using Nat.strongRecOn with
  | ind m ih =>
    intro n inFlight point parent path schema hstarted hschema
    cases m with
    | zero => exact .endless rfl
    | succ m =>
      cases n with
      | zero => exact .exhausted rfl
      | succ n =>
        apply (Script.Guards.congruence _).script hschema
        intro raw written hwritten
        by_cases hmem : Pointer.locate (Reference.documentOf point written)
            (Reference.segments written) ∈ inFlight
        · obtain ⟨place, hpoint, hsegments⟩ := hstarted.exists_place hwritten hmem
          rw [← hpoint, ← hsegments] at hmem ⊢
          exact placed_guards_of_mem place hmem
        · cases hlookup : context.graph.lookup (Reference.documentOf point written)
              (Reference.segments written) with
          | error failure =>
            refine .same ((placed_of_error (Watch.free_some hmem) hlookup).trans
              (placed_of_error (Watch.free_none _) hlookup).symm) ?_
            rw [Script.Plain, placed_of_error (Watch.free_some hmem) hlookup]
            exact plain_of_lookup hlookup
          | ok found =>
            obtain ⟨hpoint, hfound⟩ := documentOf_mem_points hlookup
            let place : Place context :=
              ⟨_, _, found, hpoints _ hpoint, hwritten.segments, hlookup⟩
            exact placed_guards place hmem ih
              (hstarted.enter place (Reference.normalize_documentOf point written))
              fun ref href => hrefs ref (hfound href)

/-- A conversion of which the guard finds a cycle ends with no allowance without
guard. -/
theorem script_exhausted (hpoints : ∀ point ∈ context.graph.points, '#' ∉ point.toList)
    (hrefs : ∀ ref ∈ context.graph.refs, Reference.Plain ref) {n : Nat} {point : String}
    {parent : Json} {path : String} {schema : Json}
    (hschema : ∀ ref ∈ schema.refs, Reference.Plain ref) {location : String} {chain : List String}
    (hcycle : (script context n (some []) point parent path schema).result =
      .error (.schema (.cycle location chain))) (m : Nat) :
    (script context m none point parent path schema).result = .error .exhausted := by
  have hguards := compared hpoints hrefs m n [] point parent path schema (.nil point) hschema
  cases hguards with
  | endless h => exact h
  | exhausted h =>
    rw [h] at hcycle
    cases hcycle
  | cycle h hdescends => cases hdescends.1
  | same _ hplain => exact absurd hcycle (hplain.ne_cycle _ _)

/-- A conversion that ends with some allowance without guard does the same with
the guard. -/
theorem script_same (hpoints : ∀ point ∈ context.graph.points, '#' ∉ point.toList)
    (hrefs : ∀ ref ∈ context.graph.refs, Reference.Plain ref) {point : String} {parent : Json}
    {path : String} {schema : Json} (hschema : ∀ ref ∈ schema.refs, Reference.Plain ref) {n m : Nat}
    (hn : (script context n (some []) point parent path schema).result ≠ .error .exhausted)
    (hm : (script context m none point parent path schema).result ≠ .error .exhausted) :
    (script context n (some []) point parent path schema).result =
        (script context m none point parent path schema).result ∧
      Event.unguarded (script context n (some []) point parent path schema).events =
        Event.unguarded (script context m none point parent path schema).events := by
  have hfollows : Script.Follows (script context n (some []) point parent path schema)
      (script context n none point parent path schema) := script_follows n (.unwatched []) ..
  rcases hfollows with ⟨location, chain, hcycle⟩ | ⟨hresult, hevents⟩
  · exact absurd (script_exhausted hpoints hrefs hschema hcycle m) hm
  · rw [hresult] at hn
    have heq := script_eq_of_ends hn hm
    rw [heq] at hresult hevents
    exact ⟨hresult, hevents⟩

end Conversion

end ApiTypes
