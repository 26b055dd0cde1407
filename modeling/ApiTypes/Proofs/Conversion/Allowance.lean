import ApiTypes.Proofs.Conversion.Congruence

/-!
# Allowances of conversions

An allowance that is enough gives the same as any greater one. With the guard the
allowance of a run is always enough, since every nested expansion puts another
place in flight. With one allowance both do the same
until the guard finds a cycle.
-/

namespace ApiTypes

namespace Script

variable {α : Type} {script : Script α}

/-- A script that gives the same as another one, if that does not use up its
allowance. -/
def Extends (script script' : Script α) : Prop :=
  script.result = .error .exhausted ∨ script' = script

theorem Extends.congruence : Congruence Extends where
  refl _ := Or.inr rfl
  bind {_ _ first second next next'} h hnext := by
    rcases h with h | rfl
    · exact Or.inl (by rw [bind_of_error h])
    · cases hresult : second.result with
      | error failure => exact Or.inr (by rw [bind_of_error hresult, bind_of_error hresult])
      | ok a =>
        rcases hnext a hresult with h | h
        · exact Or.inl (by rw [bind_of_ok hresult, h])
        · exact Or.inr (by rw [bind_of_ok hresult, bind_of_ok hresult, h])

/-- A script that does not use up its allowance, beside any other one. -/
def Ends (script _script' : Script α) : Prop := script.result ≠ .error .exhausted

theorem Plain.ends (h : script.Plain) : script.result ≠ .error .exhausted := by
  intro hexhausted
  rw [Plain, hexhausted] at h
  exact h

theorem Ends.congruence : Congruence Ends where
  refl h := h.ends
  bind {_ _ first second next next'} h hnext := by
    unfold Ends at h ⊢
    cases hresult : first.result with
    | error failure =>
      rw [bind_of_error hresult]
      rintro ⟨⟩
      exact h hresult
    | ok a =>
      rw [bind_of_ok hresult]
      exact hnext a hresult

end Script

/-- Whether a path began to be expanded. -/
def Event.isEntry : Event → Bool
  | .entered _ => true
  | _ => false

/-- Events without those of the guard. -/
def Event.unguarded (events : List Event) : List Event := events.filter fun event => !event.isEntry

@[simp] theorem Event.unguarded_append (first second : List Event) :
    Event.unguarded (first ++ second) = Event.unguarded first ++ Event.unguarded second :=
  List.filter_append ..

namespace Script

variable {α β : Type}

/-- A guarded script that does the same as another one, apart from the guard,
unless it finds a cycle. -/
def Follows (guarded script : Script α) : Prop :=
  (∃ path inFlight, guarded.result = .error (.schema (.cycle path inFlight))) ∨
    guarded.result = script.result ∧ Event.unguarded guarded.events = Event.unguarded script.events

theorem Follows.congruence : Congruence Follows where
  refl _ := Or.inr ⟨rfl, rfl⟩
  bind {_ _ first second next next'} h hnext := by
    rcases h with ⟨path, inFlight, h⟩ | ⟨hresults, hevents⟩
    · exact Or.inl ⟨path, inFlight, by rw [bind_of_error h]⟩
    · cases hresult : first.result with
      | error failure =>
        rw [bind_of_error hresult, bind_of_error (hresults ▸ hresult)]
        exact Or.inr ⟨rfl, hevents⟩
      | ok a =>
        rw [bind_of_ok hresult, bind_of_ok (hresults ▸ hresult)]
        rcases hnext a hresult with hcycle | ⟨hnextResults, hnextEvents⟩
        · exact Or.inl hcycle
        · refine Or.inr ⟨hnextResults, ?_⟩
          rw [Event.unguarded_append, Event.unguarded_append, hevents, hnextEvents]

end Script

namespace Conversion

variable {context : Context}

/-- A guarded step may nest one more expansion if the step inside the guard may. -/
theorem extends_watching {α : Type} (watch : Watch) (location : String)
    {step step' : Watch → Script α} (h : ∀ watch, Script.Extends (step watch) (step' watch)) :
    Script.Extends (watching watch location step) (watching watch location step') := by
  cases watch with
  | none => exact h none
  | some inFlight =>
    simp only [watching]
    split
    · exact Or.inr rfl
    · exact Script.Extends.congruence.bind (.inr rfl) fun _ _ => h _

/-- One more expansion may nest, whatever is watched. -/
theorem script_extends (n : Nat) (watch : Watch) (point : String) (parent : Json) (path : String)
    (schema : Json) :
    Script.Extends (script context n watch point parent path schema)
      (script context (n + 1) watch point parent path schema) := by
  induction n generalizing watch point parent path schema with
  | zero => exact Or.inl rfl
  | succ n ih =>
    apply Script.Extends.congruence.script fun _ _ => trivial
    intro raw written (_ : True)
    refine extends_watching watch _ fun watch => ?_
    exact Script.Extends.congruence.bind (.inr rfl) fun found _ => ih _ _ _ _ _

/-- An allowance that is enough gives the same as a greater one. -/
theorem script_eq_of_le {n m : Nat} (hle : n ≤ m) {watch : Watch} {point : String} {parent : Json}
    {path : String} {schema : Json}
    (h : (script context n watch point parent path schema).result ≠ .error .exhausted) :
    script context m watch point parent path schema =
      script context n watch point parent path schema := by
  induction hle with
  | refl => rfl
  | @step m _ ih =>
    rcases script_extends m watch point parent path schema with hexhausted | heq
    · rw [ih] at hexhausted
      exact absurd hexhausted h
    · exact heq.trans ih

/-- Any two allowances that are enough give the same. -/
theorem script_eq_of_ends {n m : Nat} {watch : Watch} {point : String} {parent : Json}
    {path : String} {schema : Json}
    (hn : (script context n watch point parent path schema).result ≠ .error .exhausted)
    (hm : (script context m watch point parent path schema).result ≠ .error .exhausted) :
    script context n watch point parent path schema =
      script context m watch point parent path schema := by
  rcases Nat.le_total n m with hle | hle
  · exact (script_eq_of_le hle hn).symm
  · exact script_eq_of_le hle hm

/-- One watch finds a cycle wherever another one does: it watches no fewer paths. -/
inductive Watch.Covers : Watch → Watch → Prop
  /-- Any paths are more than what is not watched. -/
  | unwatched (inFlight : List String) : Covers (some inFlight) none
  /-- More paths are watched. -/
  | watched {inFlight inFlight' : List String} (h : inFlight' ⊆ inFlight) :
    Covers (some inFlight) (some inFlight')

/-- Steps that do the same under two guards, one of which watches no fewer paths, do the
same inside of them, unless the first one finds a cycle. -/
theorem follows_watching {α : Type} {watch watch' : Watch} (h : watch.Covers watch')
    (location : String) {step step' : Watch → Script α}
    (hstep : ∀ watch watch' : Watch, watch.Covers watch' →
      Script.Follows (step watch) (step' watch')) :
    Script.Follows (watching watch location step) (watching watch' location step') := by
  -- The entry of a location makes no difference.
  have hentered (paths : List String) {guarded script : Script α}
      (hfollows : Script.Follows guarded script) :
      Script.Follows (Script.record (.entered paths) >>= fun _ => guarded) script := hfollows
  cases h with
  | unwatched inFlight =>
    simp only [watching]
    split
    · exact Or.inl ⟨_, _, rfl⟩
    · exact hentered _ (hstep _ _ (.unwatched _))
  | @watched inFlight inFlight' hsubset =>
    by_cases hmem : location ∈ inFlight
    · exact Or.inl ⟨location, inFlight, by simp only [watching, if_pos hmem]; rfl⟩
    · have hmem' : location ∉ inFlight' := fun h => hmem (hsubset h)
      simp only [watching, if_neg hmem, if_neg hmem']
      refine hentered _ (hstep _ _ (.watched ?_))
      exact List.append_subset.mpr ⟨List.subset_append_of_subset_left _ hsubset,
        List.subset_append_right _ _⟩

/-- With one allowance a conversion does the same while fewer paths are watched, or none,
unless it finds a cycle. -/
theorem script_follows (n : Nat) {watch watch' : Watch} (h : watch.Covers watch') (point : String)
    (parent : Json) (path : String) (schema : Json) :
    Script.Follows (script context n watch point parent path schema)
      (script context n watch' point parent path schema) := by
  induction n generalizing watch watch' point parent path schema with
  | zero => exact Or.inr ⟨rfl, rfl⟩
  | succ n ih =>
    apply Script.Follows.congruence.script fun _ _ => trivial
    intro raw written (_ : True)
    refine follows_watching h _ fun watch watch' h => ?_
    exact Script.Follows.congruence.bind (.inr ⟨rfl, rfl⟩) fun found _ => ih h _ _ _ _

/-- A conversion that succeeds gives the same while fewer paths are watched, or none. -/
theorem script_ok_of_covers {n : Nat} {watch watch' : Watch} (h : watch.Covers watch')
    {point : String} {parent : Json} {path : String} {schema : Json} {type : TypeExpr}
    (hok : (script context n watch point parent path schema).result = .ok type) :
    (script context n watch' point parent path schema).result = .ok type := by
  have hfollows : Script.Follows (script context n watch point parent path schema)
      (script context n watch' point parent path schema) := script_follows n h ..
  rcases hfollows with ⟨_, _, hcycle⟩ | ⟨hresult, _⟩
  · rw [hok] at hcycle
    cases hcycle
  · exact hresult.symm.trans hok

/-- A location that is not in flight, as far as that is watched. -/
def Watch.Free (watch : Watch) (location : String) : Prop :=
  ∀ inFlight, watch = some inFlight → location ∉ inFlight

theorem Watch.free_none (location : String) : Watch.Free none location := nofun

theorem Watch.free_some {inFlight : List String} {location : String} (h : location ∉ inFlight) :
    Watch.Free (some inFlight) location := by
  rintro _ ⟨⟩
  exact h

section

variable {expand : ExpandScript} {watch : Watch} {raw : Members} {documentPoint : String}
  {path : List String}

/-- A place that is being expanded is not expanded again. -/
theorem placed_of_mem {inFlight : List String} (h : Pointer.locate documentPoint path ∈ inFlight) :
    (placedScript context expand (some inFlight) raw documentPoint path).result =
      .error (.schema (.cycle (Pointer.locate documentPoint path) inFlight)) := by
  simp only [placedScript, watching, if_pos h]
  rfl

/-- A place that does not exist is not expanded. -/
theorem placed_of_error (h : watch.Free (Pointer.locate documentPoint path)) {failure : Failure}
    (hlookup : context.graph.lookup documentPoint path = .error failure) :
    (placedScript context expand watch raw documentPoint path).result = .error failure := by
  have hscript : (Script.lookup context documentPoint path).result = .error failure := hlookup
  cases watch with
  | none =>
    simp only [placedScript, watching]
    rw [Script.bind_of_error hscript]
  | some inFlight =>
    simp only [placedScript, watching, if_neg (h inFlight rfl)]
    rw [Script.record_bind, Script.bind_of_error hscript]

/-- What is found at a place is converted while the place is in flight. -/
theorem placed_of_ok (h : watch.Free (Pointer.locate documentPoint path)) {found : Json}
    (hlookup : context.graph.lookup documentPoint path = .ok found) :
    (placedScript context expand watch raw documentPoint path).result =
      (expand (watch.map (· ++ [Pointer.locate documentPoint path])) documentPoint (.obj raw)
        (Pointer.locate "" path) found).result := by
  have hscript : (Script.lookup context documentPoint path).result = .ok found := hlookup
  cases watch with
  | none =>
    simp only [placedScript, watching]
    rw [Script.bind_of_ok hscript]
    rfl
  | some inFlight =>
    simp only [placedScript, watching, if_neg (h inFlight rfl)]
    rw [Script.record_bind, Script.bind_of_ok hscript]
    rfl

end

/-- Looking up a place fails only for a cause of its own. -/
theorem plain_of_lookup {documentPoint : String} {path : List String} {failure : Failure}
    (h : context.graph.lookup documentPoint path = .error failure) : failure.IsPlain := by
  have hfinds := context.graph.finds_lookup documentPoint path
  rwa [h] at hfinds

/-- What a reference leads to is in a document of the graph. -/
theorem documentOf_mem_points {point written : String} {path : List String} {found : Json}
    (h : context.graph.lookup (Reference.documentOf point written) path = .ok found) :
    Reference.documentOf point written ∈ context.graph.points ∧
      found.refs ⊆ context.graph.refs := by
  have hfinds := context.graph.finds_lookup (Reference.documentOf point written) path
  rw [h] at hfinds
  obtain ⟨hpoint, hrefs⟩ := hfinds
  exact ⟨Reference.normalize_documentOf point written ▸ hpoint, hrefs⟩

/-- The locations in the documents of a graph that references in the graph or
in a value lead to. -/
def locations (context : Context) (start : Json) : List String :=
  context.graph.points.flatMap fun point =>
    (context.graph.refs ++ start.refs).map fun ref => Pointer.locate point (Reference.segments ref)

/-- There are not more locations than expansions may nest. -/
theorem length_locations_le (context : Context) (start : Json) :
    (locations context start).length ≤ maxNested context start := by
  have hlength : (locations context start).length =
      context.graph.documents.length * (context.graph.refs.length + start.refs.length) := by
    simp [locations, Graph.points, List.length_flatMap, Function.comp_def,
        List.map_const']
  rw [hlength, maxNested]
  exact Nat.mul_le_mul_right _ (Nat.le_succ _)

/-- What is in flight are some of the locations, each of them once, and the
allowance is greater than the number of the others. -/
structure Room (context : Context) (start : Json) (n : Nat) (inFlight : List String) : Prop where
  /-- Nothing is in flight twice. -/
  nodup : inFlight.Nodup
  /-- Locations are in flight. -/
  subset : inFlight ⊆ locations context start
  /-- The allowance is enough for the others. -/
  length_lt : (locations context start).length < n + inFlight.length

namespace Room

variable {start : Json} {n : Nat} {inFlight : List String}

/-- The allowance of a run leaves room. -/
theorem maxNested (context : Context) (start : Json) :
    Room context start (Conversion.maxNested context start + 1) [] where
  nodup := List.nodup_nil
  subset := List.nil_subset _
  length_lt := by
    have hle := length_locations_le context start
    rw [List.length_nil]
    omega

theorem pos (h : Room context start n inFlight) : 0 < n := by
  have hle := h.nodup.length_le_of_subset h.subset
  have hlt := h.length_lt
  omega

/-- There is room for another location. -/
theorem enter (h : Room context start (n + 1) inFlight) {location : String}
    (hlocation : location ∈ locations context start) (hnew : location ∉ inFlight) :
    Room context start n (inFlight ++ [location]) where
  nodup := by
    refine List.nodup_append.mpr ⟨h.nodup, by simp, ?_⟩
    intro other hother last hlast heq
    rw [List.mem_singleton.mp hlast] at heq
    exact hnew (heq ▸ hother)
  subset := List.append_subset.mpr ⟨h.subset, by simpa using hlocation⟩
  length_lt := by
    have hlt := h.length_lt
    rw [List.length_append, List.length_singleton]
    omega

end Room

/-- The guarded conversion does not use up an allowance that leaves room. -/
theorem script_ends {start : Json} {n : Nat} {inFlight : List String}
    (hroom : Room context start n inFlight) (point : String) (parent : Json) (path : String)
    {schema : Json} (hrefs : ∀ ref ∈ schema.refs, ref ∈ context.graph.refs ++ start.refs) :
    (script context n (some inFlight) point parent path schema).result ≠ .error .exhausted := by
  induction n generalizing inFlight point parent path schema with
  | zero => exact absurd hroom.pos (Nat.lt_irrefl 0)
  | succ n ih =>
    change Script.Ends (script context (n + 1) (some inFlight) point parent path schema)
      (script context (n + 1) none point parent path schema)
    apply Script.Ends.congruence.script hrefs
    intro raw written hwritten
    unfold Script.Ends
    by_cases hmem : Pointer.locate (Reference.documentOf point written)
        (Reference.segments written) ∈ inFlight
    · rw [placed_of_mem hmem]
      nofun
    · cases hlookup : context.graph.lookup (Reference.documentOf point written)
          (Reference.segments written) with
      | error failure =>
        rw [placed_of_error (Watch.free_some hmem) hlookup]
        rintro ⟨⟩
        exact plain_of_lookup hlookup
      | ok found =>
        obtain ⟨hpoint, hfound⟩ := documentOf_mem_points hlookup
        have hlocation : Pointer.locate (Reference.documentOf point written)
            (Reference.segments written) ∈ locations context start :=
          List.mem_flatMap.mpr ⟨_, hpoint, List.mem_map_of_mem hwritten⟩
        rw [placed_of_ok (Watch.free_some hmem) hlookup]
        exact ih (hroom.enter hlocation hmem) _ _ _ fun ref href =>
          List.mem_append_left _ (hfound href)

end Conversion

end ApiTypes
