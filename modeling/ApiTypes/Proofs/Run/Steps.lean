import ApiTypes.Proofs.Run.Progress

/-!
# What steps are made of

Conversions, resolutions, the collection of operations and the making of declarations
are long, but they are put together from few elementary steps. This file says what an
elementary step does when it does no more than it may, and that steps one after
another, under a report and inside a guard do no more than that, either. So every
function of a run is gone through once. What progress keeps holds of all of them.
-/

namespace ApiTypes

namespace Run

variable {context : Context} {may may' : Permission} {α β : Type} {Q : Registry → α → Prop}
  {Q' : Registry → β → Prop} {s : RunState}

/-- An expansion is the step inside it, between a push and a pop of its path. -/
theorem run_expanding (canonicalPath : String) (m : Run α) (s : RunState) :
    (Run.expanding canonicalPath m).run s =
      if canonicalPath ∈ s.inFlight then
        (.error (.schema (.cycle canonicalPath s.inFlight)), s)
      else
        ((m.run (s.entering canonicalPath)).1, (m.run (s.entering canonicalPath)).2.leaving) := rfl

/-- A document is what is looked up at no segments. -/
theorem document_eq_lookup (context : Context) (point : String) :
    Run.document context point = Run.lookup context point [] := by
  have heq : (context.graph.document point).mapError .schema = context.graph.lookup point [] := by
    rw [Graph.lookup]
    cases context.graph.document point <;> rfl
  rw [Run.document, heq]
  rfl

/-- A step that starts in a state does no more than it may. It makes progress, what it
gives has a property relative to the registry in the end, and its failures have causes. -/
structure Does (context : Context) (may : Permission) (Q : Registry → α → Prop) (m : Run α)
    (s : RunState) : Prop where
  /-- The state in the end. -/
  progress : s.Progress context may (m.run s).2
  /-- What it gives. -/
  gives : ∀ a, (m.run s).1 = .ok a → Q (m.run s).2.registry a
  /-- How it fails. -/
  fails : ∀ failure, (m.run s).1 = .error failure →
    failure.Arises context.graph may s.inFlight (m.run s).2.journal

namespace Does

/-- What counts is where a step ends that starts in the state. -/
theorem congr {m m' : Run α} (hm : Does context may Q m s) (h : m'.run s = m.run s) :
    Does context may Q m' s := by
  obtain ⟨hprogress, hgives, hfails⟩ := hm
  constructor
  · rwa [h]
  · rwa [h]
  · rwa [h]

/-- A step makes progress to where it ends. -/
theorem progress_of_run {m : Run α} (hm : Does context may Q m s) {result : Except Failure α}
    {s' : RunState} (h : m.run s = (result, s')) : s.Progress context may s' := by
  have hprogress := hm.progress
  rwa [h] at hprogress

/-- What a step has given has the property. -/
theorem gives_of_run {m : Run α} (hm : Does context may Q m s) {a : α} {s' : RunState}
    (h : m.run s = (.ok a, s')) : Q s'.registry a := by
  have hgives := hm.gives a
  rw [h] at hgives
  exact hgives rfl

/-- Giving something does nothing. -/
theorem pure {a : α} (h : Q s.registry a) : Does context may Q (Pure.pure a) s where
  progress := .refl s
  gives := by
    rintro _ ⟨⟩
    exact h
  fails := nofun

/-- Failing because of a defect does nothing. -/
theorem throw {failure : Failure} (h : failure.IsDefect) :
    Does context may Q (MonadExcept.throw failure) s where
  progress := .refl s
  gives := nofun
  fails := by
    rintro _ ⟨⟩
    exact h.arises ..

/-- What stands behind a failure is not reached. -/
theorem throw_bind {failure : Failure} (h : failure.IsDefect) (f : β → Run α) :
    Does context may Q (MonadExcept.throw failure >>= f) s := (throw h).congr rfl

/-- An allowance is used up only if it may be. -/
theorem exhausted (hroom : may.Room 0 s.inFlight) :
    Does context may Q (MonadExcept.throw .exhausted) s where
  progress := .refl s
  gives := nofun
  fails := by
    rintro _ ⟨⟩
    exact ⟨fun _ => hroom.resolve_right fun h => absurd h.pos (Nat.lt_irrefl 0), nofun, nofun⟩

/-- A step can follow another one, from the state and with the value that that one
ended with. -/
theorem bind {m : Run α} {f : α → Run β} (hm : Does context may Q m s)
    (hf : ∀ a s', m.run s = (.ok a, s') → s.Progress context may s' → Q s'.registry a →
      Does context may Q' (f a) s') :
    Does context may Q' (m >>= f) s := by
  rcases hrun : m.run s with ⟨failure | a, s'⟩
  · have hprogress := hm.progress_of_run hrun
    have hfails := hm.fails
    rw [hrun] at hfails
    constructor
    · rwa [run_bind_of_error hrun]
    · rw [run_bind_of_error hrun]
      nofun
    · rw [run_bind_of_error hrun]
      rintro _ ⟨⟩
      exact hfails failure rfl
  · have hprogress := hm.progress_of_run hrun
    have hnext := hf a s' hrun hprogress (hm.gives_of_run hrun)
    constructor
    · rw [run_bind_of_ok hrun]
      exact hprogress.trans hnext.progress
    · rw [run_bind_of_ok hrun]
      exact hnext.gives
    · rw [run_bind_of_ok hrun, ← hprogress.inFlight_eq]
      exact hnext.fails

/-- A step that does no more than it may from every state can follow any other one. -/
theorem andThen {m : Run α} {f : α → Run β} (hm : Does context may Q m s)
    (hf : ∀ a s', Does context may Q' (f a) s') : Does context may Q' (m >>= f) s :=
  hm.bind fun a s' _ _ _ => hf a s'

/-- A weaker property will do. -/
theorem weaken {Q₂ : Registry → α → Prop} {m : Run α} (hm : Does context may Q m s)
    (h : ∀ r a, Q r a → Q₂ r a) : Does context may Q₂ m s :=
  { hm with gives := fun a ha => h _ a (hm.gives a ha) }

/-- More may be done. -/
theorem mono {m : Run α} (hm : Does context may Q m s) (hwithin : may.Within may') :
    Does context may' Q m s where
  progress := hm.progress.mono hwithin
  gives := hm.gives
  fails failure hfailure := (hm.fails failure hfailure).within hwithin

/-- What is given is put into a result of another kind. -/
theorem give {m : Run α} {f : α → β} (hm : Does context may Q m s)
    (h : ∀ r a, Q r a → Q' r (f a)) : Does context may Q' (do return f (← m)) s :=
  hm.bind fun a s' _ _ ha => pure (h s'.registry a ha)

/-- A calculation gives what it is known to give. -/
theorem ofExcept {P : α → Prop} {result : Except Failure α} (h : Gives P result) :
    Does context may (fun _ => P) (Run.ofExcept result) s where
  progress := .refl s
  gives := by
    rintro a rfl
    exact h
  fails := by
    rintro failure rfl
    exact Failure.IsDefect.arises h ..

/-- An event that comes about is written into the journal. -/
theorem record {event : Event} (h : event.Arises may s.inFlight s.registry) :
    Does context may (fun _ _ => True) (Run.record event) s where
  progress := .record s h
  gives _ _ := trivial
  fails := nofun

/-- Looking at the state is no step. -/
theorem get {f : RunState → Run α} (h : Does context may Q (f s) s) :
    Does context may Q (MonadState.get >>= f) s := h.congr rfl

/-- A path is looked up in a document that may be asked for. -/
theorem lookup {point : String} (h : may.Opens s.registry point) (segments : List String) :
    Does context may (fun _ value => context.graph.lookup point segments = .ok value)
      (Run.lookup context point segments) s where
  progress := .record s h
  gives _ hvalue := hvalue
  fails failure hfailure := by
    have hlookup : context.graph.lookup point segments = .error failure := hfailure
    have hfinds := context.graph.finds_lookup point segments
    rw [hlookup] at hfinds
    constructor
    · rintro rfl
      exact hfinds.elim
    · exact fun _ _ _ => ⟨point, segments, List.mem_cons_self .., hlookup⟩
    · rintro _ _ rfl
      exact hfinds.elim

/-- A document that may be asked for is what is found at no segments in it. -/
theorem document {point : String} (h : may.Opens s.registry point) :
    Does context may (fun _ value => context.graph.lookup point [] = .ok value)
      (Run.document context point) s := by
  rw [document_eq_lookup]
  exact lookup h []

/-- The name of what a reference leads to is asked for. -/
theorem ensure {request : NameRequest} (h : request.Arises context.graph may s.journal) :
    Does context may (fun _ _ => True) (Run.ensure request) s where
  progress := .ensure s h
  gives _ _ := trivial
  fails := nofun

/-- A declaration of an entry is finished. -/
theorem finish (hmay : may.finishes) {entry : Entry} (hentry : entry ∈ s.registry.entries)
    {d : Declaration} (h : context.Defines s.registry entry d) :
    Does context may (fun _ _ => True)
      (modify fun s => { s with finished := d :: s.finished } : Run PUnit) s where
  progress := .finish s hmay hentry h
  gives _ _ := trivial
  fails := nofun

/-- An error in the schemas is reported after the step. -/
theorem reporting {m : Run α} (hm : Does context may Q m s) (entryPoint : String) (about : Json) :
    Does context may Q (Run.reporting entryPoint about m) s := by
  have hreporting := run_reporting entryPoint about m s
  split at hreporting
  · rename_i error after hrun
    have hafter : s.Progress context may after := hm.progress_of_run hrun
    have harises : Failure.Arises context.graph may s.inFlight after.journal (.schema error) := by
      have hfails := hm.fails (.schema error)
      rw [hrun] at hfails
      exact hfails rfl
    constructor
    · rw [hreporting]
      exact hafter.trans (.record after trivial)
    · rw [hreporting]
      nofun
    · rw [hreporting]
      rintro _ ⟨⟩
      exact harises.mono (List.subset_cons_self ..)
  · exact hm.congr hreporting

/-- A location that references lead to is expanded unless it is in flight. -/
theorem expanding {m : Run α} {location : String} (hleads : may.reads.LeadsTo location)
    (hm : location ∉ s.inFlight → Does context may Q m (s.entering location)) :
    Does context may Q (Run.expanding location m) s := by
  have hrun := run_expanding location m s
  split at hrun
  · rename_i hmem
    constructor
    · rw [hrun]
      exact .refl s
    · rw [hrun]
      nofun
    · rw [hrun]
      rintro _ ⟨⟩
      refine ⟨nofun, nofun, ?_⟩
      rintro _ _ ⟨⟩
      exact ⟨hmem, [], (List.append_nil _).symm, .nil s.inFlight⟩
  · rename_i hnew
    have hinside := hm hnew
    constructor
    · rw [hrun]
      exact .expanding hnew hleads hinside.progress
    · rw [hrun]
      exact hinside.gives
    · rw [hrun]
      exact fun failure hfailure => (hinside.fails failure hfailure).leave hnew hleads

end Does

end Run

end ApiTypes
