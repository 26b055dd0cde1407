import ApiTypes.Proofs.Registry
import ApiTypes.Reference.Resolve

/-!
# Scripts of runs

A script says what a step of a run does apart from the identifiers that it is
given: its events in order and its result. Playing the events on a state gives
the state after the step, whatever was registered before. A step realizes a
script when it ends in that state, with a result that corresponds to the result
of the script.
-/

namespace ApiTypes

namespace Run

variable {α β : Type}

/-- Giving something leaves the state. -/
@[simp] theorem run_pure (a : α) (s : RunState) : (pure a : Run α).run s = (.ok a, s) := rfl

/-- A step after another one starts where that one ended, unless it failed. -/
theorem run_bind (m : Run α) (f : α → Run β) (s : RunState) :
    (m >>= f).run s = match m.run s with
      | (.ok a, after) => (f a).run after
      | (.error failure, after) => (.error failure, after) := by
  change (m.run >>= ExceptT.bindCont f) s = _
  simp only [bind, StateT.bind]
  rcases m.run s with ⟨_ | _, after⟩ <;> rfl

/-- After a success the next step goes on. -/
theorem run_bind_of_ok {m : Run α} {s after : RunState} {a : α} (h : m.run s = (.ok a, after))
    (f : α → Run β) : (m >>= f).run s = (f a).run after := by
  simp only [run_bind, h]

/-- After a failure nothing does. -/
theorem run_bind_of_error {m : Run α} {s after : RunState} {failure : Failure}
    (h : m.run s = (.error failure, after)) (f : α → Run β) :
    (m >>= f).run s = (.error failure, after) := by
  simp only [run_bind, h]

/-- Looking at the state is no step. -/
theorem run_get_bind (f : RunState → Run α) (s : RunState) :
    (MonadState.get >>= f).run s = (f s).run s := rfl

/-- Steps that succeed together succeed one after another. -/
theorem exists_of_run_bind_ok {m : Run α} {f : α → Run β} {s last : RunState} {b : β}
    (h : (m >>= f).run s = (.ok b, last)) :
    ∃ a after, m.run s = (.ok a, after) ∧ (f a).run after = (.ok b, last) := by
  rcases hm : m.run s with ⟨failure | a, after⟩
  · rw [run_bind_of_error hm] at h
    cases h
  · rw [run_bind_of_ok hm] at h
    exact ⟨a, after, rfl, h⟩

/-- A failure is handled in the state in which the step stopped. -/
theorem run_tryCatch (m : Run α) (handle : Failure → Run α) (s : RunState) :
    (tryCatch m handle).run s = match m.run s with
      | (.error failure, after) => (handle failure).run after
      | last => last := by
  rw [ExceptT.run_tryCatch]
  simp only [bind, StateT.bind]
  rcases m.run s with ⟨_ | _, after⟩ <;> rfl

/-- An error in the schemas is reported after the step that it stops. -/
theorem run_reporting (entryPoint : String) (about : Json) (m : Run α) (s : RunState) :
    (reporting entryPoint about m).run s = match m.run s with
      | (.error (.schema error), after) => (.error (.schema error), { after with
          journal := .reported ⟨.error, entryPoint ++ ": " ++ error.message, about⟩ ::
            after.journal })
      | last => last := by
  rw [reporting, run_tryCatch]
  rcases m.run s with ⟨(_ | _ | _ | _) | _, after⟩ <;> rfl

/-- Two continuations that agree on what a step can return make the same steps. -/
theorem bind_congr_of_ok {m : Run α} {f g : α → Run β}
    (h : ∀ s a after, m.run s = (.ok a, after) → f a = g a) : m >>= f = m >>= g := by
  refine ExceptT.ext (funext fun s => ?_)
  rcases hm : m.run s with ⟨failure | a, after⟩
  · exact (run_bind_of_error hm f).trans (run_bind_of_error hm g).symm
  · have hf := run_bind_of_ok hm f
    rw [h s a after hm] at hf
    exact hf.trans (run_bind_of_ok hm g).symm

/-- A step for every element gives a result for every element. -/
theorem length_of_mapM_ok {f : α → Run β} {xs : List α} {s after : RunState} {ys : List β}
    (h : (xs.mapM f).run s = (.ok ys, after)) : ys.length = xs.length := by
  induction xs generalizing s after ys with
  | nil =>
    rw [List.mapM_nil, run_pure] at h
    cases h
    rfl
  | cons x rest ih =>
    rw [List.mapM_cons] at h
    obtain ⟨y, middle, _, hmore⟩ := exists_of_run_bind_ok h
    obtain ⟨more, last, hrest, hpure⟩ := exists_of_run_bind_ok hmore
    cases hpure
    rw [List.length_cons, List.length_cons, ih hrest]

end Run

/-- What a step of a run does, apart from the identifiers it is given. -/
structure Script (α : Type) where
  /-- What happens, in order. -/
  events : List Event
  /-- How it ends. -/
  result : Except Failure α

namespace Script

variable {α β : Type}

/-- The script that makes no step. -/
protected def pure (a : α) : Script α := ⟨[], .ok a⟩

/-- One script after another, unless the first one fails. -/
protected def bind (script : Script α) (next : α → Script β) : Script β :=
  match script.result with
  | .ok a => ⟨script.events ++ (next a).events, (next a).result⟩
  | .error failure => ⟨script.events, .error failure⟩

instance : Monad Script where
  pure := Script.pure
  bind := Script.bind

instance : LawfulMonad Script := LawfulMonad.mk' Script
  (by
    rintro α ⟨events, _ | _⟩ <;> simp [Functor.map, Script.bind, Script.pure])
  (by
    intro α β a f
    simp [bind, pure, Script.bind, Script.pure])
  (by
    rintro α β γ ⟨events, _ | a⟩ f g
    · rfl
    · simp only [bind, Script.bind]
      cases (f a).result <;> simp)

/-- A script that succeeds goes on with what it gives. -/
theorem bind_of_ok {script : Script α} {a : α} (h : script.result = .ok a) (next : α → Script β) :
    script >>= next = ⟨script.events ++ (next a).events, (next a).result⟩ := by
  obtain ⟨events, result⟩ := script
  cases h
  rfl

/-- A script that fails does not go on. -/
theorem bind_of_error {script : Script α} {failure : Failure} (h : script.result = .error failure)
    (next : α → Script β) :
    script >>= next = ⟨script.events, .error failure⟩ := by
  obtain ⟨events, result⟩ := script
  cases h
  rfl

/-- Scripts that succeed together succeed one after another. -/
theorem exists_of_bind_ok {script : Script α} {next : α → Script β} {b : β}
    (h : (script >>= next).result = .ok b) :
    ∃ a, script.result = .ok a ∧ (next a).result = .ok b ∧
      (script >>= next).events = script.events ++ (next a).events := by
  obtain ⟨events, result⟩ := script
  cases result with
  | error failure => cases h
  | ok a => exact ⟨a, rfl, h, rfl⟩

/-- The script of a calculation without events. -/
def ofExcept (result : Except Failure α) : Script α := ⟨[], result⟩

/-- The script of one event. -/
def record (event : Event) : Script Unit := ⟨[event], .ok ()⟩

/-- A script after an event. -/
theorem record_bind (event : Event) (next : Unit → Script α) :
    record event >>= next = ⟨event :: (next ()).events, (next ()).result⟩ := rfl

/-- The script of looking at the document at a point. -/
def document (context : Context) (point : String) : Script Json := do
  record (.opened point)
  ofExcept ((context.graph.document point).mapError .schema)

/-- A script with a report of the error in the schemas that it ends with. -/
def reporting (entryPoint : String) (about : Json) (script : Script α) : Script α :=
  match script.result with
  | .error (.schema error) =>
    ⟨script.events ++ [.reported ⟨.error, entryPoint ++ ": " ++ error.message, about⟩],
      script.result⟩
  | _ => script

/-- The script of looking up a path in a document. -/
def lookup (context : Context) (point : String) (segments : List String) : Script Json := do
  record (.opened point)
  ofExcept (context.graph.lookup point segments)

end Script

/-- The name that an event asks for. -/
def Event.request? : Event → Option NameRequest
  | .named request => some request
  | _ => none

/-- The names that events ask for, in order. -/
def Event.requests (events : List Event) : List NameRequest := events.filterMap Event.request?

/-- The requests of events one after another. -/
@[simp] theorem Event.requests_append (first second : List Event) :
    Event.requests (first ++ second) = Event.requests first ++ Event.requests second :=
  List.filterMap_append

namespace RunState

/-- The state after events: names are registered as they were asked for. -/
def after (s : RunState) (events : List Event) : RunState :=
  { s with
    registry := s.registry.ensureAll (Event.requests events)
    journal := events.reverse ++ s.journal }

/-- Only requests change the registry. -/
@[simp] theorem registry_after (s : RunState) (events : List Event) :
    (s.after events).registry = s.registry.ensureAll (Event.requests events) := rfl

/-- Events are carried out one after another. -/
theorem after_append (s : RunState) (first second : List Event) :
    s.after (first ++ second) = (s.after first).after second := by
  simp [after, Registry.ensureAll]

end RunState

/-- A result of a script and one of a step: two values that correspond, or the
same failure. -/
inductive Corresponds {α β : Type} (V : β → α → Prop) : Except Failure β → Except Failure α → Prop
  /-- Both succeed. -/
  | ok {b : β} {a : α} (h : V b a) : Corresponds V (.ok b) (.ok a)
  /-- Both fail. -/
  | error (failure : Failure) : Corresponds V (.error failure) (.error failure)

/-- A step that starts in a state ends in the state after the events of a
script, with a result that corresponds to that of the script. Values correspond
relative to the registry in the end. -/
def Realizes {α β : Type} (V : Registry → β → α → Prop) (m : Run α) (s : RunState)
    (script : Script β) : Prop :=
  ∃ result, m.run s = (result, s.after script.events) ∧
    Corresponds (V (s.after script.events).registry) script.result result

namespace Realizes

variable {α β γ δ : Type} {V : Registry → β → α → Prop} {W : Registry → δ → γ → Prop}
  {s : RunState}

/-- The state in the end is that after the events of the script. -/
theorem state_eq {m : Run α} {script : Script β} (h : Realizes V m s script) :
    (m.run s).2 = s.after script.events := by
  obtain ⟨result, hrun, _⟩ := h
  rw [hrun]

/-- Giving something is carried out without an event. -/
theorem pure {b : β} {a : α} (h : V s.registry b a) :
    Realizes V (Pure.pure a : Run α) s (Pure.pure b) :=
  ⟨.ok a, rfl, .ok h⟩

/-- Realized steps one after another realize the scripts one after another. -/
theorem bind {m : Run α} {script : Script β} {f : α → Run γ} {g : β → Script δ}
    (hm : Realizes V m s script)
    (hf : ∀ b a, V (s.after script.events).registry b a →
      Realizes W (f a) (s.after script.events) (g b)) :
    Realizes W (m >>= f) s (script >>= g) := by
  obtain ⟨events, scripted⟩ := script
  obtain ⟨result, hrun, hresult⟩ := hm
  cases hresult with
  | @ok b a h =>
    obtain ⟨last, hlast, hcorresponds⟩ := hf b a h
    have heq : (⟨events, .ok b⟩ : Script β) >>= g =
        ⟨events ++ (g b).events, (g b).result⟩ := rfl
    refine ⟨last, ?_, ?_⟩
    · rw [Run.run_bind_of_ok hrun, hlast, heq, RunState.after_append]
    · rw [heq, RunState.after_append]
      exact hcorresponds
  | error failure => exact ⟨.error failure, Run.run_bind_of_error hrun f, .error failure⟩

/-- A calculation is carried out without an event. -/
theorem ofExcept (result : Except Failure β) :
    Realizes (fun _ b a => b = a) (Run.ofExcept result) s (Script.ofExcept result) := by
  refine ⟨result, rfl, ?_⟩
  cases result with
  | ok b => exact .ok rfl
  | error failure => exact .error failure

/-- A failure is carried out without an event. -/
theorem fail (failure : Failure) :
    Realizes V (throw failure) s (Script.ofExcept (.error failure)) :=
  ⟨.error failure, rfl, .error failure⟩

/-- An event that asks for no name is only written down. -/
theorem record {event : Event} (h : ∀ request, event ≠ .named request) :
    Realizes (fun _ _ _ => True) (Run.record event) s (Script.record event) := by
  refine ⟨.ok (), ?_, .ok trivial⟩
  cases event with
  | named request => exact absurd rfl (h request)
  | _ => rfl

/-- The identifier that a request is given is registered in the end. -/
theorem ensure (request : NameRequest) :
    Realizes (fun r _ identifier => r.nameFor? request.canonicalPath = some identifier)
      (Run.ensure request) s (Script.record (.named request)) :=
  ⟨.ok (s.registry.ensure request).1, rfl, .ok (Registry.nameFor?_ensure s.registry request)⟩

/-- Asking for a document gives the document of the graph. -/
theorem document (context : Context) (point : String) :
    Realizes (fun _ b a => b = a) (Run.document context point) s
      (Script.document context point) :=
  bind (record (by simp)) fun _ _ _ => ofExcept _

/-- Looking something up gives what is in the graph. -/
theorem lookup (context : Context) (point : String) (segments : List String) :
    Realizes (fun _ b a => b = a) (Run.lookup context point segments) s
      (Script.lookup context point segments) :=
  bind (record (by simp)) fun _ _ _ => ofExcept _

/-- A report is made after the step. -/
theorem reporting {m : Run α} {script : Script β} (hm : Realizes V m s script)
    (entryPoint : String) (about : Json) :
    Realizes V (Run.reporting entryPoint about m) s (script.reporting entryPoint about) := by
  obtain ⟨events, scripted⟩ := script
  obtain ⟨result, hrun, hresult⟩ := hm
  have hreporting := Run.run_reporting entryPoint about m s
  rw [hrun] at hreporting
  cases hresult with
  | ok h => exact ⟨_, hreporting, .ok h⟩
  | error failure =>
    cases failure with
    | schema error =>
      refine ⟨.error (.schema error), ?_, .error _⟩
      rw [hreporting]
      simp [RunState.after, Script.reporting, Event.requests, List.filterMap_cons, Event.request?]
    | _ => exact ⟨_, hreporting, .error _⟩

/-- Looking at the state is no step. -/
theorem get {f : RunState → Run α} {script : Script β} (h : Realizes V (f s) s script) :
    Realizes V (MonadState.get >>= f) s script := h

end Realizes

end ApiTypes
