import ApiTypes.Proofs.Run.Declarations

/-!
# Fatal errors are reported once

Errors travel through nested conversions and through the loop over the registered schemas, and
there are two places where they are reported: where a registered schema is looked up, and where
a schema is converted. What happens below these places reports warnings only, and what comes
above them reports nothing more when it fails.
-/

namespace ApiTypes

/-- The diagnostic that an event reports. -/
def Event.diagnostic? : Event → Option Diagnostic
  | .reported diagnostic => some diagnostic
  | _ => none

/-- The diagnostics that events report, in order. -/
def Event.diagnostics (events : List Event) : List Diagnostic := events.filterMap Event.diagnostic?

/-- The diagnostics of events one after another. -/
@[simp] theorem Event.diagnostics_append (first second : List Event) :
    Event.diagnostics (first ++ second) = Event.diagnostics first ++ Event.diagnostics second :=
  List.filterMap_append

/-- The diagnostics of a state are those in its journal. -/
theorem RunState.diagnostics_eq (s : RunState) :
    s.diagnostics = Event.diagnostics s.journal.reverse := rfl

/-- Events add what they report to the diagnostics. -/
theorem RunState.diagnostics_after (s : RunState) (events : List Event) :
    (s.after events).diagnostics = s.diagnostics ++ Event.diagnostics events := by
  simp [diagnostics_eq, after]

/-- A script reports warnings only. -/
def Script.Warns {α : Type} (script : Script α) : Prop :=
  ∀ d ∈ Event.diagnostics script.events, d.severity = .warning

namespace Script.Warns

open Conversion

variable {α β : Type} {context : Context}

/-- Giving something reports nothing. -/
theorem pure (a : α) : (Pure.pure a : Script α).Warns := nofun

/-- A calculation reports nothing. -/
theorem ofExcept (result : Except Failure α) : (Script.ofExcept result).Warns := nofun

/-- An event that reports nothing may be recorded. -/
theorem record {event : Event} (h : event.diagnostic? = none) : (Script.record event).Warns := by
  intro d hd
  rw [Script.record, Event.diagnostics, List.filterMap_cons_none h] at hd
  cases hd

/-- Scripts one after another only warn. -/
theorem bind {script : Script α} {next : α → Script β} (h : script.Warns)
    (hnext : ∀ a, (next a).Warns) : (script >>= next).Warns := by
  obtain ⟨events, result⟩ := script
  cases result with
  | error failure => exact h
  | ok a =>
    intro d hd
    rw [Script.bind_of_ok rfl, Event.diagnostics_append] at hd
    exact (List.mem_append.mp hd).elim (h d) (hnext a d)

/-- Asking for a document reports nothing. -/
theorem document (point : String) : (Script.document context point).Warns :=
  (record rfl).bind fun _ => ofExcept _

/-- Looking something up reports nothing. -/
theorem lookup (point : String) (segments : List String) :
    (Script.lookup context point segments).Warns :=
  (record rfl).bind fun _ => ofExcept _

/-- Finding the place of a reference reports nothing. -/
theorem placeScript (reference : Reference) : (context.placeScript reference).Warns := by
  refine (ofExcept _).bind fun componentDepth => ?_
  split
  · exact (lookup _ _).bind fun _ => (record rfl).bind fun _ => pure _
  · exact pure _

/-- Resolving a reference reports nothing. -/
theorem destination (point : String) (ref : Json) : (context.destination point ref).Warns := by
  have hreference : (context.referenceScript point ref).Warns := by
    cases ref with
    | str written => exact (record rfl).bind fun _ => ofExcept _
    | _ => exact ofExcept _
  refine hreference.bind fun reference => ?_
  split
  · exact (document _).bind fun _ => (record rfl).bind fun _ => pure _
  · exact placeScript reference

/-- The guard reports nothing by itself. -/
theorem watching {step : Watch → Script α} (h : ∀ watch, (step watch).Warns) (watch : Watch)
    (canonicalPath : String) : (Conversion.watching watch canonicalPath step).Warns := by
  unfold Conversion.watching
  split
  · exact h none
  · split
    · exact ofExcept _
    · exact (record rfl).bind fun _ => h _

/-- Following a reference warns only where an expansion does. -/
theorem follow {expand : ExpandScript}
    (h : ∀ watch point parent path schema, (expand watch point parent path schema).Warns)
    (watch : Watch) (point : String) (raw : Members) (ref : Json) :
    (followScript context expand watch point raw ref).Warns := by
  refine (destination point ref).bind fun destination => ?_
  split
  · exact pure _
  · exact watching (fun watch => (lookup _ _).bind fun _ => h watch _ _ _ _) watch _

/-- Of the tasks of a plan, only that of a schema of no known type reports something. -/
theorem plan {plan : Plan context TypeExpr} {follow : Members → Json → Script TypeExpr}
    (h : ∀ raw ref, (follow raw ref).Warns) : (plan.script follow).Warns := by
  have htask (task : Task) : (task.script follow).Warns := by
    cases task with
    | warn parent =>
      intro d hd
      obtain rfl := List.mem_singleton.mp hd
      rfl
    | fail failure hdefect => exact ofExcept _
    | follow raw ref => exact h raw ref
  have htasks (tasks : List Task) : (tasks.mapM (Task.script follow)).Warns := by
    induction tasks with
    | nil => exact pure _
    | cons task rest ih =>
      rw [List.mapM_cons]
      exact (htask task).bind fun _ => ih.bind fun _ => pure _
  exact (htasks plan.tasks).bind fun _ => pure _

/-- A conversion reports warnings only, however deep references are nested in it. -/
theorem script (allowance : Nat) (watch : Watch) (point : String) (parent : Json) (path : String)
    (schema : Json) :
    (Conversion.script context allowance watch point parent path schema).Warns := by
  induction allowance generalizing watch point parent path schema with
  | zero => exact ofExcept _
  | succ allowance ih =>
    exact (ofExcept _).bind fun node => plan fun raw ref => follow ih watch point raw ref

end Script.Warns

namespace Run

variable {α β : Type} {context : Context} {entryPoint : String}

/-- The report about the end of a step: one error after an error in the schemas, which is
written after the point of the entry document, and nothing otherwise. -/
def finalReport (entryPoint : String) (about : Json) : Except Failure α → List Diagnostic
  | .error (.schema error) => [⟨.error, entryPoint ++ ": " ++ error.message, about⟩]
  | _ => []

/-- How a step ends that started in a state: the diagnostics from before are followed by
warnings, and these by the report about the end. -/
def EndsReported (entryPoint : String) (s : RunState) (last : Except Failure α × RunState) :
    Prop :=
  ∃ warnings about, (∀ d ∈ warnings, d.severity = .warning) ∧
    last.2.diagnostics = s.diagnostics ++ warnings ++ finalReport entryPoint about last.1

/-- From every state a step ends with the report about its end. -/
def Reports (entryPoint : String) (m : Run α) : Prop := ∀ s, EndsReported entryPoint s (m.run s)

namespace Reports

/-- A step that neither reports something nor finds an error in the schemas. -/
theorem of_silent {m : Run α} (h : ∀ s, (m.run s).2.diagnostics = s.diagnostics ∧
    ∀ error, (m.run s).1 ≠ .error (.schema error)) : Reports entryPoint m := by
  intro s
  obtain ⟨hdiagnostics, hne⟩ := h s
  refine ⟨[], .null, nofun, ?_⟩
  have hnothing : finalReport entryPoint .null (m.run s).1 = [] := by
    unfold finalReport
    split
    · rename_i error heq
      exact absurd heq (hne error)
    · rfl
  rw [hdiagnostics, hnothing, List.append_nil, List.append_nil]

/-- Giving something reports nothing and does not fail. -/
theorem pure (a : α) : Reports entryPoint (Pure.pure a : Run α) :=
  of_silent fun _ => ⟨rfl, nofun⟩

/-- What is no diagnostic is no report. -/
theorem record {event : Event} (h : event.diagnostic? = none) :
    Reports entryPoint (Run.record event) := by
  refine of_silent fun s => ⟨?_, nofun⟩
  have hrun : ((Run.record event).run s).2 = { s with journal := event :: s.journal } := rfl
  rw [hrun, RunState.diagnostics_eq, RunState.diagnostics_eq, List.reverse_cons,
    Event.diagnostics_append, Event.diagnostics, Event.diagnostics, List.filterMap_cons_none h]
  exact List.append_nil _

/-- Looking at the state is no report. -/
theorem get {f : RunState → Run α} (h : ∀ s, Reports entryPoint (f s)) :
    Reports entryPoint (MonadState.get >>= f) :=
  fun s => h s s

/-- A failure that was reported ends what would follow, which then reports nothing. -/
theorem bind {m : Run α} {f : α → Run β} (hm : Reports entryPoint m)
    (hf : ∀ a, Reports entryPoint (f a)) : Reports entryPoint (m >>= f) := by
  intro s
  obtain ⟨warnings, about, hwarnings, hdiagnostics⟩ := hm s
  rcases hrun : m.run s with ⟨failure | a, after⟩
  · rw [hrun] at hdiagnostics
    rw [run_bind_of_error hrun]
    exact ⟨warnings, about, hwarnings, by rw [hdiagnostics]; cases failure <;> rfl⟩
  · obtain ⟨more, about', hmore, hlast⟩ := hf a after
    rw [hrun] at hdiagnostics
    rw [run_bind_of_ok hrun]
    have hnothing : finalReport entryPoint about (.ok a : Except Failure α) = [] := rfl
    refine ⟨warnings ++ more, about', List.forall_mem_append.mpr ⟨hwarnings, hmore⟩, ?_⟩
    rw [hlast, hdiagnostics, hnothing, List.append_nil, List.append_assoc s.diagnostics]

/-- A step whose script has warnings only reports once, under a report of its errors. -/
theorem reporting {V : Registry → β → α → Prop} {m : Run α} {script : RunState → Script β}
    (hm : ∀ s, Realizes V m s (script s)) (hwarns : ∀ s, (script s).Warns) (about : Json) :
    Reports entryPoint (Run.reporting entryPoint about m) := by
  intro s
  refine ⟨Event.diagnostics (script s).events, about, hwarns s, ?_⟩
  rw [← RunState.diagnostics_after, ← (hm s).state_eq, run_reporting]
  rcases m.run s with ⟨(error | _ | _ | _) | _, after⟩
  · rw [finalReport, RunState.diagnostics_eq, RunState.diagnostics_eq, List.reverse_cons,
      Event.diagnostics_append]
    rfl
  all_goals exact (List.append_nil _).symm

/-- A conversion reports the error that stops it. -/
theorem convert (entryPoint point : String) (schema : Json) (path : String) :
    Reports entryPoint (context.convert entryPoint point schema path) :=
  reporting (fun s => Realizes.convertSchema context s point schema path .null)
    (fun _ => .script _ _ _ _ _ _) schema

/-- The declaration of an entry reports the error that stops it. -/
theorem declare (entry : Entry) : Reports context.graph.entryPoint (context.declare entry) := by
  have hwarns : (context.registeredScript entry).Warns := by
    unfold Context.registeredScript
    split
    · exact .document _
    · exact .lookup _ _
  have hschema : Reports context.graph.entryPoint
      (Run.reporting context.graph.entryPoint .null (context.registeredSchema entry)) :=
    reporting (fun _ => Context.realizes_registeredSchema entry) (fun _ => hwarns) .null
  exact hschema.bind fun schema => (convert _ _ _ _).bind fun _ => pure _

/-- The loop over the registered schemas ends with the first declaration that fails. -/
theorem declareFrom (allowance position : Nat) :
    Reports context.graph.entryPoint (context.declareFrom allowance position) := by
  induction allowance generalizing position with
  | zero => exact of_silent fun _ => ⟨rfl, nofun⟩
  | succ allowance ih =>
    unfold Context.declareFrom
    refine get fun s => ?_
    split
    · exact pure _
    · dsimp only
      split
      · refine (declare _).bind fun d => ?_
        have hfinish : Reports context.graph.entryPoint
            (modify fun s => { s with finished := d :: s.finished } : Run PUnit) :=
          of_silent fun _ => ⟨rfl, nofun⟩
        exact hfinish.bind fun _ => ih _
      · exact ih _

/-- The generation of all declarations reports the error that stops it. -/
theorem declarations : Reports context.graph.entryPoint context.declarations := by
  refine get fun s => (declareFrom _ 0).bind fun _ => get fun s' => ?_
  exact (record rfl).bind fun _ => pure _

end Reports

end Run

end ApiTypes
