import ApiTypes.Proofs.Run.Declarations
import ApiTypes.Proofs.Run.Steps
import ApiTypes.Proofs.Run.Termination

/-!
# Declarations can be generated again

The loop over the registered schemas passes over what is finished. So a second
call goes on where the first one stopped: after a success there is nothing left to
do, and after a failure the same entry is met first, whose declaration fails in the
same way although more is registered by then.
-/

namespace ApiTypes

namespace RunState

/-- The first entries, so many of them, have their declarations. -/
def FinishedBefore (s : RunState) (position : Nat) : Prop :=
  ∀ i entry, i < position → s.registry.entries[i]? = some entry →
    (s.finished? entry.canonicalPath).isSome

/-- No entry comes before the first one. -/
theorem finishedBefore_zero (s : RunState) : s.FinishedBefore 0 :=
  fun i _ hi => absurd hi (Nat.not_lt_zero i)

/-- One more entry has its declaration. -/
theorem FinishedBefore.succ {s : RunState} {position : Nat} (h : s.FinishedBefore position)
    {entry : Entry} (hentry : s.registry.entries[position]? = some entry)
    (hfinished : (s.finished? entry.canonicalPath).isSome) : s.FinishedBefore (position + 1) := by
  intro i other hi hother
  by_cases heq : i = position
  · subst heq
    rw [hentry] at hother
    cases hother
    exact hfinished
  · exact h i other (by omega) hother

namespace Later

variable {context : Context} {s s' : RunState}

/-- Entries stay at their positions. -/
theorem getElem?_entries (h : s.Later context s') {i : Nat} {entry : Entry}
    (hentry : s.registry.entries[i]? = some entry) : s'.registry.entries[i]? = some entry := by
  obtain ⟨added, hadded⟩ := h.before.entries_isPrefix
  have hlt := (List.getElem?_eq_some_iff.mp hentry).1
  rw [← hadded, List.getElem?_append_left hlt, hentry]

/-- What is finished of the first entries stays finished. -/
theorem finishedBefore (h : s.Later context s') {position : Nat}
    (hposition : position ≤ s.registry.entries.length) (hs : s.FinishedBefore position) :
    s'.FinishedBefore position := by
  intro i entry hi hentry
  have hlt : i < s.registry.entries.length := by omega
  have hsome : s.registry.entries[i]? = some s.registry.entries[i] := List.getElem?_eq_getElem hlt
  rw [h.getElem?_entries hsome] at hentry
  cases hentry
  obtain ⟨d, hd⟩ := Option.isSome_iff_exists.mp (hs i _ hi hsome)
  rw [h.finished _ d hd]
  rfl

end Later

end RunState

/-- A step that failed fails again when it realizes the same script once more, and
then asks for no new name and finishes no declaration. -/
theorem Realizes.fails_again {α β : Type} {V : Registry → β → α → Prop} {m : Run α}
    {script : Script β} {s s' : RunState} {failure : Failure} (h : Realizes V m s script)
    (hrun : m.run s = (.error failure, s')) (h' : Realizes V m s' script) :
    ∃ s'', m.run s' = (.error failure, s'') ∧ s''.registry = s'.registry ∧
      s''.finished = s'.finished := by
  obtain ⟨result, hrealized, hresult⟩ := h
  obtain ⟨result', hrealized', hresult'⟩ := h'
  obtain ⟨rfl, rfl⟩ : result = .error failure ∧ s.after script.events = s' := by
    rw [hrun] at hrealized
    cases hrealized
    exact ⟨rfl, rfl⟩
  generalize script.result = scripted at hresult hresult'
  cases hresult
  cases hresult'
  refine ⟨_, hrealized', Registry.ensureAll_of_mem fun request hrequest => ?_, rfl⟩
  -- The name was asked for the first time already.
  rw [RunState.registry_after, Registry.paths_ensureAll]
  exact Registry.mem_appendNew.mpr (Or.inr (List.mem_map_of_mem hrequest))

namespace Context

variable {context : Context} {s s' : RunState} {failure : Failure} {entry : Entry}

/-- The script of declaring an entry while paths are in flight. -/
def declareScript (context : Context) (inFlight : List String) (entry : Entry) :
    Script Unit := do
  let entryPoint := context.graph.entryPoint
  let schema ← (context.registeredScript entry).reporting entryPoint .null
  let _ ← (Conversion.script context (Conversion.maxNested context schema + 1) (some inFlight)
    entry.documentPoint .null (Pointer.locate "" entry.segments) schema).reporting entryPoint schema

/-- What declaring an entry does depends only on what is in flight. -/
theorem realizes_declare (context : Context) (s : RunState) (entry : Entry) :
    Realizes (fun _ _ _ => True) (context.declare entry) s
      (context.declareScript s.inFlight entry) := by
  refine .bind ((realizes_registeredSchema entry).reporting _ _) ?_
  rintro schema _ rfl
  refine .bind ((Realizes.convertSchema context _ _ _ _ _).reporting _ _) fun _ _ _ => ?_
  exact .pure trivial

/-- The loop passes over an entry that has its declaration. -/
theorem declareFrom_run_of_finished {position : Nat}
    (hentry : s.registry.entries[position]? = some entry)
    (hfinished : (s.finished? entry.canonicalPath).isSome) (allowance : Nat) :
    (context.declareFrom (allowance + 1) position).run s =
      (context.declareFrom allowance (position + 1)).run s := by
  obtain ⟨d, hd⟩ := Option.isSome_iff_exists.mp hfinished
  rw [declareFrom, Run.run_get_bind, hentry]
  simp only [hd, Option.isNone_some, Bool.false_eq_true, ↓reduceIte]

/-- The loop passes over the first entries when these have their declarations. -/
theorem declareFrom_run_of_finishedBefore {position : Nat}
    (hposition : position ≤ s.registry.entries.length) (hfinished : s.FinishedBefore position)
    (allowance : Nat) :
    (context.declareFrom (position + allowance) 0).run s =
      (context.declareFrom allowance position).run s := by
  induction position generalizing allowance with
  | zero => rw [Nat.zero_add]
  | succ position ih =>
    have hlt : position < s.registry.entries.length := hposition
    have hentry := List.getElem?_eq_getElem hlt
    have hbefore : s.FinishedBefore position := fun i entry hi => hfinished i entry (by omega)
    calc (context.declareFrom (position + 1 + allowance) 0).run s
      _ = (context.declareFrom (position + (allowance + 1)) 0).run s := by
        rw [Nat.add_right_comm, Nat.add_assoc]
      _ = (context.declareFrom (allowance + 1) position).run s := ih hlt.le hbefore _
      _ = (context.declareFrom allowance (position + 1)).run s :=
        declareFrom_run_of_finished hentry (hfinished _ _ (Nat.lt_succ_self _) hentry) _

/-- Where the loop ended that failed, and not for want of allowance: the entries
before some position have their declarations, and declaring the entry at that position
has failed. -/
theorem exists_of_declareFrom_error {allowance position : Nat} (hs : s.Sound context)
    (hposition : position ≤ s.registry.entries.length) (hfinished : s.FinishedBefore position)
    (h : (context.declareFrom allowance position).run s = (.error failure, s')) :
    failure = .exhausted ∨ ∃ i entry s₁, s.Later context s₁ ∧ s₁.FinishedBefore i ∧
      s₁.registry.entries[i]? = some entry ∧ s₁.finished? entry.canonicalPath = none ∧
      (context.declare entry).run s₁ = (.error failure, s') := by
  induction allowance generalizing s position with
  | zero =>
    cases h
    exact Or.inl rfl
  | succ allowance ih =>
    cases hentry : s.registry.entries[position]? with
    | none =>
      rw [declareFrom, Run.run_get_bind, hentry] at h
      cases h
    | some entry =>
      have hlt := (List.getElem?_eq_some_iff.mp hentry).1
      cases hd : s.finished? entry.canonicalPath with
      | some d =>
        have hsome : (s.finished? entry.canonicalPath).isSome := by rw [hd]; rfl
        rw [declareFrom_run_of_finished hentry hsome] at h
        exact ih hs hlt (hfinished.succ hentry hsome) h
      | none =>
        rw [declareFrom, Run.run_get_bind, hentry] at h
        simp only [hd, Option.isNone_none, ↓reduceIte] at h
        rcases hdeclare : (context.declare entry).run s with ⟨_ | d, declared⟩
        · rw [Run.run_bind_of_error hdeclare] at h
          cases h
          exact Or.inr ⟨position, entry, s, .refl hs, hfinished, hentry, hd, hdeclare⟩
        · rw [Run.run_bind_of_ok hdeclare] at h
          obtain ⟨hlater, hdone, _⟩ := declare_later hs (List.mem_of_getElem? hentry) hd hdeclare
          have hnow : RunState.FinishedBefore _ (position + 1) :=
            (hlater.finishedBefore hposition hfinished).succ (hlater.getElem?_entries hentry)
              (by rw [hdone]; rfl)
          have hlength := hlater.before.entries_isPrefix.length_le
          rcases ih hlater.sound (by omega) hnow h with hexhausted | ⟨i, last, s₁, hlater', hrest⟩
          · exact Or.inl hexhausted
          · exact Or.inr ⟨i, last, s₁, hlater.trans hlater', hrest⟩

/-- Generating declarations is the loop over the registered schemas, after which the
declarations of the entries are there. -/
theorem declarations_run (context : Context) (s : RunState) :
    context.declarations.run s =
      match (context.declareFrom (s.registry.entries.length +
        Conversion.maxNested context .null + 1) 0).run s with
      | (.ok _, last) => (.ok last.declarations,
          { last with journal := .generated last.finished.length :: last.journal })
      | (.error failure, last) => (.error failure, last) := by
  have hrun : context.declarations.run s =
      (do
        context.declareFrom (s.registry.entries.length + Conversion.maxNested context .null + 1) 0
        let last ← get
        Run.record (.generated last.finished.length)
        return last.declarations : Run (List Declaration)).run s := rfl
  rw [hrun, Run.run_bind]
  rcases (context.declareFrom (s.registry.entries.length +
    Conversion.maxNested context .null + 1) 0).run s with ⟨_ | _, last⟩ <;> rfl

end Context

/-- Two states of a run with the same names, the same finished declarations and the
same diagnostics. -/
structure RunState.Agrees (s s' : RunState) : Prop where
  /-- The same schemas are registered. -/
  registry_eq : s.registry = s'.registry
  /-- The same declarations are finished. -/
  finished_eq : s.finished = s'.finished
  /-- The same diagnostics were reported. -/
  diagnostics_eq : s.diagnostics = s'.diagnostics

namespace Context

variable {context : Context} {s s' : RunState} {failure : Failure}

/-- When all entries have their declarations, these are what is generated, and nothing
else happens. -/
theorem declarations_of_finished
    (hfinished : s.FinishedBefore s.registry.entries.length) :
    ∃ s', context.declarations.run s = (.ok s.declarations, s') ∧ s'.Agrees s := by
  have hloop : (context.declareFrom (s.registry.entries.length +
      Conversion.maxNested context .null + 1) 0).run s = (.ok (), s) := by
    rw [Nat.add_assoc, declareFrom_run_of_finishedBefore le_rfl hfinished, declareFrom,
      Run.run_get_bind, List.getElem?_eq_none (le_refl _)]
    rfl
  refine ⟨{ s with journal := .generated s.finished.length :: s.journal }, ?_, ?_⟩
  · rw [declarations_run, hloop]
  · refine ⟨rfl, rfl, ?_⟩
    simp [RunState.diagnostics]

/-- A second call after a success gives the same declarations. -/
theorem declarations_again {ds : List Declaration} (hs : s.Sound context)
    (h : context.declarations.run s = (.ok ds, s')) :
    ∃ s'', context.declarations.run s' = (.ok ds, s'') ∧ s''.Agrees s' := by
  obtain ⟨hdeclared, rfl⟩ := declared_of_declarations_ok hs h
  exact declarations_of_finished fun i entry _ => hdeclared.finished i entry (Nat.zero_le i)

/-- The declarations fail with the first one that is not finished. -/
theorem declarations_of_declare_error {i : Nat} {entry : Entry} (hfinished : s.FinishedBefore i)
    (hentry : s.registry.entries[i]? = some entry)
    (hnone : s.finished? entry.canonicalPath = none)
    (hdeclare : (context.declare entry).run s = (.error failure, s')) :
    context.declarations.run s = (.error failure, s') := by
  have hlt := (List.getElem?_eq_some_iff.mp hentry).1
  obtain ⟨allowance, hallowance⟩ : ∃ allowance, s.registry.entries.length +
      Conversion.maxNested context .null + 1 = i + (allowance + 1) :=
    ⟨s.registry.entries.length + Conversion.maxNested context .null - i, by omega⟩
  have hloop : (context.declareFrom (i + (allowance + 1)) 0).run s = (.error failure, s') := by
    rw [declareFrom_run_of_finishedBefore hlt.le hfinished, declareFrom, Run.run_get_bind, hentry]
    simp only [hnone, Option.isNone_none, ↓reduceIte]
    exact Run.run_bind_of_error hdeclare _
  rw [declarations_run, hallowance, hloop]

/-- A second call after a failure meets the same entry first, which fails in the same
way. -/
theorem declarations_fail_again (hs : s.Sound context)
    (h : context.declarations.run s = (.error failure, s')) :
    ∃ s'', context.declarations.run s' = (.error failure, s'') ∧
      s''.registry = s'.registry ∧ s''.finished = s'.finished := by
  have hne : failure ≠ .exhausted := by
    rintro rfl
    have hfails := (context.declarations_does s).fails .exhausted (congrArg Prod.fst h)
    exact hfails.exhausts rfl
  rw [declarations_run] at h
  split at h
  · cases h
  · rename_i other last hloop
    cases h
    obtain ⟨i, entry, s₁, hlater, hfinished, hentry, hnone, hdeclare⟩ :=
      (exists_of_declareFrom_error hs (Nat.zero_le _) s.finishedBefore_zero hloop).resolve_left hne
    have hrealizes := context.realizes_declare s₁ entry
    -- The declaration that failed has registered names and changed nothing else.
    obtain rfl : s₁.after (context.declareScript s₁.inFlight entry).events = s' := by
      rw [← hrealizes.state_eq, hdeclare]
    obtain ⟨hsound, hbefore⟩ := hlater.sound.after (context.declareScript s₁.inFlight entry).events
    have hkept : s₁.Later context (s₁.after (context.declareScript s₁.inFlight entry).events) :=
      ⟨hsound, hbefore, fun _ _ hd => hd⟩
    obtain ⟨s'', hagain, hsame⟩ :=
      hrealizes.fails_again hdeclare (context.realizes_declare _ entry)
    have hlt := (List.getElem?_eq_some_iff.mp hentry).1
    exact ⟨s'', declarations_of_declare_error (hkept.finishedBefore hlt.le hfinished)
      (hkept.getElem?_entries hentry) hnone hagain, hsame⟩

/-- The loop over the registered schemas, even if it fails, leaves the declarations
that were finished. -/
theorem declareFrom_finished? (allowance position : Nat) {path : String} {d : Declaration}
    (h : s.finished? path = some d) :
    ((context.declareFrom allowance position).run s).2.finished? path = some d := by
  induction allowance generalizing s position with
  | zero => exact h
  | succ allowance ih =>
    rw [declareFrom, Run.run_get_bind]
    cases hentry : s.registry.entries[position]? with
    | none => exact h
    | some entry =>
      cases hd : s.finished? entry.canonicalPath with
      | some other =>
        simp only [hd, Option.isNone_some, Bool.false_eq_true, ↓reduceIte]
        exact ih _ h
      | none =>
        simp only [hd, Option.isNone_none, ↓reduceIte]
        have hdoes : Run.Does context .readsAll _ (context.declare entry) s :=
          .declare (Permission.readsAll_suits context) (List.mem_of_getElem? hentry)
        rcases hdeclare : (context.declare entry).run s with ⟨_ | declared, s₁⟩
        · have hfinished := (hdoes.progress_of_run hdeclare).finished_eq id
          rw [Run.run_bind_of_error hdeclare, RunState.finished?, hfinished]
          exact h
        · have hfinished := (hdoes.progress_of_run hdeclare).finished_eq id
          rw [Run.run_bind_of_ok hdeclare]
          refine ih (position + 1) (s := { s₁ with finished := declared :: s₁.finished }) ?_
          rw [finished?_finish, (declare_defines hdeclare).canonicalPath_eq, RunState.finished?,
            hfinished]
          split
          · rename_i heq
            rw [heq, h] at hd
            cases hd
          · exact h

end Context

namespace RunState

variable {context : Context} {s s' : RunState}

/-- A call leads to a later state, whether it fails or not. -/
theorem Later.afterCall (hs : s.Sound context) (call : Call) :
    s.Later context (s.afterCall context call) where
  sound := (call.perform_sound hs).sound
  before := ⟨hs.registry, (call.perform_sound hs).sound.registry,
    (call.perform_sound hs).entries_isPrefix⟩
  finished path d hd := by
    have hkept (h : (s.afterCall context call).finished = s.finished) :
        (s.afterCall context call).finished? path = some d := by
      rw [finished?, h]
      exact hd
    by_cases hwhole : call.IsWhole
    · by_cases hdeclarations : call = .declarations
      · have hloop : ((context.declareFrom (s.registry.entries.length +
            Conversion.maxNested context .null + 1) 0).run s).2.finished? path = some d :=
          Context.declareFrom_finished? _ 0 hd
        have hend : (s.afterCall context call).finished =
            ((context.declareFrom (s.registry.entries.length +
              Conversion.maxNested context .null + 1) 0).run s).2.finished := by
          rw [hdeclarations, RunState.afterCall, Call.perform, Run.run_bind,
            Context.declarations_run]
          rcases (context.declareFrom (s.registry.entries.length +
            Conversion.maxNested context .null + 1) 0).run s with ⟨_ | _, last⟩ <;> rfl
        rw [finished?, hend]
        exact hloop
      · exact hkept ((Call.perform_does context hwhole s).progress.finished_eq hdeclarations)
    · exact hkept (Call.perform_of_not_isWhole context hwhole s).2.1

/-- Calls lead to later states. -/
theorem Later.of_leads {types : List TypeExpr} (hs : s.Sound context)
    (h : context.Leads s types s') : s.Later context s' := by
  induction h with
  | refl => exact .refl hs
  | call _ call ih => exact ih.trans (.afterCall ih.sound call)

/-- The declarations of all entries come first in those of a later state. -/
theorem Later.declarations_isPrefix (h : s.Later context s')
    (hfinished : s.FinishedBefore s.registry.entries.length) :
    s.declarations <+: s'.declarations := by
  obtain ⟨added, hadded⟩ := h.before.entries_isPrefix
  have hsame : s.registry.entries.filterMap (fun entry => s'.finished? entry.canonicalPath) =
      s.registry.entries.filterMap fun entry => s.finished? entry.canonicalPath := by
    apply List.filterMap_congr
    intro entry hentry
    obtain ⟨i, hi⟩ := List.getElem?_of_mem hentry
    have hlt := (List.getElem?_eq_some_iff.mp hi).1
    obtain ⟨d, hd⟩ := Option.isSome_iff_exists.mp (hfinished i entry hlt hi)
    rw [h.finished _ d hd, hd]
  rw [declarations, declarations, ← hadded, List.filterMap_append, hsame]
  exact List.prefix_append _ _

end RunState

/-- Generating declarations is stable and can be resumed. After it succeeded in a state
of a run, a second call gives the same declarations, registers nothing, finishes
nothing and reports nothing, and every call that succeeds later in the run, whatever
happens in between, gives declarations that begin with them. After it failed, a second
call fails in the same way, registers nothing and finishes nothing. -/
theorem declarations_stable {context : Context} {types : List TypeExpr} {s : RunState}
    (h : context.Reaches types s) :
    (∀ ds s', context.declarations.run s = (.ok ds, s') →
      (∃ s'', context.declarations.run s' = (.ok ds, s'') ∧ s''.Agrees s') ∧
      ∀ types' t ds' t', context.Leads s' types' t →
        context.declarations.run t = (.ok ds', t') → ds <+: ds') ∧
    ∀ failure s', context.declarations.run s = (.error failure, s') →
      ∃ s'', context.declarations.run s' = (.error failure, s'') ∧
        s''.registry = s'.registry ∧ s''.finished = s'.finished := by
  have hs := (h.sound (.initial context)).1
  refine ⟨fun ds s' hrun => ⟨Context.declarations_again hs hrun, ?_⟩,
    fun failure s' hrun => Context.declarations_fail_again hs hrun⟩
  intro types' t ds' t' hleads hrun'
  obtain ⟨hdeclared, rfl⟩ := Context.declared_of_declarations_ok hs hrun
  have hlater : s'.Later context t := .of_leads hdeclared.later.sound hleads
  obtain ⟨hdeclared', rfl⟩ := Context.declared_of_declarations_ok hlater.sound hrun'
  exact (hlater.trans hdeclared'.later).declarations_isPrefix
    fun i entry _ => hdeclared.finished i entry (Nat.zero_le i)

/-- A document with a component whose declaration fails after a name was asked for. -/
def Context.petStray : Context where
  graph := {
    documents := [("openapi.json", .obj [("components", .obj [("schemas", .obj [
      ("Pet", .obj [("type", .str "object"), ("properties", .obj [
        ("owner", .obj [("$ref", .str "#/components/schemas/Owner")])])]),
      ("Owner", .obj [("type", .str "object"), ("properties", .obj [
        ("vet", .obj [("$ref", .str "#/components/schemas/Vet")]),
        ("pets", .obj [("type", .str "array"), ("items", .bool true)])])]),
      ("Vet", .obj [("type", .str "string")])])])])]
    entryPoint := "openapi.json"
    componentRoot := .str "components"
    componentDirectories := [.str "schemas"] }

/-- The state of a run after a reference to the pet was resolved. -/
def Context.petResolved (context : Context) : RunState :=
  (((Call.resolve "openapi.json" (.str "#/components/schemas/Pet")).perform context).run
    (.initial context)).2

/-- Where all goes well the second call gives the same two declarations. Where the
second declaration fails, it has registered a third schema, and it fails again. -/
theorem petStray_declarations_stable :
    (∃ ds s' s'', Context.petOwner.declarations.run Context.petOwner.petResolved = (.ok ds, s') ∧
      ds.map (·.identifier) = ["Pet", "Owner"] ∧
      Context.petOwner.declarations.run s' = (.ok ds, s'') ∧ s''.Agrees s') ∧
    ∃ failure s' s'',
      Context.petStray.declarations.run Context.petStray.petResolved = (.error failure, s') ∧
      s'.registry.identifiers = ["Pet", "Owner", "Vet"] ∧
      s'.finished.map (·.identifier) = ["Pet"] ∧
      Context.petStray.declarations.run s' = (.error failure, s'') ∧
      s''.registry = s'.registry ∧ s''.finished = s'.finished := by
  constructor
  · have hreaches : Context.petOwner.Reaches _ Context.petOwner.petResolved :=
      .call .refl (.resolve "openapi.json" (.str "#/components/schemas/Pet"))
    have hidentifiers : (Context.petOwner.declarations.run
        Context.petOwner.petResolved).1.toOption.map (List.map (·.identifier)) =
          some ["Pet", "Owner"] := by decide +kernel
    rcases hrun : Context.petOwner.declarations.run Context.petOwner.petResolved with
      ⟨failure | ds, s'⟩
    · rw [hrun] at hidentifiers
      cases hidentifiers
    · rw [hrun] at hidentifiers
      obtain ⟨s'', hagain, hagrees⟩ := ((declarations_stable hreaches).1 ds s' hrun).1
      exact ⟨ds, s', s'', rfl, Option.some.inj hidentifiers, hagain, hagrees⟩
  · have hreaches : Context.petStray.Reaches _ Context.petStray.petResolved :=
      .call .refl (.resolve "openapi.json" (.str "#/components/schemas/Pet"))
    have hfails : (Context.petStray.declarations.run Context.petStray.petResolved).1.isOk =
        false := by decide +kernel
    have hregistered : (Context.petStray.declarations.run
        Context.petStray.petResolved).2.registry.identifiers = ["Pet", "Owner", "Vet"] := by
      decide +kernel
    have hfinished : (Context.petStray.declarations.run
        Context.petStray.petResolved).2.finished.map (·.identifier) = ["Pet"] := by
      decide +kernel
    rcases hrun : Context.petStray.declarations.run Context.petStray.petResolved with
      ⟨failure | ds, s'⟩
    · rw [hrun] at hregistered hfinished
      obtain ⟨s'', hagain, hsame⟩ := (declarations_stable hreaches).2 failure s' hrun
      exact ⟨failure, s', s'', rfl, hregistered, hfinished, hagain, hsame⟩
    · rw [hrun] at hfails
      cases hfails

end ApiTypes
