import ApiTypes.Proofs.Conversion.Congruence
import ApiTypes.Proofs.Run.Steps

/-!
# Conversions do no more than they may

Resolving a reference that may be read does no more than it may. Neither does
converting a schema, when its references and those in the documents may be read:
the references that it follows are read from the schema itself or from what was
looked up, each from the document that holds it. With room for as many nested
expansions as the allowance says, the allowance is not used up. The type that
comes out is settled.
-/

namespace ApiTypes

/-- A reference that leads to a place, which has no identifier, leads to that of
its text. -/
structure Resolution.IsPlace (resolution : Resolution) (point : String) (ref : Json) : Prop where
  /-- The resolution has the location of the reference. -/
  written : ∃ written, ref = .str written ∧
    resolution.documentPoint = Reference.documentOf point written ∧
    resolution.path = Reference.segments written ∧
    resolution.canonicalPath = Reference.location point written
  /-- It does not lead to a component document. -/
  kind_ne : ∀ component, resolution.kind ≠ .componentDocument component

namespace Context

variable {context : Context} {point : String} {ref : Json} {s s' : RunState}

/-- A reference without an identifier leads to a place. -/
theorem resolve_isPlace {resolution : Resolution}
    (h : (context.resolve point ref).run s = (.ok resolution, s'))
    (hidentifier : resolution.identifier? = none) : resolution.IsPlace point ref := by
  obtain ⟨result, hrun, hresult⟩ : Realizes Resolution.LeadsTo (context.resolve point ref) s
    (context.destination point ref) := .resolve point ref
  rw [h] at hrun
  cases hrun
  cases hdestination : (context.destination point ref).result with
  | error failure =>
    rw [hdestination] at hresult
    cases hresult
  | ok destination =>
    rw [hdestination] at hresult
    cases hresult with
    | ok hleads =>
      cases destination with
      | component request =>
        obtain ⟨identifier, hsome, _⟩ := hleads
        rw [hidentifier] at hsome
        cases hsome
      | place documentPoint path =>
        obtain ⟨written, rfl, rfl, rfl⟩ := destination_place hdestination
        obtain ⟨_, hdocument, hpath, hcanonical, hkind⟩ := hleads
        exact ⟨⟨written, rfl, hdocument, hpath, hcanonical⟩, hkind⟩

/-- What leads to a place points at what is looked up there. -/
theorem target_eq_lookup {resolution : Resolution} (h : resolution.IsPlace point ref) :
    context.target resolution =
      Run.lookup context resolution.documentPoint resolution.path := by
  unfold Context.target
  split
  · rename_i component heq
    exact absurd heq (h.kind_ne component)
  · rfl

/-- The allowance of a schema is at least that of a value without references. -/
theorem maxNested_null_le (context : Context) (schema : Json) :
    Conversion.maxNested context .null ≤ Conversion.maxNested context schema :=
  Nat.mul_le_mul_left _ (Nat.add_le_add_left (Nat.zero_le _) _)

end Context

/-- The references in the documents may be read there, and lead to no more
locations than a run allows to nest. -/
structure Reading.Suits (R : Reading) (context : Context) : Prop where
  /-- The references in the documents may be read. -/
  covers : R.Covers context.graph
  /-- The allowance of a run is enough for them. -/
  atMost : R.AtMost (Conversion.maxNested context .null)

/-- The references in the documents may be read there. They lead to no more locations
than a run allows to nest, and names are asked for these only, unless allowances may
be used up. -/
structure Permission.Suits (may : Permission) (context : Context) : Prop where
  /-- The references in the documents may be read. -/
  covers : may.reads.Covers context.graph
  /-- The allowance of a run is enough for them. -/
  bounded : may.exhausts ∨
    ¬ may.asks ∧ may.reads.AtMost (Conversion.maxNested context .null)

/-- Nothing needs to be known when all references may be read. -/
theorem Permission.readsAll_suits (context : Context) : Permission.readsAll.Suits context :=
  ⟨fun _ _ _ _ _ => trivial, .inl trivial⟩

/-- Then every value may be read. -/
theorem Permission.readsAll_allows (point : String) (value : Json) :
    Permission.readsAll.reads.Allows point value :=
  fun _ _ => trivial

/-- Names are asked for only as reading allows it. -/
theorem Reading.Suits.only {R : Reading} {context : Context} (h : R.Suits context) :
    R.only.Suits context :=
  ⟨h.covers, .inr ⟨id, h.atMost⟩⟩

/-- So are they when declarations are finished. -/
theorem Reading.Suits.declaring {R : Reading} {context : Context} (h : R.Suits context) :
    R.declaring.Suits context :=
  ⟨h.covers, .inr ⟨id, h.atMost⟩⟩

/-- The allowance of every schema is enough. -/
theorem Permission.Suits.atMost {may : Permission} {context : Context} (h : may.Suits context)
    (schema : Json) : may.AtMost (Conversion.maxNested context schema) :=
  h.bounded.imp id fun hbounded => hbounded.2.mono (context.maxNested_null_le schema)

/-- The type that a conversion gives is settled in the end, from whatever state it
starts. -/
theorem Context.settles_of_convertSchema {context : Context} {s s' : RunState}
    {point path : String} {schema parent : Json} {type : TypeExpr}
    (h : (context.convertSchema point schema path parent).run s = (.ok type, s')) :
    context.Settles s'.registry type := by
  obtain ⟨result, hrun, hresult⟩ := Realizes.convertSchema context s point schema path parent
  rw [h] at hrun
  cases hrun
  generalize hscript : (Conversion.script context (Conversion.maxNested context schema + 1)
    (some s.inFlight) point parent path schema).result = scripted at hresult
  cases hresult with
  | ok hnames => exact hnames.settles (Conversion.script_accounts _ _ _ _ _ _ _ hscript).2

namespace Run.Does

open Conversion

variable {context : Context} {may : Permission} {s : RunState}

/-- A reference that may be read is classified: it leads to its document and its
segments, and the journal says that it was read. -/
theorem classify {point : String} {ref : Json}
    (hread : ∀ written, ref = .str written → may.reads point written) :
    Does context may (fun _ reference => ∃ written, ref = .str written ∧
      may.reads point written ∧ reference.documentPoint = Reference.documentOf point written ∧
      reference.path = Reference.segments written ∧
      ∀ component, reference.kind = .componentDocument component → reference.path = [])
      (context.classify point ref) s := by
  cases ref with
  | str written =>
    have harises : Event.Arises may s.inFlight s.registry (.classified point written) :=
      hread written rfl
    refine (record harises).andThen fun _ _ => ?_
    refine (ofExcept (Reference.gives_classify context.graph point written)).weaken ?_
    intro _ reference hreference
    exact ⟨written, rfl, hread written rfl, hreference⟩
  | _ => exact throw trivial

/-- A reference that was classified is in the journal. -/
theorem classified_mem {point written : String} {reference : Reference} {s' : RunState}
    (h : (context.classify point (.str written)).run s = (.ok reference, s')) :
    .classified point written ∈ s'.journal := by
  obtain ⟨_, recorded, hrecord, hrest⟩ := Run.exists_of_run_bind_ok h
  obtain rfl : recorded = s' := congrArg Prod.snd hrest
  cases hrecord
  exact List.mem_cons_self ..

/-- Resolving a reference that was read registers what it leads to, if that is a
component and exists. -/
theorem resolvePlace {point written : String} {reference : Reference}
    (hread : may.reads point written) (hclassified : .classified point written ∈ s.journal)
    (hdocument : reference.documentPoint = Reference.documentOf point written)
    (hpath : reference.path = Reference.segments written) :
    Does context may (fun _ _ => True) (context.resolvePlace reference) s := by
  refine (ofExcept context.settings.gives_depth).bind fun componentDepth s₁ _ hprogress _ => ?_
  refine get ?_
  by_cases hcomponent : context.settings.namesComponent componentDepth reference
  · simp only [hcomponent, ↓reduceIte, pure_bind]
    have hopens : may.Opens s₁.registry reference.documentPoint :=
      .inr (.inl ⟨point, written, hread, hdocument⟩)
    refine (lookup hopens _).bind fun value s₂ _ hprogress' hvalue => ?_
    have harises : (context.placeRequest componentDepth reference).Arises context.graph may
        s₂.journal := by
      have hjournal := hprogress'.journal_subset (hprogress.journal_subset hclassified)
      refine Or.inr ⟨point, written, hread, hjournal, hdocument, hpath, ?_, value, hvalue⟩
      rw [Context.placeRequest, Reference.canonicalPath, Reference.location, hdocument, hpath]
    exact (ensure harises).andThen fun _ _ => get (pure trivial)
  · simp only [hcomponent, Bool.false_eq_true, ↓reduceIte, pure_bind]
    exact get (pure trivial)

/-- Resolving a reference to a component document that was read registers the
document if it exists. -/
theorem resolveComponent {point written : String} {reference : Reference} {component : Component}
    (hread : may.reads point written) (hclassified : .classified point written ∈ s.journal)
    (hdocument : reference.documentPoint = Reference.documentOf point written)
    (hpath : [] = Reference.segments written) :
    Does context may (fun _ _ => True) (context.resolveComponent reference component) s := by
  have hopens : may.Opens s.registry reference.documentPoint :=
    .inr (.inl ⟨point, written, hread, hdocument⟩)
  refine (document hopens).bind fun value s₁ _ hprogress hvalue => ?_
  have harises : (Context.documentRequest reference component).Arises context.graph may
      s₁.journal := by
    refine Or.inr ⟨point, written, hread, hprogress.journal_subset hclassified, hdocument, hpath,
      ?_, value, hvalue⟩
    simp only [Context.documentRequest, Reference.location, hdocument, hpath]
  exact (ensure harises).andThen fun _ _ => pure trivial

/-- Resolving a reference that may be read registers what it leads to, of whatever
kind that is. -/
theorem resolve {point : String} {ref : Json}
    (hread : ∀ written, ref = .str written → may.reads point written) :
    Does context may (fun _ _ => True) (context.resolve point ref) s := by
  refine (classify hread).bind fun reference s₁ hrun _ hreference => ?_
  obtain ⟨written, rfl, hwritten, hdocument, hpath, hempty⟩ := hreference
  have hclassified := classified_mem hrun
  cases hkind : reference.kind with
  | componentDocument component =>
    exact resolveComponent hwritten hclassified hdocument (hempty component hkind ▸ hpath)
  | sameDocument => exact resolvePlace hwritten hclassified hdocument hpath
  | otherDocument => exact resolvePlace hwritten hclassified hdocument hpath

/-- Carrying out the tasks of a plan does what following its references does. -/
theorem plan {plan : Plan context TypeExpr} {P : String → Prop} (hreads : plan.Reads P)
    {follow : Members → Json → Run TypeExpr}
    (h : ∀ raw ref s', (∀ written, ref = .str written → P written) → s'.inFlight = s.inFlight →
      Does context may (fun _ _ => True) (follow raw ref) s') :
    Does context may (fun _ _ => True) (plan.run follow) s := by
  have htask (task : Task) (hmem : task ∈ plan.tasks) (s' : RunState)
      (hinFlight : s'.inFlight = s.inFlight) :
      Does context may (fun _ _ => True) (task.run follow) s' := by
    cases task with
    | warn parent =>
      have harises : Event.Arises may s'.inFlight s'.registry
          (.reported ⟨.warning, untypedMessage, parent⟩) := trivial
      exact (record harises).andThen fun _ _ => pure trivial
    | fail failure hdefect => exact throw hdefect
    | follow raw ref => exact h raw ref s' (hreads _ hmem) hinFlight
  have htasks : ∀ (tasks : List Task) (s' : RunState), tasks ⊆ plan.tasks →
      s'.inFlight = s.inFlight →
      Does context may (fun _ _ => True) (tasks.mapM (Task.run follow)) s' := by
    intro tasks
    induction tasks with
    | nil => exact fun s' _ _ => pure trivial
    | cons task rest ih =>
      intro s' hsubset hinFlight
      rw [List.cons_subset] at hsubset
      rw [List.mapM_cons]
      refine (htask task hsubset.1 s' hinFlight).bind fun _ s₁ _ hprogress _ => ?_
      refine (ih s₁ hsubset.2 (hprogress.inFlight_eq.trans hinFlight)).andThen fun _ _ => ?_
      exact pure trivial
  exact (htasks plan.tasks s (List.Subset.refl _) rfl).andThen fun _ _ => pure trivial

/-- Following a reference that may be read does what expanding a place does, while
there is less room. -/
theorem follow (hcovers : may.reads.Covers context.graph) {n : Nat}
    (hroom : may.Room (n + 1) s.inFlight) {expand : Expand}
    (hexpand : ∀ point parent path schema s', may.reads.Allows point schema →
      may.Room n s'.inFlight →
      Does context may (fun _ _ => True) (expand point parent path schema) s')
    {point : String} {raw : Members} {ref : Json}
    (hread : ∀ written, ref = .str written → may.reads point written) :
    Does context may (fun _ _ => True)
      (Conversion.follow context Run.expanding expand point raw ref) s := by
  refine (resolve hread).bind fun resolution s₁ hrun hprogress _ => ?_
  cases hidentifier : resolution.identifier? with
  | some identifier => exact pure trivial
  | none =>
    have hplace := Context.resolve_isPlace hrun hidentifier
    obtain ⟨written, rfl, hdocument, hpath, hcanonical⟩ := hplace.written
    have hwritten := hread written rfl
    have hleads : may.reads.LeadsTo resolution.canonicalPath :=
      ⟨point, written, hwritten, hcanonical⟩
    simp only [Context.target_eq_lookup hplace]
    refine expanding hleads fun hnew => ?_
    refine (lookup (.inr (.inl ⟨point, written, hwritten, hdocument⟩)) _).bind
      fun schema s₂ _ hprogress' hschema => ?_
    refine hexpand _ _ _ _ _ (hcovers.allows_lookup hschema) ?_
    rw [hprogress'.inFlight_eq]
    exact (hprogress.inFlight_eq ▸ hroom).enter hnew hleads

/-- Converting a schema whose references may be read does no more than it may, and
its allowance is not used up when it leaves room. -/
theorem within (hcovers : may.reads.Covers context.graph) {n : Nat}
    (hroom : may.Room n s.inFlight) {point : String} {schema : Json}
    (hallows : may.reads.Allows point schema) (parent : Json) (path : String) :
    Does context may (fun _ _ => True)
      (Conversion.within context Run.expanding n point parent path schema) s := by
  induction n generalizing s point parent path schema with
  | zero => exact exhausted hroom
  | succ n ih =>
    refine (ofExcept (Schema.parse_allRefs path schema hallows)).bind
      fun node s₁ _ hprogress hnode => ?_
    rw [ofNode_eq_run]
    refine plan (nodePlan_reads point parent node hnode) fun raw ref s₂ hread hinFlight => ?_
    have hroom : may.Room (n + 1) s₂.inFlight := by rwa [hinFlight, hprogress.inFlight_eq]
    exact follow hcovers hroom
      (fun _ parent path _ _ hallows hroom => ih hroom hallows parent path) hread

/-- Converting a schema of its own settles the type that it gives. -/
theorem convertSchema (hcovers : may.reads.Covers context.graph) {point : String} {schema : Json}
    (hatMost : may.AtMost (maxNested context schema)) (hallows : may.reads.Allows point schema)
    (path : String) (parent : Json) :
    Does context may context.Settles (context.convertSchema point schema path parent) s :=
  { within hcovers (hatMost.room s.inFlight) hallows parent path with
    gives := fun _ hgives => Context.settles_of_convertSchema (Prod.ext hgives rfl) }

/-- So does converting it under a report. -/
theorem convert (hcovers : may.reads.Covers context.graph) (entryPoint : String) {point : String}
    {schema : Json} (hatMost : may.AtMost (maxNested context schema))
    (hallows : may.reads.Allows point schema) (path : String) :
    Does context may context.Settles (context.convert entryPoint point schema path) s :=
  (convertSchema hcovers hatMost hallows path .null).reporting entryPoint schema

end Run.Does

end ApiTypes
