import ApiTypes.Proofs.Document.Place
import ApiTypes.Proofs.Run.Denotation
import ApiTypes.Proofs.Run.Repetition

/-!
# Where schemas have the wrong shape

The location of an error in the shape of a schema is put together from the pointer of the
schema, which grows while the schema is read, and from the document, which only the
conversion knows. So a pointer always leads to the schema at fault, but only the errors
that the conversion itself finds name the document.
-/

namespace ApiTypes

/-- How the location of an error in the shape of a schema names the place that a document and
a pointer are. Only that of a list or a truth value as `items` names the document. Any
other `items` that are no schema are located at `#`. -/
def ShapeFault.Locates (fault : ShapeFault) (documentPoint pointer location : String) : Prop :=
  match fault with
  | .notItems => location = documentPoint ++ "#" ++ pointer
  | .notMembers _ => location = "#" ++ pointer
  | .notSchema => location = "#" ++ pointer ∨ location = "#"

namespace Graph

/-- What the location of an error in the shape of a schema says about the value at fault. -/
inductive Traces (graph : Graph) : ShapeFault → Json → String → Prop
  /-- A value that is no schema is at the location. -/
  | notSchema {point path : String} {value : Json} (h : graph.HasAt point path value) :
    Traces graph .notSchema value path
  /-- The composition of something else than a list is at the location. -/
  | notMembers {point path : String} {raw : Members} {kind : Composition} {value : Json}
    (h : graph.HasAt point path (.obj raw)) (hget : raw.get? kind.keyword = some value) :
    Traces graph (.notMembers kind) value path
  /-- The schema with a list or a truth value as `items` is at the location, which names
  its document. -/
  | notItems {point path : String} {raw : Members} {value : Json}
    (h : graph.HasAt point path (.obj raw)) (hget : raw.get? "items" = some value) :
    Traces graph .notItems value (Pointer.locateWritten point path)
  /-- Any other `items` that are no schema are not located at all. -/
  | otherItems {point path : String} {raw : Members} {value : Json}
    (h : graph.HasAt point path (.obj raw)) (hget : raw.get? "items" = some value) :
    Traces graph .notSchema value "#"

/-- A pointer into a loaded document leads to a value, or to the schema that has the value
under one of its keywords. -/
def LeadsTo (graph : Graph) (documentPoint pointer : String) (value : Json) : Prop :=
  documentPoint ∈ graph.points ∧
  (pointer = "" ∨ pointer.toList.head? = some '/') ∧
  ∃ found, graph.lookup documentPoint (Pointer.split pointer) = .ok found ∧
    (found = value ∨ ∃ raw, found = .obj raw ∧
      ∃ keyword ∈ ["items", "oneOf", "allOf", "anyOf"], Members.get? raw keyword = some value)

variable {graph : Graph} {point path : String} {found value : Json}

/-- The pointer of a value leads to it, and to what is under its keywords. -/
theorem HasAt.exists_leadsTo (h : graph.HasAt point path found)
    (hvalue : found = value ∨ ∃ raw, found = .obj raw ∧
      ∃ keyword ∈ ["items", "oneOf", "allOf", "anyOf"], Members.get? raw keyword = some value) :
    ∃ pointer, graph.LeadsTo point pointer value ∧ path = "#" ++ pointer ∧
      Pointer.locateWritten point path = point ++ "#" ++ pointer := by
  obtain ⟨hpoint, _, segments, hclear, rfl, hlookup⟩ := h
  refine ⟨Pointer.written segments, ⟨hpoint, Pointer.written_eq_empty_or segments, found, ?_,
    hvalue⟩, ?_, ?_⟩
  · rw [Pointer.split_written hclear.empty_not_mem]
    exact hlookup
  · rw [Pointer.locate_eq "" hclear.plain, String.empty_append]
  · rw [Pointer.locateWritten_locate point hclear.plain, Pointer.locate_eq point hclear.plain]

/-- The value at fault is found at a place that the location names. -/
theorem Traces.exists_leadsTo {fault : ShapeFault} {location : String}
    (h : graph.Traces fault value location) :
    ∃ documentPoint pointer, graph.LeadsTo documentPoint pointer value ∧
      fault.Locates documentPoint pointer location := by
  cases h with
  | notSchema h =>
    obtain ⟨pointer, hleads, hpath, _⟩ := h.exists_leadsTo (Or.inl rfl)
    exact ⟨_, pointer, hleads, Or.inl hpath⟩
  | @notMembers point path raw kind _ h hget =>
    have hkeyword : kind.keyword ∈ ["items", "oneOf", "allOf", "anyOf"] := by
      cases kind <;> decide
    obtain ⟨pointer, hleads, hpath, _⟩ :=
      h.exists_leadsTo (Or.inr ⟨raw, rfl, kind.keyword, hkeyword, hget⟩)
    exact ⟨_, pointer, hleads, hpath⟩
  | @notItems point path raw _ h hget =>
    obtain ⟨pointer, hleads, _, hlocation⟩ :=
      h.exists_leadsTo (Or.inr ⟨raw, rfl, "items", by decide, hget⟩)
    exact ⟨_, pointer, hleads, hlocation⟩
  | @otherItems point path raw _ h hget =>
    obtain ⟨pointer, hleads, _, _⟩ :=
      h.exists_leadsTo (Or.inr ⟨raw, rfl, "items", by decide, hget⟩)
    exact ⟨_, pointer, hleads, Or.inr rfl⟩

end Graph

/-- A failure that says where the shape of a schema is wrong, if that is why it happened. No
request path is looked at. -/
def Failure.Tells (graph : Graph) : Failure → Prop
  | .schema (.shape fault value location) => graph.Traces fault value location
  | .schema (.requestPath ..) => False
  | _ => True

/-! ### Reading and planning -/

namespace Conversion

variable {context : Context} {graph : Graph}

/-- A task that fails tells why. -/
def Task.Tells (graph : Graph) : Task → Prop
  | .fail failure _ => failure.Tells graph
  | _ => True

theorem Task.Tells.common : Task.Common (Task.Tells graph) :=
  ⟨fun _ => trivial, fun _ _ => trivial⟩

/-- Items that are no schema are told by their failure. -/
theorem itemsPlan_tells {point path : String} {raw : Members} {value : Json}
    (h : graph.HasAt point path (.obj raw))
    (hvalue : value = .null ∨ raw.get? "items" = some value) (raw' : Members) :
    (itemsPlan context point path raw' (.other value)).All (Task.Tells graph) := by
  rcases hvalue with rfl | hget
  · simp only [itemsPlan]
    exact .of_tasks_eq_nil rfl
  · cases value <;> simp only [itemsPlan]
    case null => exact .of_tasks_eq_nil rfl
    case arr | bool => exact .single (.notItems h hget)
    all_goals exact .single (.otherItems h hget)

/-- The place of a schema is carried to its parts. -/
theorem carries_place (context : Context) (graph : Graph) (point : String) :
    Schema.Carries (graph.HasAt point) (Failure.Tells graph)
      (Admits context point (Task.Tells graph)) := by
  have hchild {raw : Members} {key : String} {value : Json} (h : raw.get? key = some value) :
      (Json.obj raw).walk [key] = .ok value := by
    simp [Json.walk, Json.child, h]
  constructor
  case member =>
    intro path raw kind value members position h hget hmember
    have hkeyword : kind.keyword ≠ "" ∧ kind.keyword.toList.head? ≠ some '#' := by
      cases kind <;> decide
    refine h.child hkeyword ?_
    have haddressable := (Json.isAddressable_obj raw).mp h.addressable
    have hmembers := haddressable.2 _ (Members.mem_of_get? hget)
    rw [Json.isAddressable_arr] at hmembers
    have hlt : position < members.length := (List.getElem?_eq_some_iff.mp hmember).1
    have hnumeral := Text.numeral?_toString (hlt.trans_le hmembers.1)
    simp only [Json.walk, Json.child, hget, Text.isDigits_toString, hnumeral, hmember,
      ↓reduceIte]
  case items | additional =>
    intro path raw value h hget
    exact h.child (by decide) (hchild hget)
  case property =>
    intro path raw properties name value h hget hmem
    refine h.child (by decide) ?_
    have haddressable := (Json.isAddressable_obj raw).mp h.addressable
    have hproperties := haddressable.2 _ (Members.mem_of_get? hget)
    rw [Json.isAddressable_obj] at hproperties
    have hname := Members.get?_of_mem hproperties.1.1 hmem
    simp only [Json.walk, Json.child, hget, hname]
  case malformed => exact fun _ => trivial
  case notSchema => exact fun h => .notSchema h
  case notMembers => exact fun h hget => .notMembers h hget
  case node =>
    intro path value node h hnode
    cases value with
    | obj raw =>
      obtain ⟨ref, _, rfl⟩ | ⟨kind, members, nullable, _, _, _, rfl⟩ |
        ⟨type?, keywords, items, properties, additional, hitems, _, _, rfl⟩ :=
          Schema.parse_obj_cases hnode
      · trivial
      · trivial
      · cases items with
        | schema => trivial
        | other value => exact itemsPlan_tells h (Schema.parseItemsOf_other hitems)
    | bool =>
      cases hnode
      trivial
    | _ => cases hnode

end Conversion

/-! ### Scripts -/

namespace Script

variable {α β : Type} {E : Failure → Prop}

/-- A report does not change how a script ends. -/
theorem result_reporting (entryPoint : String) (about : Json) (script : Script α) :
    (script.reporting entryPoint about).result = script.result := by
  rw [Script.reporting]
  split <;> rfl

/-- A script fails only in ways with a property. -/
def FailsBy (E : Failure → Prop) (script : Script α) : Prop :=
  ∀ failure, script.result = .error failure → E failure

namespace FailsBy

theorem pure (a : α) : (Pure.pure a : Script α).FailsBy E := nofun

theorem ofExcept {Q : α → Prop} {result : Except Failure α} (h : Yields E Q result) :
    (Script.ofExcept result).FailsBy E := by
  rintro failure hfailure
  obtain rfl : result = .error failure := hfailure
  exact h

theorem bind {script : Script α} {next : α → Script β} (hscript : script.FailsBy E)
    (hnext : ∀ a, script.result = .ok a → (next a).FailsBy E) : (script >>= next).FailsBy E := by
  intro failure hfailure
  cases hresult : script.result with
  | error other =>
    rw [bind_of_error hresult] at hfailure
    cases hfailure
    exact hscript failure hresult
  | ok a =>
    rw [bind_of_ok hresult] at hfailure
    exact hnext a hresult failure hfailure

theorem record_bind {event : Event} {next : Unit → Script α} (h : (next ()).FailsBy E) :
    (Script.record event >>= next).FailsBy E := h

theorem reporting {script : Script α} (h : script.FailsBy E) (entryPoint : String)
    (about : Json) : (script.reporting entryPoint about).FailsBy E := by
  intro failure hfailure
  rw [result_reporting] at hfailure
  exact h failure hfailure

theorem mapM {f : α → Script β} {items : List α} (h : ∀ item ∈ items, (f item).FailsBy E) :
    (items.mapM f).FailsBy E := by
  induction items with
  | nil => exact pure []
  | cons item rest ih =>
    rw [List.mapM_cons]
    refine bind (h item (List.mem_cons_self ..)) fun first _ => ?_
    exact bind (ih fun other hother => h other (List.mem_cons_of_mem _ hother)) fun _ _ => pure _

end FailsBy

end Script

namespace Context

variable {context : Context} {graph : Graph}

/-- Looking for a document finds no fault with a shape. -/
theorem yields_document (point : String) :
    Yields (Failure.Tells graph) (fun _ => True)
      ((context.graph.document point).mapError Failure.schema) := by
  simp only [Graph.document]
  split <;> trivial

/-- Looking something up finds no fault with a shape. -/
theorem yields_lookup (point : String) (segments : List String) :
    Yields (Failure.Tells graph) (fun _ => True) (context.graph.lookup point segments) := by
  simp only [Graph.lookup, Graph.document]
  split
  · rename_i error herror
    split at herror
    · cases herror
    · cases herror
      trivial
  · split <;> trivial

/-- Reading a reference finds no fault with a shape. -/
theorem yields_classify (point written : String) :
    Yields (Failure.Tells graph) (fun _ => True)
      (Reference.classify context.graph point written) := by
  have hparts (point : String) :
      Yields (Failure.Tells graph) (fun _ => True) (context.graph.partsFromEntry point) := by
    simp only [Graph.partsFromEntry]
    generalize Point.directory context.graph.entryPoint = directory
    generalize Point.partsFrom context.graph.workingLevels directory point = parts
    split
    · trivial
    · split <;> trivial
  have htarget (point path : String) :
      Yields (Failure.Tells graph) (fun _ => True) (context.graph.target point path) := by
    simp only [Graph.target]
    generalize Point.normalize (Point.join (Point.directory (Point.normalize point)) path) =
      target
    have hresult := hparts target
    generalize context.graph.partsFromEntry target = result at hresult ⊢
    exact hresult.bind fun _ _ => trivial
  simp only [Reference.classify]
  have hresult := htarget (Point.normalize point) (Reference.splitWritten written).1
  generalize context.graph.target (Point.normalize point) (Reference.splitWritten written).1 =
    result at hresult ⊢
  generalize Pointer.split (Reference.splitWritten written).2 = segments
  split
  · trivial
  · refine hresult.bind fun target _ => ?_
    split
    · split <;> trivial
    · trivial

/-- Finding out where a reference leads finds no fault with a shape. -/
theorem destination_tells (point : String) (ref : Json) :
    (context.destination point ref).FailsBy (Failure.Tells graph) := by
  have hreference : (context.referenceScript point ref).FailsBy (Failure.Tells graph) := by
    cases ref with
    | str written => exact .record_bind (.ofExcept (yields_classify point written))
    | _ => exact .ofExcept (Q := fun _ => True) trivial
  refine hreference.bind fun reference _ => ?_
  split
  · refine .bind (.record_bind (.ofExcept (yields_document _))) fun _ _ => ?_
    exact .record_bind (.pure _)
  · have hdepth : Yields (Failure.Tells graph) (fun _ => True) context.settings.depth := by
      simp only [Settings.depth]
      split <;> trivial
    refine .bind (.ofExcept hdepth) fun componentDepth _ => ?_
    split
    · refine .bind (.record_bind (.ofExcept (yields_lookup _ _))) fun _ _ => ?_
      exact .record_bind (.pure _)
    · exact .pure _

end Context

namespace Conversion

variable {context : Context}

/-- A plan whose tasks tell why they fail does so too. -/
theorem Plan.script_tells {graph : Graph} {plan : Plan context TypeExpr}
    (hplan : plan.All (Task.Tells graph)) {follow : Members → Json → Script TypeExpr}
    (hfollow : ∀ raw ref, (follow raw ref).FailsBy (Failure.Tells graph)) :
    (plan.script follow).FailsBy (Failure.Tells graph) := by
  refine .bind (.mapM fun task hmem => ?_) fun _ _ => .pure _
  have htask := hplan task hmem
  cases task with
  | warn parent => exact .record_bind (.pure _)
  | fail failure => exact .ofExcept (Q := fun _ => True) htask
  | follow raw ref => exact hfollow raw ref

/-- A conversion of what a loaded document has at a pointer tells where the shape of a
schema is wrong, also behind references. -/
theorem script_tells (hgraph : context.graph.isAddressable) (allowance : Nat) (watch : Watch)
    (point : String) (parent : Json) (path : String) (schema : Json)
    (h : context.graph.HasAt point path schema) :
    (script context allowance watch point parent path schema).FailsBy
      (Failure.Tells context.graph) := by
  induction allowance generalizing watch point parent path schema with
  | zero => exact .ofExcept (Q := fun _ => True) trivial
  | succ allowance ih =>
    have hparse := Schema.parse_everywhere (carries_place context context.graph point) path
      schema h
    refine .bind (.ofExcept hparse) fun node hnode => ?_
    have hresult : Schema.parse path schema = .ok node := hnode
    rw [hresult] at hparse
    refine Plan.script_tells (nodePlan_all Task.Tells.common point parent node hparse)
      fun raw ref => ?_
    refine (Context.destination_tells point ref).bind fun destination hdestination => ?_
    cases destination with
    | component request => exact .pure _
    | place documentPoint segments =>
      obtain ⟨written, _, rfl, rfl⟩ := Context.destination_place hdestination
      -- What the reference leads to is looked up and converted in its place.
      have hplaced (watch : Watch) : (do
          let schema ← Script.lookup context (Reference.documentOf point written)
            (Reference.segments written)
          script context allowance watch (Reference.documentOf point written) (.obj raw)
            (Pointer.locate "" (Reference.segments written)) schema).FailsBy
              (Failure.Tells context.graph) := by
        refine .bind (.record_bind (.ofExcept (Context.yields_lookup _ _))) fun found hfound => ?_
        exact ih _ _ _ _ _ (.of_lookup hgraph (Reference.normalize_documentOf point written) hfound)
      simp only [placedScript, watching]
      split
      · exact hplaced none
      · split
        · exact .ofExcept (Q := fun _ => True) trivial
        · exact .record_bind (hplaced _)

end Conversion

/-! ### Declarations -/

namespace Context

variable {context : Context} {s s' : RunState} {entry : Entry}

/-- The schema of an entry is what is found at its segments. -/
theorem lookup_of_registeredScript_ok {schema : Json}
    (h : (context.registeredScript entry).result = .ok schema) :
    context.graph.lookup entry.documentPoint entry.segments = .ok schema := by
  obtain ⟨result, hrun, hresult⟩ : Realizes (fun _ b a => b = a)
    (context.registeredSchema entry) (.initial context) (context.registeredScript entry) :=
      realizes_registeredSchema entry
  rw [registeredSchema_eq_lookup] at hrun
  have hlookup : context.graph.lookup entry.documentPoint entry.segments = result :=
    congrArg Prod.fst hrun
  rw [h] at hresult
  rw [hlookup]
  cases hresult with
  | ok heq => rw [heq]

/-- Declaring an entry tells where the shape of a schema is wrong. -/
theorem declareScript_tells (hgraph : context.graph.isAddressable) (inFlight : List String)
    (hnormal : Point.normalize entry.documentPoint = entry.documentPoint) :
    (context.declareScript inFlight entry).FailsBy (Failure.Tells context.graph) := by
  have hregistered : (context.registeredScript entry).FailsBy (Failure.Tells context.graph) := by
    unfold registeredScript
    split
    · exact .record_bind (.ofExcept (yields_document _))
    · exact .record_bind (.ofExcept (yields_lookup _ _))
  refine (hregistered.reporting _ _).bind fun schema hschema => ?_
  rw [Script.result_reporting] at hschema
  have hat := Graph.HasAt.of_lookup hgraph hnormal (lookup_of_registeredScript_ok hschema)
  refine .bind ?_ fun _ _ => .pure _
  exact (Conversion.script_tells hgraph _ _ _ _ _ _ hat).reporting _ _

/-- An entry whose declaration fails in a run was registered for a reference, which leads to
the point of a document in normal form. -/
theorem normalize_documentPoint (h : context.LeadsBy Call.Resolves (.initial context) s)
    (hentry : entry ∈ s.registry.entries) :
    Point.normalize entry.documentPoint = entry.documentPoint := by
  obtain ⟨_, point, written, _, _, hdocument, _⟩ :=
    (h.denotes (.initial context)).entries entry hentry
  rw [hdocument]
  exact Reference.normalize_documentOf point written

/-- Declarations that fail tell where the shape of a schema is wrong. -/
theorem declarations_tell (hgraph : context.graph.isAddressable)
    (h : context.LeadsBy Call.Resolves (.initial context) s) {failure : Failure}
    (hrun : context.declarations.run s = (.error failure, s')) :
    failure.Tells context.graph := by
  obtain ⟨_, hleads⟩ := h.leads
  have hsound := (hleads.sound (.initial context)).1
  have hstate : (((Call.declarations).perform context).run s).2 = s' :=
    (Run.state_return context.declarations (List.map (·.type)) s).trans (congrArg Prod.snd hrun)
  have hlast := h.call .declarations trivial
  rw [hstate] at hlast
  rw [declarations_run] at hrun
  split at hrun
  · cases hrun
  · rename_i other last hloop
    cases hrun
    obtain rfl | ⟨i, entry, s₁, hlater, _, hentry, _, hdeclare⟩ :=
      exists_of_declareFrom_error hsound (Nat.zero_le _) s.finishedBefore_zero hloop
    · trivial
    · have hrealizes := context.realizes_declare s₁ entry
      have hbefore := (hlater.sound.after (context.declareScript s₁.inFlight entry).events).2
      -- What was registered for the entry is still there in the end.
      rw [← hrealizes.state_eq, hdeclare] at hbefore
      have hmem : entry ∈ s'.registry.entries :=
        hbefore.entries_isPrefix.subset (List.mem_of_getElem? hentry)
      obtain ⟨result, hend, hresult⟩ := hrealizes
      rw [hdeclare] at hend
      have herror := congrArg Prod.fst hend
      generalize hscript : (context.declareScript s₁.inFlight entry).result = scripted at hresult
      cases hresult with
      | ok => cases herror
      | error =>
        cases herror
        exact declareScript_tells hgraph _ (normalize_documentPoint hlast hmem) _ hscript

end Context

/-- Errors in the shape of a schema point at it. In the documents, no key is empty or there
twice in an object, and no key of a document itself starts with a `#`. Then every such
error of the declarations, in a run that registers schemas by resolving references, has a
loaded document and a pointer that leads to the value at fault, or to the schema that has
it under one of its keywords. The location of a list or a truth value as `items` is both.
That of anything else is the pointer without the document, or `#` alone if it is that of
other `items` that are no schema. -/
theorem shape_errors_located {context : Context} (hgraph : context.graph.isAddressable)
    {s s' : RunState} (h : context.LeadsBy Call.Resolves (.initial context) s)
    {error : SchemaError} (hrun : context.declarations.run s = (.error (.schema error), s')) :
    (∀ path location, error ≠ .requestPath path location) ∧
    ∀ fault value location, error = .shape fault value location →
      ∃ documentPoint pointer, context.graph.LeadsTo documentPoint pointer value ∧
        fault.Locates documentPoint pointer location := by
  have htells := Context.declarations_tell hgraph h hrun
  constructor
  · rintro path location rfl
    exact htells
  · rintro fault value location rfl
    exact Graph.Traces.exists_leadsTo htells

/-- The truth value among the items of the second declaration is located, with its
document. -/
theorem petStray_shape_error_located :
    ∃ s' location documentPoint pointer,
      Context.petStray.declarations.run Context.petStray.petResolved =
        (.error (.schema (.shape .notItems (.bool true) location)), s') ∧
      location = "openapi.json#/components/schemas/Owner/properties/pets" ∧
      Context.petStray.graph.LeadsTo documentPoint pointer (.bool true) ∧
      location = documentPoint ++ "#" ++ pointer := by
  have hgraph : Context.petStray.graph.isAddressable := by decide +kernel
  have hleads : Context.petStray.LeadsBy Call.Resolves (.initial Context.petStray)
      Context.petStray.petResolved := .call .refl (.resolve ..) trivial
  have hresult : (Context.petStray.declarations.run Context.petStray.petResolved).1 =
      .error (.schema (.shape .notItems (.bool true)
        "openapi.json#/components/schemas/Owner/properties/pets")) := rfl
  rcases hrun : Context.petStray.declarations.run Context.petStray.petResolved with ⟨result, s'⟩
  rw [hrun] at hresult
  subst hresult
  obtain ⟨documentPoint, pointer, hplace, hlocation⟩ :=
    (shape_errors_located hgraph hleads hrun).2 _ _ _ rfl
  exact ⟨s', _, documentPoint, pointer, rfl, rfl, hplace, hlocation⟩

/-- A document with a component that has a property which is no schema. -/
def Context.petAge : Context where
  graph := {
    documents := [("openapi.json", .obj [("components", .obj [("schemas", .obj [
      ("Pet", .obj [("type", .str "object"), ("properties", .obj [("age", .int 5)])])])])])]
    entryPoint := "openapi.json"
    componentRoot := .str "components"
    componentDirectories := [.str "schemas"] }

/-- The state of a run after the components were registered. -/
def Context.componentsRegistered (context : Context) : RunState :=
  ((Call.registerComponents.perform context).run (.initial context)).2

/-- The location of the property names no document: it cannot be taken apart into the point
of a document and a pointer. -/
theorem petAge_located_without_document :
    Context.petAge.graph.isAddressable ∧
    Context.petAge.LeadsBy Call.Resolves (.initial Context.petAge)
      Context.petAge.componentsRegistered ∧
    ∃ s' value location,
      Context.petAge.declarations.run Context.petAge.componentsRegistered =
        (.error (.schema (.shape .notSchema value location)), s') ∧
      ¬ ∃ documentPoint pointer, location = documentPoint ++ "#" ++ pointer ∧
        Context.petAge.graph.LeadsTo documentPoint pointer value := by
  have hresult : (Context.petAge.declarations.run Context.petAge.componentsRegistered).1 =
      .error (.schema (.shape .notSchema (.int 5) "#/components/schemas/Pet/properties/age")) := rfl
  rcases hrun : Context.petAge.declarations.run Context.petAge.componentsRegistered with
    ⟨result, s'⟩
  rw [hrun] at hresult
  subst hresult
  refine ⟨by decide +kernel, .call .refl .registerComponents trivial, s', _, _, rfl, ?_⟩
  rintro ⟨documentPoint, pointer, hlocation, hplace⟩
  have hpoint : documentPoint = "openapi.json" := List.mem_singleton.mp hplace.1
  -- The point does not start like the location.
  have hhead := congrArg (fun location => location.toList.head?) hlocation
  rw [hpoint] at hhead
  simp at hhead

end ApiTypes
