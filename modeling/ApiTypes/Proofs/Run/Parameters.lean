import ApiTypes.Proofs.Operation.Parameters
import ApiTypes.Proofs.Run.Dereference

/-!
# Parameters of collected operations

An operation has the parameters of its path and its own, each of them read from the document in
which references lead to it. This file follows the collection of operations down to the single
parameter, and connects the groups that come out with the parameters in the documents.
-/

namespace ApiTypes

/-- A later state of a run: the same paths are in flight, and more schemas may be registered. -/
structure RunState.Extends (s s' : RunState) : Prop where
  /-- The same paths are in flight. -/
  inFlight_eq : s'.inFlight = s.inFlight
  /-- Schemas were registered. -/
  registry : ∃ requests, s'.registry = s.registry.ensureAll requests

namespace RunState.Extends

variable {s s' s'' : RunState}

/-- A state extends itself. -/
theorem refl (s : RunState) : s.Extends s := ⟨rfl, [], rfl⟩

/-- A later state of a later state is a later one. -/
theorem trans (h : s.Extends s') (h' : s'.Extends s'') : s.Extends s'' where
  inFlight_eq := h'.inFlight_eq.trans h.inFlight_eq
  registry := by
    obtain ⟨requests, hrequests⟩ := h.registry
    obtain ⟨more, hmore⟩ := h'.registry
    exact ⟨requests ++ more, by rw [hmore, hrequests, Registry.ensureAll_append]⟩

end RunState.Extends

namespace Run

variable {α β : Type} {s s' : RunState}

/-- Steps lead to a later state, whether they succeed or fail. -/
theorem Does.extends {context : Context} {may : Permission} {Q : Registry → α → Prop} {m : Run α}
    (h : Does context may Q m s) {result : Except Failure α} (hrun : m.run s = (result, s')) :
    s.Extends s' := by
  have hprogress := h.progress_of_run hrun
  obtain ⟨requests, hregistry, _⟩ := hprogress.registry
  exact ⟨hprogress.inFlight_eq, requests, hregistry⟩

/-- A step was made between two states of a run, and gave something. -/
def GaveBetween (m : Run α) (s s' : RunState) (a : α) : Prop :=
  ∃ before after, s.Extends before ∧ m.run before = (.ok a, after) ∧ after.Extends s'

/-- What a step gives, it gives between the states where it starts and ends. -/
theorem GaveBetween.of_run {m : Run α} {a : α} (h : m.run s = (.ok a, s')) :
    m.GaveBetween s s' a :=
  ⟨s, s', .refl s, h, .refl s'⟩

/-- The states may be further apart. -/
theorem GaveBetween.mono {m : Run α} {a : α} {t t' : RunState} (h : m.GaveBetween t t' a)
    (hbefore : s.Extends t) (hafter : t'.Extends s') : m.GaveBetween s s' a := by
  obtain ⟨before, after, hextends, hrun, hextends'⟩ := h
  exact ⟨before, after, hbefore.trans hextends, hrun, hextends'.trans hafter⟩

/-- A calculation that succeeds leaves the state to what follows. -/
theorem exists_of_run_lift_bind_ok {result : Except Failure α} {f : α → Run β} {b : β}
    (h : ((liftM result : Run α) >>= f).run s = (.ok b, s')) :
    ∃ a, result = .ok a ∧ (f a).run s = (.ok b, s') := by
  cases result with
  | error failure => cases h
  | ok a => exact ⟨a, rfl, h⟩

/-- When the members of a value are asked for with success, it is an object. -/
theorem exists_of_run_members_bind_ok {value : Json} {f : Members → Run β} {b : β}
    (h : ((liftM value.members : Run Members) >>= f).run s = (.ok b, s')) :
    ∃ members, value = .obj members ∧ (f members).run s = (.ok b, s') := by
  obtain ⟨members, hmembers, hrest⟩ := exists_of_run_lift_bind_ok h
  have hgives := value.gives_members
  rw [hmembers] at hgives
  exact ⟨members, hgives, hrest⟩

end Run

namespace Context

variable (context : Context)

/-- References lead from a value at a point to an object in a document. -/
def Locates (point : String) (value : Json) (foundPoint : String) (members : Members) : Prop :=
  (∃ locations, context.Follows ⟨point, value⟩ locations ⟨foundPoint, .obj members⟩) ∧
    (Json.obj members).ref? = none

/-- The parameters in a value at a point, where an absent one has none. -/
def HasParameters (point : String) (value : Json) (parameters : List LocatedParameter) : Prop :=
  ∃ items, value.orNone.elements = .ok items ∧
    List.Forall₂ (fun item (parameter : LocatedParameter) =>
      context.Locates point item parameter.point parameter.members) items parameters

/-- An operation is declared under its method in the path item of its request path. -/
structure DeclaresOperation (operation : Operation) (point : String) (item members : Members) :
    Prop where
  /-- The path item is found under the request path. -/
  path : ∃ root paths value, context.graph.rootDocument = .obj root ∧
    (Members.get root "paths").orEmpty = .obj paths ∧ (operation.requestPath, value) ∈ paths ∧
      context.Locates context.graph.entryPoint value point item
  /-- The method is one of requests. -/
  method : operation.method ∈ requestMethods
  /-- The operation is found under its method. -/
  members_eq : Members.get item operation.method = .obj members

/-- The type of a parameter: what the conversion of its schema gave between two states. -/
def Converts (s s' : RunState) (parameter : LocatedParameter) (type : TypeExpr) : Prop :=
  ∃ schema, Parameter.schema parameter.members = .ok schema ∧
    (context.convertPart parameter.point (match schema with
      | .null => .obj []
      | schema => schema)).GaveBetween s s' type

end Context

open Parameter

namespace Context

variable {context : Context} {s s' : RunState}

/-! ### The parameters of an operation -/

/-- The states may be further apart. -/
theorem Converts.mono {t t' : RunState} {parameter : LocatedParameter} {type : TypeExpr}
    (h : context.Converts t t' parameter type) (hbefore : s.Extends t) (hafter : t'.Extends s') :
    context.Converts s s' parameter type := by
  obtain ⟨schema, hschema, hgave⟩ := h
  exact ⟨schema, hschema, hgave.mono hbefore hafter⟩

/-- What following references gives is where they lead. -/
theorem locates_of_dereference_ok {point : String} {value : Json} {located : Located}
    {members : Members} (h : (context.dereference point value).run s = (.ok located, s'))
    (hmembers : located.value = .obj members) :
    context.Locates point value located.point members := by
  obtain ⟨point', value'⟩ := located
  cases hmembers
  exact follows_of_dereference_ok h

/-- Merging finds every parameter, and puts them over each other in order. -/
theorem mergeParameters_ok {point : String} {merged found : List LocatedParameter}
    {parameters : List Json}
    (h : (context.mergeParameters point merged parameters).run s = (.ok found, s')) :
    ∃ located, List.Forall₂ (fun item (parameter : LocatedParameter) =>
        context.Locates point item parameter.point parameter.members) parameters located ∧
      found = located.foldl (fun others parameter => put parameter others) merged := by
  induction parameters generalizing s merged with
  | nil =>
    cases h
    exact ⟨[], .nil, rfl⟩
  | cons parameter rest ih =>
    obtain ⟨located, s₁, hlocated, hrest⟩ := Run.exists_of_run_bind_ok h
    obtain ⟨members, hobject, hrest⟩ := Run.exists_of_run_members_bind_ok hrest
    split at hrest
    · obtain ⟨more, hmore, hfound⟩ := ih hrest
      exact ⟨⟨located.point, members⟩ :: more,
        .cons (locates_of_dereference_ok hlocated hobject) hmore, hfound⟩
    · cases hrest

/-- Grouping converts every parameter, and puts them into their groups in order. -/
theorem groupParameters_ok {groups result : List (Json × List (Property TypeExpr))}
    {parameters : List LocatedParameter}
    (h : (context.groupParameters groups parameters).run s = (.ok result, s')) :
    ∃ typed : List WithType, typed.map Prod.fst = parameters ∧
      (∀ t ∈ typed, context.Converts s s' t.1 t.2) ∧
      result = typed.foldl
        (fun groups t => addToGroup (group t.1.members) (member t.1 t.2) groups) groups := by
  induction parameters generalizing s groups with
  | nil =>
    cases h
    exact ⟨[], rfl, nofun, rfl⟩
  | cons parameter rest ih =>
    obtain ⟨schema, hschema, hrest⟩ := Run.exists_of_run_lift_bind_ok h
    obtain ⟨type, s₁, htype, hrest⟩ := Run.exists_of_run_bind_ok hrest
    obtain ⟨typed, htyped, hconverts, hresult⟩ := ih hrest
    have hR := Permission.readsAll_suits context
    have hall := Permission.readsAll_allows
    have hbefore : s.Extends s₁ := (Run.Does.convertPart hR (hall _ _)).extends htype
    have hafter : s₁.Extends s' :=
      (Run.Does.groupParameters hR fun _ _ => hall _ _).extends hrest
    refine ⟨(parameter, type) :: typed, by rw [List.map_cons, htyped], ?_, hresult⟩
    refine List.forall_mem_cons.mpr ⟨⟨schema, hschema, ?_⟩, fun t ht => ?_⟩
    · exact (Run.GaveBetween.of_run htype).mono (.refl _) hafter
    · exact (hconverts t ht).mono hbefore (.refl _)

/-- What corresponds to two lists, one after the other, is two lists. -/
theorem exists_of_forall₂_append {α β : Type} {R : α → β → Prop} {first second : List α}
    {all : List β} (h : List.Forall₂ R (first ++ second) all) :
    ∃ front back, all = front ++ back ∧ List.Forall₂ R first front ∧ List.Forall₂ R second back :=
  ⟨all.take first.length, all.drop first.length, (List.take_append_drop ..).symm,
    (List.forall₂_take_append _ _ _ h.flip).flip, (List.forall₂_drop_append _ _ _ h.flip).flip⟩

/-- Converted parameters are put into one object, a group after the other. -/
theorem convertParameters_ok {parameters : List LocatedParameter} {result : Option TypeExpr}
    (h : (context.convertParameters parameters).run s = (.ok result, s')) :
    ∃ typed : List WithType, typed.map Prod.fst = parameters ∧
      (∀ t ∈ typed, context.Converts s s' t.1 t.2) ∧
      result = if parameters.isEmpty then none
        else some (.object ((orderGroups (grouped typed)).map groupProperty) none) := by
  unfold convertParameters at h
  split at h
  · rename_i hempty
    cases h
    exact ⟨[], (List.isEmpty_iff.mp hempty).symm, nofun, (if_pos hempty).symm⟩
  · rename_i hempty
    obtain ⟨groups, s₁, hgroups, hpure⟩ := Run.exists_of_run_bind_ok h
    cases hpure
    obtain ⟨typed, htyped, hconverts, rfl⟩ := groupParameters_ok hgroups
    exact ⟨typed, htyped, hconverts, (if_neg hempty).symm⟩

/-- An operation that is collected is built from the parameters of its path and its own. -/
theorem collectOperation_ok {point path method : String} {operation shared : Json}
    {collected : Operation}
    (h : (context.collectOperation point path method operation shared.orNone).run s =
      (.ok collected, s')) :
    collected.requestPath = path ∧ collected.method = method ∧
      ∃ members before own typed, operation = .obj members ∧
        context.HasParameters point shared before ∧
        context.HasParameters point (Members.get members "parameters") own ∧
        typed.map Prod.fst = merged (before ++ own) ∧
        (∀ t ∈ typed, context.Converts s s' t.1 t.2) ∧
        collected.parameters? = (if (merged (before ++ own)).isEmpty then none
          else some (.object ((orderGroups (grouped typed)).map groupProperty) none)) ∧
        pathParameterNames (merged (before ++ own)) = .ok collected.pathParameterNames := by
  obtain ⟨members, rfl, hrest⟩ := Run.exists_of_run_members_bind_ok h
  obtain ⟨sharedItems, hshared, hrest⟩ := Run.exists_of_run_lift_bind_ok hrest
  obtain ⟨ownItems, hown, hrest⟩ := Run.exists_of_run_lift_bind_ok hrest
  obtain ⟨parameters, s₁, hmerged, hrest⟩ := Run.exists_of_run_bind_ok hrest
  obtain ⟨names, hnames, hrest⟩ := Run.exists_of_run_lift_bind_ok hrest
  obtain ⟨parameters?, s₂, hparameters, hrest⟩ := Run.exists_of_run_bind_ok hrest
  obtain ⟨bodies, s₃, hbodies, hrest⟩ := Run.exists_of_run_bind_ok hrest
  obtain ⟨answers, hanswers, hrest⟩ := Run.exists_of_run_members_bind_ok hrest
  obtain ⟨responses, s₄, hresponses, hpure⟩ := Run.exists_of_run_bind_ok hrest
  cases hpure
  have hR := Permission.readsAll_suits context
  have hall := Permission.readsAll_allows
  have hbefore : s.Extends s₁ :=
    (Run.Does.mergeParameters hR (fun _ _ => hall _ _) fun _ _ => hall _ _).extends hmerged
  have hafter : s₂.Extends s' :=
    ((Run.Does.convertRequestBody hR (hall _ _)).extends hbodies).trans
      ((Run.Does.convertResponses hR fun _ _ => hall _ _).extends hresponses)
  obtain ⟨located, hlocated, rfl⟩ := mergeParameters_ok hmerged
  obtain ⟨typed, htyped, hconverts, hresult⟩ := convertParameters_ok hparameters
  obtain ⟨before, own, rfl, hbeforeItems, hownItems⟩ := exists_of_forall₂_append hlocated
  exact ⟨rfl, rfl, members, before, own, typed, rfl, ⟨sharedItems, hshared, hbeforeItems⟩,
    ⟨ownItems, hown, hownItems⟩, htyped, fun t ht => (hconverts t ht).mono hbefore hafter,
    hresult, hnames⟩

/-! ### The operations of all paths -/

/-- An operation of a path item is collected for one of its methods. -/
theorem collectMethods_ok {point path : String} {item : Members} {shared : Json}
    {methods : List String} {operations : List Operation}
    (h : (context.collectMethods point path item shared methods).run s = (.ok operations, s'))
    {operation : Operation} (hmem : operation ∈ operations) :
    ∃ method ∈ methods, (context.collectOperation point path method
      (Members.get item method) shared).GaveBetween s s' operation := by
  induction methods generalizing s operations with
  | nil =>
    cases h
    cases hmem
  | cons method rest ih =>
    unfold collectMethods at h
    split at h
    · obtain ⟨method, hmethod, hgave⟩ := ih h hmem
      exact ⟨method, List.mem_cons_of_mem _ hmethod, hgave⟩
    · obtain ⟨collected, s₁, hcollected, hrest⟩ := Run.exists_of_run_bind_ok h
      obtain ⟨others, s₂, hothers, hpure⟩ := Run.exists_of_run_bind_ok hrest
      cases hpure
      have hR := Permission.readsAll_suits context
      have hall := Permission.readsAll_allows
      rcases List.mem_cons.mp hmem with rfl | hmem
      · have hafter : s₁.Extends s' :=
          (Run.Does.collectMethods hR path (hall _ _) (hall _ _) rest).extends hothers
        exact ⟨method, List.mem_cons_self ..,
          (Run.GaveBetween.of_run hcollected).mono (.refl _) hafter⟩
      · obtain ⟨method, hmethod, hgave⟩ := ih hothers hmem
        refine ⟨method, List.mem_cons_of_mem _ hmethod, hgave.mono ?_ (.refl _)⟩
        exact (Run.Does.collectOperation hR path _ (hall _ _) (hall _ _)).extends hcollected

/-- An operation is collected from the path item that is found under one of the paths. -/
theorem collectPaths_ok {paths : List (String × Json)} {operations : List Operation}
    (h : (context.collectPaths paths).run s = (.ok operations, s')) {operation : Operation}
    (hmem : operation ∈ operations) :
    ∃ path value point item, (path, value) ∈ paths ∧
      context.Locates context.graph.entryPoint value point item ∧
      ∃ method ∈ requestMethods, (context.collectOperation point path method
        (Members.get item method) (Members.get item "parameters").orNone).GaveBetween s s'
          operation := by
  induction paths generalizing s operations with
  | nil =>
    cases h
    cases hmem
  | cons first rest ih =>
    obtain ⟨path, value⟩ := first
    unfold collectPaths at h
    dsimp only at h
    split at h
    · cases h
    · obtain ⟨located, s₁, hlocated, hrest⟩ := Run.exists_of_run_bind_ok h
      obtain ⟨item, hitem, hrest⟩ := Run.exists_of_run_members_bind_ok hrest
      obtain ⟨here, s₂, hhere, hrest⟩ := Run.exists_of_run_bind_ok hrest
      obtain ⟨others, s₃, hothers, hpure⟩ := Run.exists_of_run_bind_ok hrest
      cases hpure
      have hR := Permission.readsAll_suits context
      have hall := Permission.readsAll_allows
      have hbefore : s.Extends s₁ := (Run.Does.dereference hR (hall _ _)).extends hlocated
      have hmiddle : s₁.Extends s₂ :=
        (Run.Does.collectMethods hR path (hall _ _) (hall _ _) _).extends hhere
      have hafter : s₂.Extends s' :=
        (Run.Does.collectPaths hR fun _ _ => hall _ _).extends hothers
      rcases List.mem_append.mp hmem with hmem | hmem
      · obtain ⟨method, hmethod, hgave⟩ := collectMethods_ok hhere hmem
        exact ⟨path, value, located.point, item, List.mem_cons_self ..,
          locates_of_dereference_ok hlocated hitem, method, hmethod, hgave.mono hbefore hafter⟩
      · obtain ⟨path, value, point, item, hpath, hitem, method, hmethod, hgave⟩ :=
          ih hothers hmem
        exact ⟨path, value, point, item, List.mem_cons_of_mem _ hpath, hitem, method, hmethod,
          hgave.mono (hbefore.trans hmiddle) (.refl _)⟩

/-! ### What documents determine -/

/-- References lead from a value to one object. -/
theorem Locates.unique {point foundPoint otherPoint : String} {value : Json}
    {members others : Members} (h : context.Locates point value foundPoint members)
    (h' : context.Locates point value otherPoint others) :
    foundPoint = otherPoint ∧ members = others := by
  obtain ⟨⟨_, hfollows⟩, hnone⟩ := h
  obtain ⟨⟨_, hfollows'⟩, hnone'⟩ := h'
  cases (hfollows.unique hfollows' hnone hnone').2
  exact ⟨rfl, rfl⟩

/-- The parameters in a value are known from the value. -/
theorem HasParameters.unique {point : String} {value : Json}
    {parameters others : List LocatedParameter} (h : context.HasParameters point value parameters)
    (h' : context.HasParameters point value others) : parameters = others := by
  obtain ⟨items, hitems, hfound⟩ := h
  obtain ⟨items', hitems', hfound'⟩ := h'
  cases hitems.symm.trans hitems'
  refine List.right_unique_forall₂' ?_ hfound hfound'
  rintro item ⟨foundPoint, members⟩ ⟨otherPoint, others⟩ hlocates hlocates'
  obtain ⟨rfl, rfl⟩ := hlocates.unique hlocates'
  rfl

end Context

/-- The parameters of a collected operation are those that its path item and the operation itself
have in the documents. When their names and locations are texts or missing, and none without a
location has the name of one whose location is empty or that of a query, they are listed in
groups by location: once for each name, as the last parameter of the operation with that location
and name or else the last one of the path. -/
theorem parameters_listed_by_location {context : Context} {s s' : RunState}
    {operations : List Operation} (h : context.operations.run s = (.ok operations, s'))
    {operation : Operation} (hmem : operation ∈ operations) :
    ∃ point item members shared own, context.DeclaresOperation operation point item members ∧
      context.HasParameters point (Members.get item "parameters") shared ∧
      context.HasParameters point (Members.get members "parameters") own ∧
      ((∀ p ∈ shared ++ own, IsPlaced p) → Unmixed (shared ++ own) →
        ∃ groups, Listed (context.Converts s s') shared own operation groups) := by
  obtain ⟨root, hroot, hrest⟩ := Run.exists_of_run_members_bind_ok h
  obtain ⟨paths, hpaths, hrest⟩ := Run.exists_of_run_members_bind_ok hrest
  obtain ⟨collected, s₁, hcollected, hrest⟩ := Run.exists_of_run_bind_ok hrest
  obtain ⟨_, s₂, hrecord, hpure⟩ := Run.exists_of_run_bind_ok hrest
  cases hpure
  obtain ⟨path, value, point, item, hpath, hitem, method, hmethod, before, after, hbefore, hrun,
    hafter⟩ := Context.collectPaths_ok hcollected hmem
  obtain ⟨rfl, rfl, members, shared, own, typed, hmembers, hshared, hown, htyped, hconverts,
    hparameters, hnames⟩ := Context.collectOperation_ok hrun
  have hlast : after.Extends s' := by
    cases hrecord
    exact ⟨hafter.inFlight_eq, hafter.registry⟩
  refine ⟨point, item, members, shared, own,
    ⟨⟨root, paths, value, hroot, hpaths, hpath, hitem⟩, hmethod, hmembers⟩, hshared, hown,
    fun hplaced hmixed => ?_⟩
  exact exists_listed hmixed hplaced htyped (fun t ht => (hconverts t ht).mono hbefore hlast)
    hparameters hnames

/-- A parameter with the given name, location and type. -/
def Parameter.sample (name location type : String) : Members :=
  [("name", .str name), ("in", .str location), ("schema", .obj [("type", .str type)])]

/-- A path with two parameters, one of which its operation has from another document. -/
def Context.paging : Context where
  graph := {
    documents := [
      ("openapi.json", .obj [("paths", .obj [("/pets/\x7bpetId\x7d", .obj [
        ("parameters", .arr [.obj (sample "limit" "query" "string"),
          .obj (sample "petId" "path" "string")]),
        ("get", .obj [("parameters", .arr [.obj [("$ref", .str "shared.json#/limit")]])])])])]),
      ("shared.json", .obj [("limit", .obj (sample "limit" "query" "integer"))])]
    entryPoint := "openapi.json"
    componentRoot := .str "components"
    componentDirectories := [.str "schemas"] }

/-- The parameters of the path. -/
def Context.pagingShared : List LocatedParameter :=
  [⟨"openapi.json", sample "limit" "query" "string"⟩,
    ⟨"openapi.json", sample "petId" "path" "string"⟩]

/-- The parameter of the operation. -/
def Context.pagingOwn : List LocatedParameter :=
  [⟨"shared.json", sample "limit" "query" "integer"⟩]

/-- The limit of the operation takes the place of that of the path. -/
theorem paging_parameters_listed_by_location :
    ∃ operation s' groups,
      Context.paging.operations.run (.initial .paging) = (.ok [operation], s') ∧
      Listed (Context.paging.Converts (.initial .paging) s') Context.pagingShared
        Context.pagingOwn operation groups := by
  have hmethods : ((Context.paging.operations.run (.initial .paging)).1.map fun operations =>
      operations.map (·.method)).toOption = some ["get"] := by decide +kernel
  rcases hrun : Context.paging.operations.run (.initial .paging) with ⟨failure | operations, s'⟩
  · rw [hrun] at hmethods
    cases hmethods
  rw [hrun] at hmethods
  obtain ⟨operation, rfl, hget⟩ := List.map_eq_singleton_iff.mp (Option.some.inj hmethods)
  obtain ⟨point, item, members, shared, own, ⟨⟨root, paths, value, hroot, hpaths, hpath, hitem⟩, _,
    hmembers⟩, hshared, hown, hlisted⟩ :=
      parameters_listed_by_location hrun (List.mem_singleton_self operation)
  obtain rfl := Json.obj.inj hroot
  obtain rfl := Json.obj.inj hpaths
  obtain ⟨_, rfl⟩ := Prod.mk.inj (List.mem_singleton.mp hpath)
  obtain ⟨rfl, rfl⟩ := hitem.unique ⟨⟨_, .refl _⟩, rfl⟩
  rw [hget] at hmembers
  obtain rfl := Json.obj.inj hmembers
  have hreference : Context.paging.Refers
      ⟨"openapi.json", .obj [("$ref", .str "shared.json#/limit")]⟩
      ⟨"shared.json#/limit", "openapi.json", .otherDocument, "shared.json", ["limit"]⟩ :=
    ⟨"shared.json#/limit", rfl, rfl⟩
  have hlimit : Context.paging.Locates "openapi.json"
      (.obj [("$ref", .str "shared.json#/limit")]) "shared.json"
        (sample "limit" "query" "integer") := ⟨⟨_, .step hreference rfl (.refl _)⟩, rfl⟩
  obtain rfl : shared = Context.pagingShared :=
    hshared.unique ⟨_, rfl, .cons ⟨⟨_, .refl _⟩, rfl⟩ (.cons ⟨⟨_, .refl _⟩, rfl⟩ .nil)⟩
  obtain rfl : own = Context.pagingOwn := hown.unique ⟨_, rfl, .cons hlimit .nil⟩
  have hplaced : ∀ p ∈ Context.pagingShared ++ Context.pagingOwn, IsPlaced p :=
    List.forall_mem_cons.mpr ⟨⟨rfl, rfl⟩, List.forall_mem_cons.mpr ⟨⟨rfl, rfl⟩,
      List.forall_mem_singleton.mpr ⟨rfl, rfl⟩⟩⟩
  have hmixed : Unmixed (Context.pagingShared ++ Context.pagingOwn) := by
    have hin : ∀ p ∈ Context.pagingShared ++ Context.pagingOwn,
        (p.members.get? "in").isSome := by decide
    intro p hp hnone
    have hsome := hin p hp
    rw [hnone] at hsome
    cases hsome
  obtain ⟨groups, hgroups⟩ := hlisted hplaced hmixed
  exact ⟨operation, s', groups, rfl, hgroups⟩

/-- A path and its operation have a parameter of one name, which is in the query because the one
has no location and because the other one has that. -/
def Context.mixed : Context where
  graph := {
    documents := [("openapi.json", .obj [("paths", .obj [("/pets", .obj [
      ("parameters", .arr [.obj [("name", .str "limit"),
        ("schema", .obj [("type", .str "string")])]]),
      ("get", .obj [("parameters", .arr [.obj (sample "limit" "query" "integer")])])])])])]
    entryPoint := "openapi.json"
    componentRoot := .str "components"
    componentDirectories := [.str "schemas"] }

set_option maxRecDepth 2000 in
/-- The parameter is listed twice, since merging takes a missing location for an empty one and
grouping takes it for the query. -/
theorem mixed_limit_listed_twice :
    (∀ p ∈ [⟨"openapi.json", [("name", .str "limit"), ("schema", .obj [("type", .str "string")])]⟩,
      ⟨"openapi.json", sample "limit" "query" "integer"⟩], IsPlaced p ∧
        slot p = ⟨"query", "limit"⟩) ∧
    ∃ operation s', Context.mixed.operations.run (.initial .mixed) = (.ok [operation], s') ∧
      operation.parameters? = some (.object [
        { name := .str "query"
          type := .object [
            { name := .str "limit", type := .primitive "string", optional := true },
            { name := .str "limit", type := .primitive "integer", optional := true }] none
          optional := true }] none) := by
  refine ⟨?_, _, _, rfl, rfl⟩
  simp only [List.forall_mem_cons]
  exact ⟨⟨⟨rfl, rfl⟩, rfl⟩, ⟨⟨rfl, rfl⟩, rfl⟩, nofun⟩

end ApiTypes
