import ApiTypes.Operation.Collect
import ApiTypes.Proofs.Run.Conversions

/-!
# Collecting operations does no more than it may

Operations are collected from path items, parameters, bodies and responses, any of
which may be references. What is read of them is always a part of the object that was
found last, in the document that holds it. Every type of a collected operation is
settled: that of its parameters, which are put into an object type, and those of its
bodies.
-/

namespace ApiTypes

/-! ### References in the parts of values -/

namespace Json

/-- Members are those of an object. -/
theorem gives_members (value : Json) :
    Gives (fun members => value = .obj members) value.members := by
  cases value <;> trivial

/-- Elements have no other references than the value. -/
theorem gives_elements_refs (value : Json) :
    Gives (fun items => ∀ item ∈ items, item.refs ⊆ value.refs) value.elements := by
  cases value with
  | arr items => exact fun item hmem => refs_subset_of_mem_items hmem
  | obj members =>
    intro item hmem
    obtain ⟨_, _, rfl⟩ := List.mem_map.mp hmem
    exact List.nil_subset _
  | str text =>
    intro item hmem
    obtain ⟨_, _, rfl⟩ := List.mem_map.mp hmem
    exact List.nil_subset _
  | _ => trivial

/-- Nothing has no references. -/
theorem refs_orEmpty_subset (value : Json) : value.orEmpty.refs ⊆ value.refs := by
  unfold orEmpty
  split
  · exact List.Subset.refl _
  · exact List.nil_subset _

/-- No elements have no references. -/
theorem refs_orNone_subset (value : Json) : value.orNone.refs ⊆ value.refs := by
  unfold orNone
  split
  · exact List.Subset.refl _
  · exact List.nil_subset _

end Json

namespace Members

/-- The value of a key has no other references than the object. -/
theorem refs_get?_subset {members : Members} {key : String} {value : Json}
    (h : members.get? key = some value) : value.refs ⊆ (Json.obj members).refs :=
  Json.refs_subset_of_mem_members (mem_of_get? h)

/-- So has the value of a key that may be missing. -/
theorem refs_get_subset (members : Members) (key : String) :
    (members.get key).refs ⊆ (Json.obj members).refs := by
  unfold get
  cases hvalue : members.get? key with
  | none => exact List.nil_subset _
  | some value => exact refs_get?_subset hvalue

/-- The value of a key of an object that a value may be. -/
theorem refs_subset_of_members? {value found : Json} {key : String}
    (h : value.members?.bind (·.get? key) = some found) : found.refs ⊆ value.refs := by
  obtain ⟨members, hmembers, hfound⟩ := Option.bind_eq_some_iff.mp h
  cases value with
  | obj members' =>
    cases hmembers
    exact refs_get?_subset hfound
  | _ => cases hmembers

end Members

namespace Parameter

/-- The schema of a parameter has no other references than the parameter. -/
theorem gives_schema (members : Members) :
    Gives (fun found => found.refs ⊆ (Json.obj members).refs) (schema members) := by
  unfold schema
  split
  · refine (Json.gives_members _).bind fun content hcontent => ?_
    have hsubset : (Json.obj content).refs ⊆ (Json.obj members).refs := hcontent ▸
      List.Subset.trans (Json.refs_orEmpty_subset _) (Members.refs_get_subset members "content")
    refine List.Subset.trans ?_ hsubset
    unfold contentSchema
    split
    · rename_i found hfound
      obtain ⟨pair, hpair, hschema⟩ := List.exists_of_findSome?_eq_some hfound
      exact List.Subset.trans (Members.refs_subset_of_members? hschema)
        (Json.refs_subset_of_mem_members hpair)
    · exact List.nil_subset _
  · exact Members.refs_get_subset members "schema"

end Parameter

namespace Reading.Allows

variable {R : Reading} {point : String} {value : Json} {members : Members}

/-- What is under a key of an object may be read like the object. -/
theorem get (h : R.Allows point (.obj members)) (key : String) :
    R.Allows point (Members.get members key) :=
  h.of_subset (Members.refs_get_subset members key)

/-- An object in the place of nothing may be read like the value. -/
theorem orEmpty (h : R.Allows point value) : R.Allows point value.orEmpty :=
  h.of_subset value.refs_orEmpty_subset

/-- A list in the place of nothing may be read like the value. -/
theorem orNone (h : R.Allows point value) : R.Allows point value.orNone :=
  h.of_subset value.refs_orNone_subset

/-- So may what is under all of its keys. -/
theorem pairs (h : R.Allows point value) (hmembers : value = .obj members) :
    ∀ pair ∈ members, R.Allows point pair.2 :=
  fun _ hmem => h.of_subset (hmembers ▸ Json.refs_subset_of_mem_members hmem)

end Reading.Allows

/-- The names of the parameters in the path are calculated. -/
theorem Context.gives_pathParameterNames (parameters : List LocatedParameter) :
    Gives (fun _ => True) (Context.pathParameterNames parameters) := by
  induction parameters with
  | nil => trivial
  | cons parameter rest ih =>
    rw [Context.pathParameterNames]
    split
    · split
      · exact ih.bind fun _ _ => trivial
      · trivial
    · exact ih

/-! ### Types of operations -/

/-- The types of bodies. -/
def Content.types (content : Content) : List TypeExpr := content.map (·.2)

/-- The types of an operation: that of its parameters, those of its request
bodies and those of its responses. -/
def Operation.types (operation : Operation) : List TypeExpr :=
  operation.parameters?.toList ++ operation.requestBodies.types ++
    operation.responses.flatMap fun response => response.2.types

namespace Parameter

variable {P : TypeExpr → Prop}

/-- The types in groups of parameters have a property. -/
def GroupsHave (P : TypeExpr → Prop) (groups : List (Json × List (Property TypeExpr))) : Prop :=
  ∀ group ∈ groups, ∀ member ∈ group.2, P member.type

/-- They still have it when a member is put into its group. -/
theorem groupsHave_addToGroup {groups : List (Json × List (Property TypeExpr))}
    (h : GroupsHave P groups) (location : Json) {member : Property TypeExpr}
    (hmember : P member.type) : GroupsHave P (addToGroup location member groups) := by
  induction groups with
  | nil =>
    intro group hgroup other hother
    obtain rfl := List.mem_singleton.mp hgroup
    obtain rfl := List.mem_singleton.mp hother
    exact hmember
  | cons first rest ih =>
    obtain ⟨firstLocation, members⟩ := first
    have hrest : GroupsHave P rest := fun group hgroup => h group (List.mem_cons_of_mem _ hgroup)
    have hfirst := h (firstLocation, members) (List.mem_cons_self ..)
    rw [addToGroup]
    split
    · intro group hgroup other hother
      rcases List.mem_cons.mp hgroup with rfl | hgroup
      · rcases List.mem_append.mp hother with hother | hother
        · exact hfirst other hother
        · obtain rfl := List.mem_singleton.mp hother
          exact hmember
      · exact hrest group hgroup other hother
    · intro group hgroup
      rcases List.mem_cons.mp hgroup with rfl | hgroup
      · exact hfirst
      · exact ih hrest group hgroup

/-- Putting groups in order makes no new ones. -/
theorem orderGroups_subset (groups : List (Json × List (Property TypeExpr))) :
    orderGroups groups ⊆ groups := by
  intro group hmem
  rcases List.mem_append.mp hmem with hmem | hmem
  · obtain ⟨location, _, hmem⟩ := List.mem_flatMap.mp hmem
    exact (List.mem_filter.mp hmem).1
  · exact (List.mem_filter.mp hmem).1

/-- A name in the type of the parameters is in the type of one of them. -/
theorem names_parameters {groups : List (Json × List (Property TypeExpr))} {name : TypeName}
    (h : name ∈ (TypeExpr.object ((orderGroups groups).map groupProperty) none).names) :
    ∃ group ∈ groups, ∃ member ∈ group.2, name ∈ member.type.names := by
  simp only [TypeExpr.names, List.append_nil, TypeExpr.namesOfProperties_eq, List.mem_flatMap,
    List.mem_map] at h
  obtain ⟨_, ⟨group, hgroup, rfl⟩, hname⟩ := h
  simp only [groupProperty, TypeExpr.names, List.append_nil, TypeExpr.namesOfProperties_eq,
    List.mem_flatMap] at hname
  obtain ⟨member, hmember, hname⟩ := hname
  exact ⟨group, orderGroups_subset groups hgroup, member, hmember, hname⟩

end Parameter

/-- A registry settles the types of operations. -/
def Context.SettlesAll (context : Context) (r : Registry) (operations : List Operation) : Prop :=
  ∀ operation ∈ operations, ∀ type ∈ operation.types, context.Settles r type

/-- The types stay settled. -/
theorem Context.SettlesAll.mono {context : Context} {r r' : Registry}
    {operations : List Operation} (h : context.SettlesAll r operations)
    (hentries : r.entries <+: r'.entries) : context.SettlesAll r' operations :=
  fun operation hmem type htype => (h operation hmem type htype).mono hentries

/-! ### From single parameters to all operations -/

namespace Run.Does

variable {context : Context} {may : Permission} {s : RunState} {point : String}

/-- The members of a value are those of an object. -/
theorem members (value : Json) :
    Does context may (fun _ members => value = .obj members) (Run.ofExcept value.members) s :=
  ofExcept value.gives_members

/-- The elements of a value have no other references than the value. -/
theorem elements (value : Json) :
    Does context may (fun _ items => ∀ item ∈ items, item.refs ⊆ value.refs)
      (Run.ofExcept value.elements) s :=
  ofExcept value.gives_elements_refs

/-- Following references from object to object leads to an object in its own
document. -/
theorem dereferenceWithin (hcovers : may.reads.Covers context.graph) {n : Nat}
    (hroom : may.Room n s.inFlight) {value : Json} (hallows : may.reads.Allows point value) :
    Does context may (fun _ located => may.reads.Allows located.point located.value)
      (context.dereferenceWithin n point value) s := by
  induction n generalizing s point value with
  | zero => exact exhausted hroom
  | succ n ih =>
    unfold Context.dereferenceWithin
    split
    · exact pure hallows
    · rename_i ref href
      have hread : ∀ written, ref = .str written → may.reads point written := by
        rintro written rfl
        refine hallows written ?_
        cases value with
        | obj members =>
          have hget : Members.get? members "$ref" = some (.str written) := href
          simp [Json.refs, hget]
        | _ => cases href
      refine (classify hread).bind fun reference s₁ _ hprogress hreference => ?_
      obtain ⟨written, _, hwritten, hdocument, hpath, _⟩ := hreference
      have hleads : may.reads.LeadsTo reference.canonicalPath :=
        ⟨point, written, hwritten, by rw [Reference.canonicalPath, hdocument, hpath]; rfl⟩
      refine expanding hleads fun hnew => ?_
      have hopens : may.Opens (s₁.entering reference.canonicalPath).registry
          reference.documentPoint := .inr (.inl ⟨point, written, hwritten, hdocument⟩)
      have hnext (target : Json) (s₂ : RunState)
          (hprogress' : (s₁.entering reference.canonicalPath).Progress context may s₂)
          (segments : List String)
          (htarget : context.graph.lookup reference.documentPoint segments = .ok target) :
          Does context may (fun _ located => may.reads.Allows located.point located.value)
            (context.dereferenceWithin n reference.documentPoint target) s₂ := by
        refine ih ?_ (hcovers.allows_lookup htarget)
        rw [hprogress'.inFlight_eq]
        exact (hprogress.inFlight_eq ▸ hroom).enter hnew hleads
      dsimp only
      split
      · exact (document hopens).bind fun target s₂ _ hprogress' => hnext target s₂ hprogress' []
      · exact (lookup hopens _).bind fun target s₂ _ hprogress' => hnext target s₂ hprogress' _

section Operations

variable (hR : may.Suits context)

include hR

/-- The allowance for following references is enough. -/
theorem dereference {value : Json} (hallows : may.reads.Allows point value) :
    Does context may (fun _ located => may.reads.Allows located.point located.value)
      (context.dereference point value) s :=
  dereferenceWithin hR.covers ((hR.atMost value).room _) hallows

/-- A schema of an operation is converted to a settled type. -/
theorem convertPart {schema : Json} (hallows : may.reads.Allows point schema) :
    Does context may context.Settles (context.convertPart point schema) s :=
  convert hR.covers _ (hR.atMost schema) hallows _

/-- Parameters that are merged stay in their documents. -/
theorem mergeParameters {merged : List LocatedParameter}
    (hmerged : ∀ parameter ∈ merged, may.reads.Allows parameter.point (.obj parameter.members))
    {parameters : List Json}
    (hallows : ∀ parameter ∈ parameters, may.reads.Allows point parameter) :
    Does context may (fun _ merged =>
        ∀ parameter ∈ merged, may.reads.Allows parameter.point (.obj parameter.members))
      (context.mergeParameters point merged parameters) s := by
  induction parameters generalizing s merged with
  | nil => exact pure hmerged
  | cons parameter rest ih =>
    rw [List.forall_mem_cons] at hallows
    refine (dereference hR hallows.1).bind fun located _ _ _ hlocated => ?_
    refine (members _).bind fun found _ _ _ hfound => ?_
    split
    · refine ih (fun other hmem => ?_) hallows.2
      rcases Parameter.mem_put hmem with rfl | hmem
      · exact hfound ▸ hlocated
      · exact hmerged other hmem
    · exact throw trivial

/-- Groups of settled types stay so when parameters are put into them. -/
theorem groupParameters {groups : List (Json × List (Property TypeExpr))}
    {parameters : List LocatedParameter}
    (hallows : ∀ parameter ∈ parameters,
      may.reads.Allows parameter.point (.obj parameter.members)) :
    Does context may (fun r found => Parameter.GroupsHave (context.Settles s.registry) groups →
        Parameter.GroupsHave (context.Settles r) found)
      (context.groupParameters groups parameters) s := by
  induction parameters generalizing s groups with
  | nil => exact pure id
  | cons parameter rest ih =>
    rw [List.forall_mem_cons] at hallows
    refine (ofExcept (Parameter.gives_schema parameter.members)).bind
      fun schema s₁ _ hprogress hschema => ?_
    refine (convertPart hR ?_).bind fun type s₂ _ hprogress' htype => ?_
    · refine hallows.1.of_subset ?_
      split
      · exact List.nil_subset _
      · exact hschema
    · refine (ih hallows.2).weaken fun r found hfound hgroups => hfound ?_
      refine Parameter.groupsHave_addToGroup (fun group hgroup member hmember => ?_) _ htype
      exact (hgroups group hgroup member hmember).mono
        (hprogress.trans hprogress').entries_isPrefix

/-- The type of the parameters is settled when the types in the groups are. -/
theorem convertParameters {parameters : List LocatedParameter}
    (hallows : ∀ parameter ∈ parameters,
      may.reads.Allows parameter.point (.obj parameter.members)) :
    Does context may (fun r type? => ∀ type ∈ type?, context.Settles r type)
      (context.convertParameters parameters) s := by
  unfold Context.convertParameters
  split
  · exact pure nofun
  · refine (groupParameters hR hallows).give fun r groups hgroups => ?_
    rintro _ ⟨⟩
    apply Context.Settles.of_names
    intro name hname
    obtain ⟨group, hgroup, member, hmember, hname⟩ := Parameter.names_parameters hname
    exact ⟨member.type, hgroups (fun _ hnone => nomatch hnone) group hgroup member hmember, hname⟩

/-- The types of a body are settled. -/
theorem convertContent {content : List (String × Json)}
    (hallows : ∀ pair ∈ content, may.reads.Allows point pair.2) :
    Does context may (fun r content => ∀ type ∈ content.types, context.Settles r type)
      (context.convertContent point content) s := by
  induction content generalizing s with
  | nil => exact pure nofun
  | cons first rest ih =>
    rw [List.forall_mem_cons] at hallows
    unfold Context.convertContent
    split
    · exact ih hallows.2
    · rename_i schema hschema
      have hpart := hallows.1.of_subset (Members.refs_subset_of_members? hschema)
      refine (convertPart hR hpart).bind fun type s₁ _ _ htype => ?_
      refine (ih hallows.2).bind fun others s₂ _ hprogress hothers => pure fun other hother => ?_
      rcases List.mem_cons.mp hother with rfl | hother
      · exact htype.mono hprogress.entries_isPrefix
      · exact hothers other hother

/-- So are those of a body to which references lead. -/
theorem convertBody {body : Json} (hallows : may.reads.Allows point body) :
    Does context may (fun r content => ∀ type ∈ content.types, context.Settles r type)
      (context.convertBody point body) s := by
  refine (dereference hR hallows).bind fun located _ _ _ hlocated => ?_
  refine (members _).bind fun found _ _ _ hfound => ?_
  rw [hfound] at hlocated
  refine (members _).bind fun content _ _ _ hcontent => convertContent hR ?_
  exact ((hlocated.get "content").orEmpty).pairs hcontent

/-- So are those of a request body that may be missing. -/
theorem convertRequestBody {body : Json} (hallows : may.reads.Allows point body) :
    Does context may (fun r content => ∀ type ∈ content.types, context.Settles r type)
      (context.convertRequestBody point body) s := by
  unfold Context.convertRequestBody
  split
  · exact pure fun _ hmem => nomatch hmem
  · exact convertBody hR hallows

/-- So are those of all responses. -/
theorem convertResponses {responses : List (String × Json)}
    (hallows : ∀ pair ∈ responses, may.reads.Allows point pair.2) :
    Does context may (fun r responses => ∀ response ∈ responses,
        ∀ type ∈ Content.types response.2, context.Settles r type)
      (context.convertResponses point responses) s := by
  induction responses generalizing s with
  | nil => exact pure fun _ hmem => nomatch hmem
  | cons first rest ih =>
    rw [List.forall_mem_cons] at hallows
    refine (convertBody hR hallows.1).bind fun content s₁ _ _ hcontent => ?_
    refine (ih hallows.2).bind fun others s₂ _ hprogress hothers => pure fun other hother => ?_
    split at hother
    · exact hothers other hother
    · rcases List.mem_cons.mp hother with rfl | hother
      · exact fun type htype => (hcontent type htype).mono hprogress.entries_isPrefix
      · exact hothers other hother

/-- All types of an operation are settled, with its parameters put over those of the
path. -/
theorem collectOperation (path method : String) {operation shared : Json}
    (hallows : may.reads.Allows point operation) (hshared : may.reads.Allows point shared) :
    Does context may (fun r operation => ∀ type ∈ operation.types, context.Settles r type)
      (context.collectOperation point path method operation shared) s := by
  refine (members operation).bind fun found _ _ _ hfound => ?_
  rw [hfound] at hallows
  refine (elements shared).bind fun before _ _ _ hbefore => ?_
  refine (elements _).bind fun own _ _ _ hown => ?_
  have hparameters : ∀ parameter ∈ before ++ own, may.reads.Allows point parameter := by
    intro parameter hmem
    rcases List.mem_append.mp hmem with hmem | hmem
    · exact hshared.of_subset (hbefore parameter hmem)
    · exact (hallows.get "parameters").orNone.of_subset (hown parameter hmem)
  have hnone : ∀ parameter ∈ ([] : List LocatedParameter),
      may.reads.Allows parameter.point (.obj parameter.members) := fun _ hmem => nomatch hmem
  refine (mergeParameters hR hnone hparameters).bind fun parameters _ _ _ hmerged => ?_
  refine (ofExcept (Context.gives_pathParameterNames parameters)).andThen fun names _ => ?_
  refine (convertParameters hR hmerged).bind fun type? s₁ _ _ htype? => ?_
  refine (convertRequestBody hR (hallows.get "requestBody")).bind
    fun requestBodies s₂ _ hprogress₂ hrequestBodies => ?_
  refine (members _).bind fun responses s₃ _ hprogress₃ hresponses => ?_
  have hpairs := ((hallows.get "responses").orEmpty).pairs hresponses
  refine (convertResponses hR hpairs).bind fun converted s₄ _ hprogress₄ hconverted => ?_
  refine pure fun type htype => ?_
  have hlast := (hprogress₃.trans hprogress₄).entries_isPrefix
  rcases List.mem_append.mp htype with htype | htype
  · rcases List.mem_append.mp htype with htype | htype
    · exact ((htype? type (Option.mem_toList.mp htype)).mono hprogress₂.entries_isPrefix).mono hlast
    · exact (hrequestBodies type htype).mono hlast
  · obtain ⟨response, hresponse, htype⟩ := List.mem_flatMap.mp htype
    exact hconverted response hresponse type htype

/-- The operations of a path item are settled, whichever methods it has. -/
theorem collectMethods (path : String) {item : Members} {shared : Json}
    (hallows : may.reads.Allows point (.obj item)) (hshared : may.reads.Allows point shared)
    (methods : List String) :
    Does context may context.SettlesAll
      (context.collectMethods point path item shared methods) s := by
  induction methods generalizing s with
  | nil => exact pure fun _ hmem => nomatch hmem
  | cons method rest ih =>
    unfold Context.collectMethods
    split
    · exact ih
    · refine (collectOperation hR path method (hallows.get method) hshared).bind
        fun collected s₁ _ _ hcollected => ?_
      refine ih.bind fun others s₂ _ hprogress hothers => pure fun operation hmem => ?_
      rcases List.mem_cons.mp hmem with rfl | hmem
      · exact fun type htype => (hcollected type htype).mono hprogress.entries_isPrefix
      · exact hothers operation hmem

/-- The operations of all paths are settled, up to one that does not start with a
slash. -/
theorem collectPaths {paths : List (String × Json)}
    (hallows : ∀ pair ∈ paths, may.reads.Allows context.graph.entryPoint pair.2) :
    Does context may context.SettlesAll (context.collectPaths paths) s := by
  induction paths generalizing s with
  | nil => exact pure fun _ hmem => nomatch hmem
  | cons first rest ih =>
    rw [List.forall_mem_cons] at hallows
    unfold Context.collectPaths
    dsimp only
    split
    · refine throw_bind ?_ _
      trivial
    · refine (dereference hR hallows.1).bind fun located _ _ _ hlocated => ?_
      refine (members _).bind fun item _ _ _ hitem => ?_
      rw [hitem] at hlocated
      refine (collectMethods hR _ hlocated (hlocated.get "parameters").orNone _).bind
        fun here s₁ _ _ hhere => ?_
      refine (ih hallows.2).bind fun others s₂ _ hprogress hothers =>
        pure fun operation hmem => ?_
      rcases List.mem_append.mp hmem with hmem | hmem
      · exact hhere.mono hprogress.entries_isPrefix operation hmem
      · exact hothers operation hmem

/-- Collecting the operations of the entry document does no more than it may, and the
operations are settled. -/
theorem operations
    (hroot : may.reads.Allows context.graph.entryPoint context.graph.rootDocument) :
    Does context may context.SettlesAll context.operations s := by
  refine (members _).bind fun root _ _ _ hfound => ?_
  rw [hfound] at hroot
  refine (members _).bind fun paths _ _ _ hpaths => ?_
  refine (collectPaths hR ((hroot.get "paths").orEmpty.pairs hpaths)).bind
    fun collected s₁ _ _ hcollected => ?_
  have harises : Event.Arises may s₁.inFlight s₁.registry (.collected collected.length) :=
    trivial
  exact (record harises).bind fun _ s₂ _ hprogress _ =>
    pure (hcollected.mono hprogress.entries_isPrefix)

end Operations

end Run.Does

end ApiTypes
