import ApiTypes.Proofs.Conversion.Node
import ApiTypes.Proofs.Run.Objects
import ApiTypes.Proofs.Schema.Nullable

/-!
# Conversions of nullable schemas

A schema with the mark that it is nullable converts to the union of what it converts to
without the mark and the null type, unless it drops the mark. It fails when it fails without
the mark, with the same failure, and registers the same names.
-/

namespace ApiTypes

/-- A rule that does not look at whether a schema is nullable. -/
def FormatRule.IgnoresNullable (rule : FormatRule) : Prop :=
  ∀ path raw raw', (∀ key, key ≠ "nullable" → Members.get? raw key = Members.get? raw' key) →
    rule.type? path raw = rule.type? path raw'

/-- A rule that names types for formats only looks at the format. -/
theorem FormatRule.ignoresNullable_ofNames (name? : String → Option Json) :
    (FormatRule.ofNames name?).IgnoresNullable := by
  intro path raw raw' h
  simp only [ofNames, Members.get, h "format" (by decide)]

/-- A step gives what another one gives, turned by a function, and registers the same names. -/
structure Run.Turns {α β : Type} (f : α → β) (m : Run α) (m' : Run β) (s : RunState) : Prop where
  /-- Both fail with one failure, or both succeed. -/
  result_eq : (m'.run s).1 = (m.run s).1.map f
  /-- Both leave the same names. -/
  registry_eq : (m'.run s).2.registry = (m.run s).2.registry

namespace Run.Turns

variable {α β : Type} {s : RunState}

theorem refl (m : Run α) : Turns id m m s where
  result_eq := by cases (m.run s).1 <;> rfl
  registry_eq := rfl

/-- The results of steps that give the same are turned at their end. -/
theorem bind_pure {m m' : Run α} (hm : Turns id m m' s) {f : TypeExpr → TypeExpr}
    {g g' : α → TypeExpr} (h : ∀ a, (m.run s).1 = .ok a → g' a = f (g a)) :
    Turns f (m >>= fun a => pure (g a)) (m' >>= fun a => pure (g' a)) s := by
  obtain ⟨hresult, hregistry⟩ := hm
  rcases hrun : m.run s with ⟨result, last⟩
  rcases hrun' : m'.run s with ⟨result', last'⟩
  rw [hrun, hrun'] at hresult hregistry
  rw [hrun] at h
  cases result with
  | error failure =>
    obtain rfl : result' = .error failure := hresult
    constructor
    · rw [run_bind_of_error hrun, run_bind_of_error hrun']
      rfl
    · rw [run_bind_of_error hrun, run_bind_of_error hrun']
      exact hregistry
  | ok a =>
    obtain rfl : result' = .ok a := hresult
    constructor
    · rw [run_bind_of_ok hrun, run_bind_of_ok hrun', run_pure, run_pure, h a rfl]
      rfl
    · rw [run_bind_of_ok hrun, run_bind_of_ok hrun']
      exact hregistry

/-- Steps that follow one calculation. -/
theorem ofExcept_bind {γ : Type} {f : α → β} {result : Except Failure γ} {g : γ → Run α}
    {g' : γ → Run β} (h : ∀ c, result = .ok c → Turns f (g c) (g' c) s) :
    Turns f (Run.ofExcept result >>= g) (Run.ofExcept result >>= g') s := by
  cases result with
  | error failure => exact ⟨rfl, rfl⟩
  | ok c => exact h c rfl

end Run.Turns

namespace Conversion

open Schema Run

variable {context : Context} {follow : Follow} {point path : String} {parent : Json}
  {raw : Members} {s : RunState}

/-- The parent of a node only matters to what is reported. -/
theorem turns_ofNode_parent (parent parent' : Json) (node : Node) :
    Turns id (ofNode context follow point parent node) (ofNode context follow point parent' node)
      s := by
  rw [ofNode_eq_run, ofNode_eq_run]
  rcases nodePlan_parent point node with ⟨plan, hplan⟩ | ⟨nullable?, huntyped⟩
  · rw [hplan, hplan]
    exact .refl _
  · rw [huntyped, huntyped, ← untyped_eq_run, ← untyped_eq_run]
    cases nullable? with
    | some nullable => exact .refl _
    | none => cases parent <;> cases parent' <;> exact ⟨rfl, rfl⟩

theorem turns_ofItems_parent (raw raw' : Members) (items : Items Node) :
    Turns id (ofItems context follow point path raw items)
      (ofItems context follow point path raw' items) s := by
  cases items with
  | schema node => exact turns_ofNode_parent _ _ node
  | other value => cases value <;> exact .refl _

/-- The type of a primitive schema with the mark. -/
theorem primitive_allowNull (hrule : context.formatType?.IgnoresNullable) {raw raw' : Members}
    (hagree : ∀ key, key ≠ "nullable" → raw.get? key = raw'.get? key) {keywords : Keywords}
    (hnone : keywords.nullable? = none) (typeName : String) :
    primitive context path raw' typeName { keywords with nullable? := some true } =
      (primitive context path raw typeName keywords).map (·.orNull true) := by
  have hformat : formatType? context path raw' keywords.format =
      formatType? context path raw keywords.format := by
    rw [formatType?, formatType?, hrule path raw raw' hagree]
  rw [primitive, primitive, hformat, hnone]
  cases formatType? context path raw keywords.format with
  | error failure => rfl
  | ok type? =>
    cases type? with
    | some type => rfl
    | none => cases listedValues? typeName keywords.enumeration with
      | error failure => rfl
      | ok values? => cases values? <;> rfl

/-- A schema of values and the same one with the mark, with the type that they imply, agree
apart from the mark. -/
theorem typed_agree (raw : Members) (key : String) (h : key ≠ "nullable") :
    (typed raw).get? key = (typed (allowNull raw)).get? key := by
  by_cases hkey : key = "type"
  · subst hkey
    rw [typed, typed, has_allowNull raw h, withImpliedType?, withImpliedType?,
      impliedType?_allowNull]
    split
    · rw [get?_allowNull raw h]
    · cases impliedType? raw with
      | none => exact (get?_allowNull raw h).symm
      | some name => simp
  · rw [get?_typed raw hkey, get?_typed _ hkey, get?_allowNull raw h]

/-- A step and the one with the mark: what the first gives is turned into the union with the
null type, unless the schema drops the mark. -/
structure Marks (raw : Members) (m m' : Run TypeExpr) (s : RunState) : Prop where
  /-- The mark is dropped. -/
  drops : DropsNull raw → Turns id m m' s
  /-- The mark counts. -/
  keeps : ¬ DropsNull raw → Turns (·.orNull true) m m' s

theorem Marks.of_drops {m m' : Run TypeExpr} (h : DropsNull raw) (hturns : Turns id m m' s) :
    Marks raw m m' s :=
  ⟨fun _ => hturns, fun hkeeps => absurd h hkeeps⟩

theorem Marks.of_keeps {m m' : Run TypeExpr} (h : ¬ DropsNull raw)
    (hturns : Turns (·.orNull true) m m' s) : Marks raw m m' s :=
  ⟨fun hdrops => absurd hdrops h, fun _ => hturns⟩

/-- The type of an object that keeps the mark, given its members. -/
theorem objectType_allowNull (hvalue : IsValue raw)
    (htype : typeOf? raw = some (.str "object"))
    (hallowed : raw.get? "additionalProperties" ≠ some (.bool true)) {required : List Json}
    (hrequired : (raw.get "required").orNone.elements = .ok required) {types : List TypeExpr}
    (hlength : types.length = (declared raw).length) {s s' : RunState}
    {index? : Option (IndexSignature TypeExpr)}
    (hindex : context.ConvertsIndex point path raw s s' index?) :
    (DropsNull raw → objectType (membersOf required (declared raw) types) index? true =
      objectType (membersOf required (declared raw) types) index? false) ∧
    (¬ DropsNull raw → objectType (membersOf required (declared raw) types) index? true =
      (objectType (membersOf required (declared raw) types) index? false).orNull true) := by
  have hoptional : (membersOf required (declared raw) types).any (·.optional) =
      (declared raw).any fun pair => !required.any (Json.isText pair.1) :=
    any_optional_membersOf hlength
  rw [dropsNull_object_iff hvalue htype hrequired, or_iff_right hallowed]
  cases hindex with
  | nothing hget =>
    refine ⟨fun ⟨⟨additional, hobject⟩, _⟩ => absurd hobject (hget additional), fun _ => rfl⟩
  | schema hget =>
    constructor
    · rintro ⟨_, hall⟩
      have hnone : (membersOf required (declared raw) types).any (·.optional) = false := by
        rw [hoptional, List.any_eq_false]
        simpa using hall
      rw [objectType, objectType, if_neg (by simp [hnone]), if_neg (by simp [hnone])]
    · intro hsome
      have hany : (membersOf required (declared raw) types).any (·.optional) = true := by
        rw [hoptional, List.any_eq_true]
        by_contra hnone
        exact hsome ⟨⟨_, hget⟩, by simpa using hnone⟩
      rw [objectType, objectType, if_pos hany, if_pos hany]
      rfl

/-- The node of a schema of a known type with the mark is converted by the name of that type. -/
theorem ofNode_allowNull {name : String} (h : typeOf? raw = some (.str name))
    (keywords : Keywords) (items : Items Node) (properties : List (String × Node))
    (additional : Additional Node) :
    ofNode context follow point parent (Node.allowNull
        (.value path raw (raw.get? "type") keywords items properties additional)) =
      byTypeName context path { keywords with nullable? := some true } additional
        (fun raw => ofItems context follow point path raw items)
        (objectMembers context follow point properties additional) (typed (allowNull raw))
        name := by
  have hget : raw.get? "type" = (allowNull raw).get? "type" :=
    (get?_allowNull raw (by decide)).symm
  rw [Node.allowNull, hget]
  exact ofNode_of_typeOf? (by rw [typeOf?_allowNull, h])

/-- A schema of which no type is known keeps the mark, which also keeps it from being
reported. -/
theorem turns_untyped (parent : Json) :
    Turns (·.orNull true) (untyped none parent) (untyped (some true) parent) s := by
  cases parent <;> exact ⟨rfl, rfl⟩

section

variable {required : List Json} {nodes : List (String × Node)} {additional : Additional Node}
  {items : Items Node}

/-- An object that has members is converted through the same members with the mark. -/
theorem turns_object (hnullable : raw.has "nullable" = false)
    (htype : typeOf? raw = some (.str "object"))
    (hnodes : parsePropertiesOf path raw = .ok nodes)
    (hread : ReadsAdditional path raw additional) (hallowed : additional ≠ .allowed true)
    {f : TypeExpr → TypeExpr} (hf : ∀ (types : List TypeExpr) index? middle s',
      types.length = (declared raw).length →
      context.ConvertsIndex point path raw middle s' index? →
      objectType (membersOf required (declared raw) types) index? true =
        f (objectType (membersOf required (declared raw) types) index? false)) :
    Turns f
      (ofNode context (context.following (.obj raw)) point parent
        (.value path raw (raw.get? "type") (keywords raw required) items nodes additional))
      (ofNode context (context.following (.obj raw)) point parent (Node.allowNull
        (.value path raw (raw.get? "type") (keywords raw required) items nodes additional))) s := by
  have hmembers (names : List Json) :
      objectMembers context (context.following (.obj raw)) point nodes additional
          (typed (allowNull raw)) names =
        objectMembers context (context.following (.obj raw)) point nodes additional (typed raw)
          names := by
    rw [objectMembers, objectMembers, get_typed _ (by decide), get_typed _ (by decide),
      get_allowNull raw (by decide)]
  rw [ofNode_of_typeOf? htype, ofNode_allowNull htype, byTypeName_object hallowed,
    byTypeName_object hallowed, nullable?_keywords hnullable]
  refine .ofExcept_bind fun names hnames => ?_
  have hnames : requiredNames required = .ok names := hnames
  have hrequired := gives_requiredNames required
  rw [hnames] at hrequired
  obtain rfl : names = required := hrequired
  simp only [hmembers]
  refine .bind_pure (.refl _) fun a ha => ?_
  obtain ⟨properties, index?⟩ := a
  rcases hrun : (objectMembers context (context.following (.obj raw)) point nodes additional
    (typed raw) names).run s with ⟨result, s'⟩
  rw [hrun] at ha
  subst ha
  obtain ⟨types, middle, htypes, rfl, hindex⟩ :=
    Context.exists_types_of_objectMembers_ok hnodes hread hrun
  exact hf types index? middle s' (Run.length_of_mapM_ok htypes) hindex

/-- An object and the same one with the mark. -/
theorem marks_object (hvalue : IsValue raw) (hnullable : raw.has "nullable" = false)
    (htype : typeOf? raw = some (.str "object"))
    (hnodes : parsePropertiesOf path raw = .ok nodes)
    (hrequired : (raw.get "required").orNone.elements = .ok required)
    (hread : ReadsAdditional path raw additional) :
    Marks raw
      (ofNode context (context.following (.obj raw)) point parent
        (.value path raw (raw.get? "type") (keywords raw required) items nodes additional))
      (ofNode context (context.following (.obj raw)) point parent (Node.allowNull
        (.value path raw (raw.get? "type") (keywords raw required) items nodes additional))) s := by
  by_cases hallowed : additional = .allowed true
  · subst hallowed
    rw [ofNode_of_typeOf? htype, ofNode_allowNull htype]
    cases hread with
    | allowed hget => exact .of_drops (.anyObject hvalue htype hget) (.refl _)
  · have hget : raw.get? "additionalProperties" ≠ some (.bool true) := by
      intro hget
      cases hread with
      | allowed hflag => exact hallowed (by cases hget.symm.trans hflag; rfl)
      | schema hobject => cases hget.symm.trans hobject
      | unspecified hflag => exact hflag true hget
    constructor
    · intro hdrops
      exact turns_object hnullable htype hnodes hread hallowed fun _ _ _ _ hlength hindex =>
        (objectType_allowNull hvalue htype hget hrequired hlength hindex).1 hdrops
    · intro hkeeps
      exact turns_object hnullable htype hnodes hread hallowed fun _ _ _ _ hlength hindex =>
        (objectType_allowNull hvalue htype hget hrequired hlength hindex).2 hkeeps

/-- A schema of values and the same one with the mark. -/
theorem marks_value (hrule : context.formatType?.IgnoresNullable) (hne : raw ≠ [])
    (hnullable : raw.has "nullable" = false)
    (hlist : ∀ types, raw.get? "type" ≠ some (.arr types)) (hvalue : IsValue raw)
    (hnodes : parsePropertiesOf path raw = .ok nodes)
    (hrequired : (raw.get "required").orNone.elements = .ok required)
    (hread : ReadsAdditional path raw additional) :
    Marks raw
      (ofNode context (context.following (.obj raw)) point parent
        (.value path raw (raw.get? "type") (keywords raw required) items nodes additional))
      (ofNode context (context.following (.obj raw)) point parent (Node.allowNull
        (.value path raw (raw.get? "type") (keywords raw required) items nodes additional))) s := by
  cases htype : typeOf? raw with
  | none =>
    rw [ofNode_of_untyped hne htype, Node.allowNull, ← get?_allowNull raw (by decide),
      ofNode_of_untyped (allowNull_ne_nil raw) ((typeOf?_allowNull raw).trans htype),
      nullable?_keywords hnullable]
    exact .of_keeps (not_dropsNull_of_untyped htype) (turns_untyped parent)
  | some type =>
    by_cases hname : ∃ name ∈ typeNames, type = .str name
    · obtain ⟨name, hmem, rfl⟩ := hname
      rw [typeNames, List.mem_cons, List.mem_cons, List.mem_cons] at hmem
      obtain rfl | rfl | rfl | hprimitive := hmem
      · rw [ofNode_of_typeOf? htype, ofNode_allowNull htype]
        exact .of_drops (.null hvalue htype) (.refl _)
      · rw [ofNode_of_typeOf? htype, ofNode_allowNull htype]
        refine .of_keeps (not_dropsNull htype (by decide)) ?_
        refine .bind_pure (turns_ofItems_parent _ _ items) fun item _ => ?_
        rw [nullable?_keywords hnullable]
        rfl
      · exact marks_object hvalue hnullable htype hnodes hrequired hread
      · rw [ofNode_of_typeOf? htype, ofNode_allowNull htype, byTypeName_primitive hprimitive,
          byTypeName_primitive hprimitive, primitive_allowNull hrule (typed_agree raw)
            (nullable?_keywords hnullable required)]
        refine .of_keeps (not_dropsNull htype (by simp [hprimitive])) ?_
        cases primitive context path (typed raw) name (keywords raw required) <;> exact ⟨rfl, rfl⟩
    · have hunknown : ∀ name ∈ typeNames, type ≠ .str name := by
        simpa using hname
      rw [ofNode_of_unknown htype hlist hunknown, Node.allowNull, ← get?_allowNull raw (by decide),
        ofNode_of_unknown ((typeOf?_allowNull raw).trans htype)
          (by rwa [get?_allowNull raw (by decide)]) hunknown]
      exact .of_drops (.unknown hvalue htype hunknown) (.refl _)

end

/-- A composition and the same one with the mark. -/
theorem marks_composition {kind : Composition} (hkind : Counts raw kind) (nodes : List Node) :
    Marks raw
      (ofNode context follow point parent (.composition path raw kind nodes false))
      (ofNode context follow point parent
        (Node.allowNull (.composition path raw kind nodes false))) s := by
  refine .of_keeps (fun hdrops => hdrops.isValue.not_counts kind hkind) ?_
  rw [Node.allowNull, ofNode, ofNode]
  exact .bind_pure (.refl _) fun types _ => rfl

/-- A node that is read from a schema, and from the same one with the mark. -/
theorem marks_of_parse_ok (hrule : context.formatType?.IgnoresNullable) (hne : raw ≠ [])
    (hplain : raw.has "$ref" = false) (hnullable : raw.has "nullable" = false)
    (hlist : ∀ types, raw.get? "type" ≠ some (.arr types)) {node : Node}
    (hnode : parse path (.obj raw) = .ok node) :
    Marks raw (ofNode context (context.following (.obj raw)) point parent node)
      (ofNode context (context.following (.obj raw)) point parent node.allowNull) s := by
  rcases reference_or_composition_or_value raw with href | ⟨_, kind, hkind⟩ | hvalue
  · rw [hplain] at href
    cases href
  · rw [parse_composition_eq hplain hkind] at hnode
    obtain ⟨nodes, _, hpure⟩ := Calculation.exists_of_bind_ok hnode
    have hfalse : (raw.get "nullable").truthy = false := by
      rw [Members.get, Members.get?_eq_none_of_has hnullable]
      rfl
    rw [hfalse] at hpure
    cases hpure
    exact marks_composition hkind nodes
  · obtain ⟨items, nodes, required, additional, _, hnodes, hrequired, hread, rfl⟩ :=
      exists_parts_of_parse_ok hvalue hnode
    exact marks_value hrule hne hnullable hlist hvalue hnodes hrequired
      (readsAdditional_of_parseAdditionalOf_ok hread)

end Conversion

namespace Context

open Conversion Schema

variable {context : Context} {point path : String} {parent : Json} {raw : Members}

/-- The conversion of a schema, and that of the same one with the mark. -/
theorem marks_convertSchema (hrule : context.formatType?.IgnoresNullable) (hne : raw ≠ [])
    (hplain : raw.has "$ref" = false) (hnullable : raw.has "nullable" = false)
    (hlist : ∀ types, raw.get? "type" ≠ some (.arr types)) (s : RunState) :
    Marks raw (context.convertSchema point (.obj raw) path parent)
      (context.convertSchema point (.obj (allowNull raw)) path parent) s := by
  have hnested : maxNested context (.obj (allowNull raw)) = maxNested context (.obj raw) := by
    rw [maxNested, maxNested, refs_allowNull hnullable]
  rw [convertSchema, convertSchema, hnested]
  have hparse (schema : Json) :
      within context Run.expanding (maxNested context (.obj raw) + 1) point parent path schema =
        (do
          let node ← parse path schema
          ofNode context (context.following (.obj raw)) point parent node) := rfl
  rw [hparse, hparse, parse_allowNull hplain]
  cases hnode : parse path (.obj raw) with
  | error failure => exact ⟨fun _ => ⟨rfl, rfl⟩, fun _ => ⟨rfl, rfl⟩⟩
  | ok node => exact marks_of_parse_ok hrule hne hplain hnullable hlist hnode

/-- Whether a schema is nullable commutes with its conversion. The rule of formats must not
look at the mark. -/
theorem convertSchema_allowNull (hrule : context.formatType?.IgnoresNullable) (hne : raw ≠ [])
    (hplain : raw.has "$ref" = false) (hnullable : raw.has "nullable" = false)
    (hlist : ∀ types, raw.get? "type" ≠ some (.arr types)) {s last last' : RunState}
    {result result' : Except Failure TypeExpr}
    (hrun : (context.convertSchema point (.obj raw) path parent).run s = (result, last))
    (hrun' : (context.convertSchema point (.obj (allowNull raw)) path parent).run s =
      (result', last')) :
    (∀ failure, result' = .error failure ↔ result = .error failure) ∧
      (∀ type, result = .ok type → (DropsNull raw → result' = .ok type) ∧
        (¬ DropsNull raw → result' = .ok (.union [type, .null]))) ∧
      last'.registry = last.registry := by
  have hmarks : Marks raw (context.convertSchema point (.obj raw) path parent)
      (context.convertSchema point (.obj (allowNull raw)) path parent) s :=
    marks_convertSchema hrule hne hplain hnullable hlist s
  have hresult {f : TypeExpr → TypeExpr}
      (hturns : Run.Turns f (context.convertSchema point (.obj raw) path parent)
        (context.convertSchema point (.obj (allowNull raw)) path parent) s) :
      result' = result.map f ∧ last'.registry = last.registry := by
    simpa only [hrun, hrun'] using And.intro hturns.result_eq hturns.registry_eq
  by_cases hraw : DropsNull raw
  · obtain ⟨rfl, hregistry⟩ := hresult (hmarks.drops hraw)
    refine ⟨fun failure => ?_, ?_, hregistry⟩
    · cases result <;> simp [Except.map]
    · rintro type rfl
      exact ⟨fun _ => rfl, absurd hraw⟩
  · obtain ⟨rfl, hregistry⟩ := hresult (hmarks.keeps hraw)
    refine ⟨fun failure => ?_, ?_, hregistry⟩
    · cases result <;> simp [Except.map]
    · rintro type rfl
      exact ⟨fun hdrops => absurd hdrops hraw, fun _ => rfl⟩

end Context

/-- The objects with two properties can be null: the null type stands beside both parts. -/
theorem tagged_allowNull : ∃ type last last',
    (Context.tags.convertSchema "openapi.json" (.obj Members.tagged) "#").run
      (.initial Context.tags) = (.ok type, last) ∧
    (Context.tags.convertSchema "openapi.json" (.obj (Schema.allowNull Members.tagged)) "#").run
      (.initial Context.tags) = (.ok (.union [type, .null]), last') ∧
    last'.registry = last.registry := by
  obtain ⟨type, last, hrun⟩ : ∃ type last,
      (Context.tags.convertSchema "openapi.json" (.obj Members.tagged) "#").run
        (.initial Context.tags) = (.ok type, last) := ⟨_, _, rfl⟩
  rcases hrun' : (Context.tags.convertSchema "openapi.json"
    (.obj (Schema.allowNull Members.tagged)) "#").run (.initial Context.tags) with ⟨result', last'⟩
  obtain ⟨_, htype, hregistry⟩ := Context.convertSchema_allowNull
    (FormatRule.ignoresNullable_ofNames _) (by decide) rfl rfl (by nofun) hrun hrun'
  have hvalue : Schema.IsValue Members.tagged := ⟨rfl, fun kind => by cases kind <;> rfl⟩
  have hkeeps : ¬ Schema.DropsNull Members.tagged := by
    rw [Schema.dropsNull_object_iff hvalue rfl rfl]
    rintro (hget | ⟨_, hall⟩)
    · cases hget
    · exact absurd (hall ("tag", _) (.tail _ (.head _))) (by decide)
  exact ⟨type, last, last', hrun, congrArg (·, last') ((htype type rfl).2 hkeeps), hregistry⟩

end ApiTypes
