import ApiTypes.Proofs.TypeExpr.Operators
import ApiTypes.Proofs.TypeExpr.Reader

/-!
# Guarded types are read as they are meant

A type is printed with the parentheses that it needs, as long as no operand without
parentheses has an operator outside brackets that binds less tight than what stands around
the operand. The printer decides from the number of members of the operand, so that is the
condition: a union with a single member that is itself a union of several gets none.
-/

namespace ApiTypes

namespace TypeExpr

open Reader ApiTypes.Symbol

mutual

/-- The normal form of a type. -/
def denote : TypeExpr → Alternatives
  | .missing => [[.name (.word "undefined")]]
  | .any => [[.name (.word "any")]]
  | .null => [[.name (.word "null")]]
  | .primitive name => [[.name (.word (primitiveName name))]]
  | .literals _ values => values.map fun value => [.name (ofLiteral value)]
  | .array item => [[.list item.denote]]
  | .object properties index? =>
    [[.record (denoteProperties properties ++ match index? with
      | some ⟨key, type⟩ => [(indexSymbols key, type.denote)]
      | none => [])]]
  | .union members => (denoteAll members).flatten
  | .intersection members => meet (denoteAll members)
  | .component identifier => [[.name (.word identifier)]]
  | .external name => [[.name (.word name.inText)]]

/-- The normal forms of types. -/
def denoteAll : List TypeExpr → List Alternatives
  | [] => []
  | type :: rest => type.denote :: denoteAll rest

/-- The normal forms of the types of members, each after what stands before it. -/
def denoteProperties : List (Property TypeExpr) → List (List Symbol × Alternatives)
  | [] => []
  | ⟨name, type, optional, readOnly, comment⟩ :: rest =>
    (headingSymbols (⟨name, (), optional, readOnly, comment⟩ : Property Unit), type.denote) ::
      denoteProperties rest

end

/-- Listed types denote what each of them does. -/
theorem denoteAll_eq (types : List TypeExpr) : denoteAll types = types.map denote := by
  induction types with
  | nil => rfl
  | cons type rest ih => rw [denoteAll, ih, List.map_cons]

/-- Properties denote their headings and what their types do. -/
theorem denoteProperties_eq (properties : List (Property TypeExpr)) :
    denoteProperties properties =
      properties.map fun property => (headingSymbols property, property.type.denote) := by
  induction properties with
  | nil => rfl
  | cons property rest ih =>
    rw [denoteProperties, ih, List.map_cons]
    rfl

/-- An object type denotes a record of its entries. -/
theorem denote_object (properties : List (Property TypeExpr))
    (index? : Option (IndexSignature TypeExpr)) :
    (object properties index?).denote =
      [[.record ((entries properties index?).map fun entry => (entry.1, entry.2.denote))]] := by
  cases index? <;> simp [denote, denoteProperties_eq, entries]

/-- A union of a single member has the normal form of the member. -/
theorem denote_union_singleton (member : TypeExpr) : (union [member]).denote = member.denote := by
  simp [denote, denoteAll]

/-- An intersection of a single member has the normal form of the member. -/
theorem denote_intersection_singleton (member : TypeExpr) :
    (intersection [member]).denote = member.denote := rfl

/-- Whether a union, an intersection or a list of literals has members. -/
def hasOperands : TypeExpr → Bool
  | .union members => !members.isEmpty
  | .intersection members => !members.isEmpty
  | .literals _ values => !values.isEmpty
  | _ => true

/-- The operands that are printed without parentheses beside brackets or an ampersand. -/
def bare : TypeExpr → List TypeExpr
  | .array item => if item.needsParentheses then [] else [item]
  | .intersection members =>
    if 1 < members.length then members.filter (!·.isAlternative) else []
  | _ => []

/-- Operands without parentheses are operands. -/
theorem bare_subset_operands (type : TypeExpr) : type.bare ⊆ type.operands := by
  cases type with
  | array item =>
    simp only [bare, operands]
    split <;> simp
  | intersection members =>
    simp only [bare, operands]
    split
    · exact List.filter_subset_self _
    · exact List.nil_subset _
  | _ => exact List.nil_subset _

/-- The operators that bind less tight than what is printed beside the operands. -/
def looser : TypeExpr → List Char
  | .array _ => ['|', '&']
  | .intersection _ => ['|']
  | _ => []

/-- Whether no operand without parentheses has an operator that binds less tight. -/
def isGuarded (type : TypeExpr) : Bool :=
  type.bare.all fun operand => type.looser.all fun operator => !operand.hasOperator operator

/-- A type is guarded just if the text of none of these operands has such an operator outside
brackets. -/
theorem isGuarded_iff {type : TypeExpr} :
    type.isGuarded = true ↔ ∀ operand ∈ type.bare, ∀ operator ∈ type.looser,
      .mark operator ∉ outside 0 operand.symbols := by
  simp [isGuarded, mem_outside_iff]

/-- The symbols of a type are read as its normal form, wherever its operators allow it. -/
structure Reads (type : TypeExpr) : Prop where
  /-- Between bars. -/
  loose : ReadsLoose type.symbols type.denote
  /-- Between ampersands. -/
  factor : type.hasOperator '|' = false → ReadsFactor type.symbols type.denote
  /-- Before brackets. -/
  tight : type.hasOperator '|' = false → type.hasOperator '&' = false →
    ReadsTight type.symbols type.denote

namespace Reads

variable {type member : TypeExpr}

/-- What is read before brackets is read everywhere. -/
theorem of_tight (h : ReadsTight type.symbols type.denote) : Reads type where
  loose := h.factor.loose
  factor _ := h.factor
  tight _ _ := h

/-- A type with an ampersand outside brackets need only be read between ampersands. -/
theorem of_factor (h : ReadsFactor type.symbols type.denote)
    (hand : type.hasOperator '&' = true) : Reads type where
  loose := h.loose
  factor _ := h
  tight _ hno := absurd hand (by simp [hno])

/-- A type with a bar outside brackets need only be read between bars. -/
theorem of_loose (h : ReadsLoose type.symbols type.denote)
    (hor : type.hasOperator '|' = true) : Reads type where
  loose := h
  factor hno := absurd hor (by simp [hno])
  tight hno := absurd hor (by simp [hno])

/-- A type that is printed as another one is read as that. -/
theorem of_eq (h : Reads member) (hsymbols : type.symbols = member.symbols)
    (hdenote : type.denote = member.denote)
    (hoperator : ∀ operator, type.hasOperator operator = member.hasOperator operator) :
    Reads type := by
  constructor <;> rw [hsymbols, hdenote]
  · exact h.loose
  · rw [hoperator]
    exact h.factor
  · rw [hoperator, hoperator]
    exact h.tight

/-- A type is a factor in parentheses, and also without when it has no bar outside. -/
theorem parentheses (h : Reads type) (needed : Bool)
    (hbare : needed = false → type.hasOperator '|' = false) :
    ReadsFactor (enclose type.symbols needed) type.denote := by
  cases needed with
  | false => exact h.factor (hbare rfl)
  | true => exact h.loose.parentheses.factor

end Reads

/-- A literal is read as a name. -/
theorem readsTight_ofLiteral (value : Json) : ReadsTight [ofLiteral value]
    [[.name (ofLiteral value)]] := by
  obtain ⟨text, htext | htext⟩ := ofLiteral_cases value <;> rw [htext]
  · exact readsTight_word text
  · exact readsTight_quoted text

/-- The heading of a property is read as one. -/
theorem readsHeading_property {α : Type} (property : Property α) :
    ReadsHeading (headingSymbols property) := by
  intro frames outer members
  obtain ⟨name, type, optional, readOnly, comment⟩ := property
  obtain ⟨text, htext | htext⟩ := ofName_cases name.inText <;> simp only [headingSymbols, htext]
  all_goals cases optional <;> cases readOnly <;> rfl

/-- The headings of all entries are read as such. -/
theorem readsHeading_entry {properties : List (Property TypeExpr)}
    {index? : Option (IndexSignature TypeExpr)} {entry : List Symbol × TypeExpr}
    (h : entry ∈ entries properties index?) : ReadsHeading entry.1 := by
  simp only [entries, List.mem_append, List.mem_map] at h
  obtain ⟨property, -, rfl⟩ | ⟨index, -, rfl⟩ := h
  · exact readsHeading_property property
  · exact fun _ _ _ => rfl

/-- Listed values are read back. -/
theorem reads_literals {base : String} {values : List Json} (hne : values ≠ []) :
    Reads (.literals base values) := by
  have hloose : ReadsLoose (literals base values).symbols (literals base values).denote := by
    have hvalues : values.map (fun value => [Factor.name (ofLiteral value)]) =
        values.flatMap fun value => [[.name (ofLiteral value)]] := List.map_eq_flatMap
    rw [symbols, denote, hvalues]
    exact readsLoose_bars (fun value _ => (readsTight_ofLiteral value).factor.loose) hne
  cases values with
  | nil => exact absurd rfl hne
  | cons value rest =>
    cases rest with
    | nil => exact .of_tight (readsTight_ofLiteral value)
    | cons next more => exact .of_loose hloose (by simp [hasOperator])

/-- A list is read back when its item is, and it is guarded. -/
theorem reads_array {item : TypeExpr} (h : Reads item) (hguarded : (array item).isGuarded = true) :
    Reads (.array item) := by
  refine .of_tight ?_
  rw [symbols, denote]
  cases hneeded : item.needsParentheses with
  | true => exact h.loose.parentheses.list
  | false =>
    obtain ⟨hor, hand⟩ : item.hasOperator '|' = false ∧ item.hasOperator '&' = false := by
      simpa [isGuarded, bare, looser, hneeded] using hguarded
    exact (h.tight hor hand).list

/-- An object type is read back when the types of its entries are. -/
theorem reads_object {properties : List (Property TypeExpr)}
    {index? : Option (IndexSignature TypeExpr)}
    (h : ∀ operand ∈ (object properties index?).operands, Reads operand) :
    Reads (.object properties index?) := by
  rw [operands_object, List.forall_mem_map] at h
  refine .of_tight ?_
  rw [symbols_object, denote_object]
  exact readsTight_record fun entry hmem => ⟨readsHeading_entry hmem, (h entry hmem).loose⟩

/-- A union is read back when its members are. -/
theorem reads_union {members : List TypeExpr} (h : ∀ member ∈ members, Reads member)
    (hne : members ≠ []) : Reads (.union members) := by
  have hloose : ReadsLoose (union members).symbols (union members).denote := by
    rw [symbols, denote, symbolsOfAll_eq, denoteAll_eq]
    exact readsLoose_bars (fun member hmem => (h member hmem).loose) hne
  cases members with
  | nil => exact absurd rfl hne
  | cons member rest =>
    cases rest with
    | nil =>
      refine (h member (List.mem_singleton_self member)).of_eq ?_ (denote_union_singleton member) ?_
      · simp [symbols, symbolsOfAll]
      · simp [hasOperator, anyHasOperator]
    | cons next more => exact .of_loose hloose (by simp [hasOperator])

/-- An intersection is read back when its members are, and it is guarded. -/
theorem reads_intersection {members : List TypeExpr} (h : ∀ member ∈ members, Reads member)
    (hne : members ≠ []) (hguarded : (intersection members).isGuarded = true) :
    Reads (.intersection members) := by
  cases members with
  | nil => exact absurd rfl hne
  | cons first rest =>
  cases rest with
  | nil =>
    have hfirst := h first (List.mem_singleton_self first)
    cases halternative : first.isAlternative with
    | true =>
      have hsymbols : (intersection [first]).symbols =
          .mark '(' :: first.symbols ++ [.mark ')'] := by
        simp [symbols, symbolsOfFactors, halternative, enclose]
      refine .of_tight ?_
      rw [hsymbols]
      exact hfirst.loose.parentheses
    | false =>
      refine hfirst.of_eq ?_ (denote_intersection_singleton first) ?_
      · simp [symbols, symbolsOfFactors, halternative, enclose]
      · simp [hasOperator, anyExposes, halternative]
  | cons second more =>
    have hbare : ∀ member ∈ first :: second :: more, member.isAlternative = false →
        member.hasOperator '|' = false := fun member hmem halternative => by
      simp only [isGuarded, bare, looser, List.all_eq_true] at hguarded
      have hno := hguarded member (by simpa [halternative] using hmem) '|' (by simp)
      simpa using hno
    refine .of_factor ?_ (by simp [hasOperator])
    rw [symbols, denote, symbolsOfFactors_eq, denoteAll_eq]
    exact readsFactor_ampersands
      (fun member hmem => (h member hmem).parentheses _ (hbare member hmem)) hne

/-- The symbols of a type are read as its normal form, if no operand in it lacks parentheses. -/
theorem reads {type : TypeExpr} (hoperands : ∀ part ∈ type.parts, part.hasOperands = true)
    (hguarded : ∀ part ∈ type.parts, part.isGuarded = true) : Reads type := by
  induction type using operands_induction with
  | step type ih =>
  have hoperand : ∀ operand ∈ type.operands, Reads operand := fun operand hmem =>
    ih operand hmem (fun part hpart => hoperands part (parts_subset_of_mem_operands hmem hpart))
      fun part hpart => hguarded part (parts_subset_of_mem_operands hmem hpart)
  have hself := hoperands type (self_mem_parts type)
  have hguard := hguarded type (self_mem_parts type)
  cases type with
  | literals base values => exact reads_literals (by simpa [hasOperands] using hself)
  | array item => exact reads_array (hoperand item (List.mem_singleton_self item)) hguard
  | object properties index? => exact reads_object hoperand
  | union members => exact reads_union hoperand (by simpa [hasOperands] using hself)
  | intersection members =>
    exact reads_intersection hoperand (by simpa [hasOperands] using hself) hguard
  | _ => exact .of_tight fun _ _ _ => rfl

end TypeExpr

end ApiTypes
