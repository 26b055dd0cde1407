import ApiTypes.Proofs.TypeExpr.Precedence
import ApiTypes.Proofs.TypeExpr.Weight

/-!
# Printed types are read as they are meant exactly if they are guarded

The text of every type is read as some type. Where an operand lacks parentheses, that type is
lighter than the one that was printed, and nothing around the operand makes up for it.
-/

namespace ApiTypes

namespace TypeExpr

open Reader ApiTypes.Symbol

/-- Whether parentheses are missing somewhere in a type. -/
def lacksParentheses (type : TypeExpr) : Bool := type.parts.any (!·.isGuarded)

/-- Parentheses are missing at a type itself or inside an operand. -/
theorem lacksParentheses_eq (type : TypeExpr) :
    type.lacksParentheses = (!type.isGuarded || type.operands.any lacksParentheses) := by
  rw [lacksParentheses, parts_eq, List.any_cons, List.any_flatMap]
  rfl

/-- Whether a type is printed with an operator outside all brackets. -/
def isLoose (type : TypeExpr) : Bool := type.hasOperator '|' || type.hasOperator '&'

/-- A type is read as one that is no heavier, and lighter if parentheses are missing in it. -/
def Light (type : TypeExpr) : Prop :=
  ReadsLighter type.symbols type.denote (type.hasOperator '|') type.isLoose type.lacksParentheses

/-- How a type is read may be told from its symbols, its normal form and its operators. -/
theorem Light.of_eq {type : TypeExpr} {symbols : List Symbol} {value : Alternatives}
    {wide loose bad : Bool} (h : ReadsLighter symbols value wide loose bad)
    (hsymbols : type.symbols = symbols) (hdenote : type.denote = value)
    (hwide : type.hasOperator '|' = wide) (hloose : type.isLoose = loose)
    (hbad : type.lacksParentheses = bad) : Light type := by
  rwa [Light, hsymbols, hdenote, hwide, hloose, hbad]

/-- A type has at least one alternative, if its unions and lists of literals are not empty. -/
theorem length_denote_pos {type : TypeExpr}
    (h : ∀ part ∈ type.parts, part.hasOperands = true) : 1 ≤ type.denote.length := by
  induction type using operands_induction with
  | step type ih =>
  have hoperand : ∀ operand ∈ type.operands, 1 ≤ operand.denote.length := fun operand hmem =>
    ih operand hmem fun part hpart => h part (parts_subset_of_mem_operands hmem hpart)
  have hself := h type (self_mem_parts type)
  cases type with
  | literals base values =>
    cases values with
    | nil => cases hself
    | cons value rest => simp [denote]
  | union members =>
    cases members with
    | nil => cases hself
    | cons member rest =>
      have hmember := hoperand member (List.mem_cons_self ..)
      simp only [denote, denoteAll, List.flatten_cons, List.length_append]
      omega
  | intersection members =>
    cases members with
    | nil => cases hself
    | cons member rest =>
      cases rest with
      | nil => exact hoperand member (List.mem_cons_self ..)
      | cons next more => exact Nat.le_refl 1
  | object properties index? => rw [denote_object, List.length_singleton]
  | _ => exact Nat.le_refl 1

/-- A union or a list of literals of several members has several alternatives. -/
theorem length_denote_of_isAlternative {type : TypeExpr}
    (h : ∀ part ∈ type.parts, part.hasOperands = true) (halternative : type.isAlternative = true) :
    1 < type.denote.length := by
  have hoperand : ∀ operand ∈ type.operands, 1 ≤ operand.denote.length := fun operand hmem =>
    length_denote_pos fun part hpart => h part (parts_subset_of_mem_operands hmem hpart)
  cases type with
  | literals base values => simpa [denote, isAlternative] using halternative
  | union members =>
    cases members with
    | nil => cases halternative
    | cons first others =>
    cases others with
    | nil => simp [isAlternative] at halternative
    | cons second rest =>
      have hfirst := hoperand first (by simp [operands])
      have hsecond := hoperand second (by simp [operands])
      simp only [denote, denoteAll, List.flatten_cons, List.length_append]
      omega
  | _ => cases halternative

/-- Listed values are light. -/
theorem light_literals {base : String} {values : List Json} (hne : values ≠ []) :
    Light (.literals base values) := by
  have hbad : (literals base values).lacksParentheses = false := by
    simp [lacksParentheses_eq, operands, isGuarded, bare]
  have hvalue : ∀ value ∈ values, ReadsLighter [ofLiteral value] [[.name (ofLiteral value)]]
      false false false := fun value _ => (readsTight_ofLiteral value).lighter (Nat.le_refl 1)
  cases values with
  | nil => exact absurd rfl hne
  | cons value rest =>
  cases rest with
  | nil =>
    exact .of_eq (hvalue value (List.mem_singleton_self value)) rfl rfl (by simp [hasOperator])
      (by simp [isLoose, hasOperator]) hbad
  | cons next more =>
    refine .of_eq (readsLighter_bars hvalue (by simp)) rfl ?_ (by simp [hasOperator])
      (by simp [isLoose, hasOperator]) (by simp [hbad])
    rw [denote]
    exact List.map_eq_flatMap

/-- A list is light when its item is. -/
theorem light_array {item : TypeExpr} (h : Light item) : Light (.array item) := by
  have hbad : (array item).lacksParentheses =
      (!(array item).isGuarded || item.lacksParentheses) := by
    rw [lacksParentheses_eq, operands, List.any_cons, List.any_nil, Bool.or_false]
  cases hneeded : item.needsParentheses with
  | true =>
    have hnone : false = true → false = true := id
    refine .of_eq (h.parenthesesItem.list hnone) ?_ rfl (by simp [hasOperator, hneeded])
      (by simp [isLoose, hasOperator, hneeded]) (by simp [hbad, isGuarded, bare, hneeded])
    rw [symbols, enclose, if_pos hneeded]
  | false =>
    have hbar : item.hasOperator '|' = true → item.isLoose = true := fun hbar => by
      simp [isLoose, hbar]
    refine .of_eq (h.item.list hbar) ?_ rfl (by simp [hasOperator, hneeded])
      (by simp [isLoose, hasOperator, hneeded])
      (by simp [hbad, isGuarded, bare, looser, isLoose, hneeded, Bool.or_comm])
    rw [symbols, enclose, if_neg (by simp [hneeded])]

/-- An object type is light when the types of its entries are. -/
theorem light_object {properties : List (Property TypeExpr)}
    {index? : Option (IndexSignature TypeExpr)}
    (h : ∀ operand ∈ (object properties index?).operands, Light operand) :
    Light (.object properties index?) := by
  rw [operands_object, List.forall_mem_map] at h
  have hbad : (object properties index?).lacksParentheses =
      (entries properties index?).any fun entry => entry.2.lacksParentheses := by
    rw [lacksParentheses_eq, operands_object, List.any_map]
    rfl
  exact .of_eq (readsLighter_record fun entry hmem => ⟨readsHeading_entry hmem, h entry hmem⟩)
    (symbols_object ..) (denote_object ..) rfl rfl hbad

/-- A union is light when its members are. -/
theorem light_union {members : List TypeExpr} (h : ∀ member ∈ members, Light member)
    (hne : members ≠ []) : Light (.union members) := by
  have hbad : (union members).lacksParentheses = members.any lacksParentheses := by
    rw [lacksParentheses_eq]
    rfl
  cases members with
  | nil => exact absurd rfl hne
  | cons member rest =>
  cases rest with
  | nil =>
    exact .of_eq (h member (List.mem_singleton_self member)) (by simp [symbols, symbolsOfAll])
      (denote_union_singleton member) (by simp [hasOperator, anyHasOperator])
      (by simp [isLoose, hasOperator, anyHasOperator]) (by simp [hbad])
  | cons next more =>
    exact .of_eq (readsLighter_bars h (by simp)) (by rw [symbols, symbolsOfAll_eq])
      (by rw [denote, denoteAll_eq, List.flatMap_def]) (by simp [hasOperator])
      (by simp [isLoose, hasOperator]) hbad

/-- A member of an intersection has a bar outside brackets only if it stands without
parentheses. -/
theorem light_member {member : TypeExpr} (h : Light member)
    (hlength : member.isAlternative = true → 1 < member.denote.length) :
    ReadsLighter (enclose member.symbols member.isAlternative) member.denote
      (!member.isAlternative && member.hasOperator '|')
      (!member.isAlternative && member.isLoose) member.lacksParentheses := by
  cases halternative : member.isAlternative with
  | true => exact h.parenthesesFactor (hlength halternative)
  | false => exact h

/-- An intersection is light when its members are and the enclosed ones have alternatives. -/
theorem light_intersection {members : List TypeExpr} (h : ∀ member ∈ members, Light member)
    (hlength : ∀ member ∈ members, member.isAlternative = true → 1 < member.denote.length)
    (hne : members ≠ []) : Light (.intersection members) := by
  have hmembers := fun member hmem => light_member (h member hmem) (hlength member hmem)
  have hbad : (intersection members).lacksParentheses =
      (!(intersection members).isGuarded || members.any lacksParentheses) := by
    rw [lacksParentheses_eq]
    rfl
  cases members with
  | nil => exact absurd rfl hne
  | cons member rest =>
  cases rest with
  | nil =>
    exact .of_eq (hmembers member (List.mem_singleton_self member))
      (by simp [symbols, symbolsOfFactors]) (denote_intersection_singleton member)
      (by simp [hasOperator, anyExposes])
      (by simp [isLoose, hasOperator, anyExposes, Bool.and_or_distrib_left])
      (by simp [hbad, isGuarded, bare])
  | cons next more =>
    have hguard : (!(intersection (member :: next :: more)).isGuarded) =
        (member :: next :: more).any fun member =>
          !member.isAlternative && member.hasOperator '|' := by
      rw [isGuarded, bare, if_pos (by simp), List.all_filter, List.not_all_eq_any_not]
      simp only [looser, List.all_cons, List.all_nil, Bool.and_true, Bool.not_or, Bool.not_not]
    refine .of_eq (readsLighter_ampersands hmembers (by simp))
      (by rw [symbols, symbolsOfFactors_eq]) (by rw [denote, denoteAll_eq])
      (by simp [hasOperator, anyExposes_eq]) (by simp [isLoose, hasOperator])
      (by rw [hbad, hguard, Bool.or_comm])

/-- The text of a type is read as one that is no heavier, and lighter if parentheses are missing
in it. -/
theorem light {type : TypeExpr} (h : ∀ part ∈ type.parts, part.hasOperands = true) :
    Light type := by
  induction type using operands_induction with
  | step type ih =>
  have hparts : ∀ operand ∈ type.operands, ∀ part ∈ operand.parts, part.hasOperands = true :=
    fun operand hmem part hpart => h part (parts_subset_of_mem_operands hmem hpart)
  have hoperand := fun operand hmem => ih operand hmem (hparts operand hmem)
  have hself := h type (self_mem_parts type)
  cases type with
  | literals base values => exact light_literals (by simpa [hasOperands] using hself)
  | array item => exact light_array (hoperand item (List.mem_singleton_self item))
  | object properties index? => exact light_object hoperand
  | union members => exact light_union hoperand (by simpa [hasOperands] using hself)
  | intersection members =>
    exact light_intersection hoperand
      (fun member hmem => length_denote_of_isAlternative (hparts member hmem))
      (by simpa [hasOperands] using hself)
  | _ => exact (readsTight_word _).lighter (Nat.le_refl 1)

/-- The symbols of every type are read as some type. That is the type itself just if no
parentheses are missing. -/
theorem exists_read {type : TypeExpr} (h : ∀ part ∈ type.parts, part.hasOperands = true) :
    ∃ value, read type.symbols = some value ∧
      (value = type.denote ↔ ∀ part ∈ type.parts, part.isGuarded = true) := by
  obtain ⟨value, hread, hweight⟩ := (light h).exists_read
  refine ⟨value, hread, fun heq => ?_, fun hguarded => ?_⟩
  -- A type that is read as itself is as heavy as itself.
  · have hnone : type.lacksParentheses = false := by
      rw [heq] at hweight
      exact Bool.toNat_eq_zero.mp (by omega)
    simpa [lacksParentheses] using hnone
  · exact Option.some.inj (hread.symm.trans (reads h hguarded).loose.read_eq)

/-- The text of a type is read as a type, and as the type itself just if every part is guarded:
if none of its operands that are printed without parentheses beside brackets or an ampersand
has an operator outside brackets, in its own text, that binds less tight. -/
theorem print_reads_back {layout : Layout} {unit : String} {type : TypeExpr}
    (hunit : layout.unit = .ok (some unit)) (hblank : unit.toList.all Text.isBlank = true)
    (hwritable : ∀ part ∈ type.parts, part.isWritable = true)
    (hoperands : ∀ part ∈ type.parts, part.hasOperands = true) (level : Int) :
    (∃ text value, type.print layout level = .ok text ∧ readText text = some value ∧
      (value = type.denote ↔ ∀ part ∈ type.parts, part.isGuarded = true)) ∧
    ∀ part ∈ type.parts, part.isGuarded = true ↔ ∀ operand ∈ part.bare, ∃ text symbols,
      operand.print layout level = .ok text ∧ scan text = some symbols ∧
        ∀ operator ∈ part.looser, .mark operator ∉ outside 0 symbols := by
  have hprints : ∀ part ∈ type.parts, ∃ text, part.print layout level = .ok text ∧
      scan text = some part.symbols := fun part hpart => by
    obtain ⟨tokens, htokens, hscan⟩ := prints hunit (List.all_eq_true.mp hblank)
      (fun inner hinner => hwritable inner (parts_subset_of_mem_parts hpart hinner)) level
    exact ⟨Token.textOf tokens, by rw [print, htokens]; rfl, hscan⟩
  constructor
  · obtain ⟨text, htext, hscan⟩ := hprints type (self_mem_parts type)
    obtain ⟨value, hread, hvalue⟩ := exists_read hoperands
    exact ⟨text, value, htext, by rw [readText, hscan]; exact hread, hvalue⟩
  · intro part hpart
    rw [isGuarded_iff]
    refine forall₂_congr fun operand hbare => ?_
    have hmem : operand ∈ type.parts := parts_subset_of_mem_parts hpart
      (parts_subset_of_mem_operands (bare_subset_operands part hbare) (self_mem_parts operand))
    obtain ⟨text, htext, hscan⟩ := hprints operand hmem
    constructor
    · exact fun hno => ⟨text, operand.symbols, htext, hscan, hno⟩
    · rintro ⟨text', symbols, htext', hscan', hno⟩
      obtain rfl : text = text' := Except.ok.inj (htext.symm.trans htext')
      rwa [Option.some.inj (hscan.symm.trans hscan')]

/-- A list of pets with optional names, or of objects with one. -/
def petList : TypeExpr :=
  .array (.union [.intersection [.component "Pet", .union [.primitive "string", .null]],
    .object [{ name := .str "name", optional := true, comment := .str "What it is."
               type := .literals "string" [.str "cat", .str "dog"] }] none])

theorem petList_reads_back :
    (∃ text value, petList.print {} 0 = .ok text ∧ readText text = some value ∧
      (value = petList.denote ↔ ∀ part ∈ petList.parts, part.isGuarded = true)) ∧
    ∀ part ∈ petList.parts, part.isGuarded = true ↔ ∀ operand ∈ part.bare, ∃ text symbols,
      operand.print {} 0 = .ok text ∧ scan text = some symbols ∧
        ∀ operator ∈ part.looser, .mark operator ∉ outside 0 symbols :=
  print_reads_back (show ({} : Layout).unit = .ok (some "  ") from rfl) (by decide) (by decide)
    (by decide) 0

/-- A list of a union of a single member, which is a union of two. -/
def wrappedUnion : TypeExpr := .array (.union [.union [.component "A", .component "B"]])

/-- The inner union is printed without parentheses, so the brackets are read as those of its
last member. -/
theorem wrappedUnion_misread :
    (∀ part ∈ wrappedUnion.parts, part.isWritable = true ∧ part.hasOperands = true) ∧
      wrappedUnion.print {} 0 = .ok "A | B[]" ∧
        readText "A | B[]" ≠ some wrappedUnion.denote := by
  refine ⟨by decide, rfl, fun h => ?_⟩
  have hread : readText "A | B[]" =
      some [[.name (.word "A")], [.list [[.name (.word "B")]]]] := rfl
  rw [hread] at h
  exact absurd (congrArg (Option.map List.length) h) (by decide)

end TypeExpr

end ApiTypes
