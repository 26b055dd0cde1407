import ApiTypes.Proofs.TypeExpr.Parts
import ApiTypes.Proofs.TypeExpr.Pieces
import Mathlib.Data.List.Basic

/-!
# The symbols of a printed type

The symbols of a type do not depend on the layout and the level of nesting. Its text has
just these symbols, if its names are single words and its literals are no lists or objects.
-/

namespace ApiTypes

open Text

namespace Symbol

/-- Symbols between parentheses, or as they are. -/
def enclose (symbols : List Symbol) (needed : Bool) : List Symbol :=
  if needed then .mark '(' :: symbols ++ [.mark ')'] else symbols

end Symbol

namespace TypeExpr

open Scanner ApiTypes.Symbol

/-- The symbols of a member of an object type, given those before its type and those of its
type. -/
def memberSymbols (heading symbols : List Symbol) : List Symbol :=
  heading ++ .mark ':' :: symbols ++ [.mark ';']

mutual

/-- The symbols of a type. -/
def symbols : TypeExpr → List Symbol
  | .missing => [.word "undefined"]
  | .any => [.word "any"]
  | .null => [.word "null"]
  | .primitive name => [.word (primitiveName name)]
  | .literals _ values => [.mark '|'].intercalate (values.map fun value => [ofLiteral value])
  | .array item => enclose item.symbols item.needsParentheses ++ [.mark '[', .mark ']']
  | .object properties index? =>
    .mark '\x7b' :: symbolsOfProperties properties ++
      (match index? with
        | some ⟨key, type⟩ => memberSymbols (indexSymbols key) type.symbols
        | none => []) ++
      [.mark '\x7d']
  | .union members => [.mark '|'].intercalate (symbolsOfAll members)
  | .intersection members => [.mark '&'].intercalate (symbolsOfFactors members)
  | .component identifier => [.word identifier]
  | .external name => [.word name.inText]

/-- The symbols of each of the members of a union. -/
def symbolsOfAll : List TypeExpr → List (List Symbol)
  | [] => []
  | member :: rest => member.symbols :: symbolsOfAll rest

/-- The symbols of each of the members of an intersection. -/
def symbolsOfFactors : List TypeExpr → List (List Symbol)
  | [] => []
  | member :: rest => enclose member.symbols member.isAlternative :: symbolsOfFactors rest

/-- The symbols of the named members of an object type. -/
def symbolsOfProperties : List (Property TypeExpr) → List Symbol
  | [] => []
  | ⟨name, type, optional, readOnly, comment⟩ :: rest =>
    memberSymbols (headingSymbols (⟨name, (), optional, readOnly, comment⟩ : Property Unit))
      type.symbols ++ symbolsOfProperties rest

end

/-- Listed types have the symbols of each of them. -/
theorem symbolsOfAll_eq (members : List TypeExpr) : symbolsOfAll members = members.map symbols := by
  induction members with
  | nil => rfl
  | cons member rest ih => rw [symbolsOfAll, ih, List.map_cons]

/-- The members of an intersection are enclosed where they are alternatives. -/
theorem symbolsOfFactors_eq (members : List TypeExpr) :
    symbolsOfFactors members =
      members.map fun member => enclose member.symbols member.isAlternative := by
  induction members with
  | nil => rfl
  | cons member rest ih => rw [symbolsOfFactors, ih, List.map_cons]

/-- The symbols of properties are those of their headings and types. -/
theorem symbolsOfProperties_eq (properties : List (Property TypeExpr)) :
    symbolsOfProperties properties = properties.flatMap fun property =>
      memberSymbols (headingSymbols property) property.type.symbols := by
  induction properties with
  | nil => rfl
  | cons property rest ih =>
    rw [symbolsOfProperties, ih, List.flatMap_cons]
    rfl

/-- What stands before the type of each member of an object type, and the type. -/
def entries (properties : List (Property TypeExpr)) (index? : Option (IndexSignature TypeExpr)) :
    List (List Symbol × TypeExpr) :=
  properties.map (fun property => (headingSymbols property, property.type)) ++
    index?.toList.map fun index => (indexSymbols index.key, index.type)

section

variable (properties : List (Property TypeExpr)) (index? : Option (IndexSignature TypeExpr))

/-- An object type has the symbols of its entries, between braces. -/
theorem symbols_object : (object properties index?).symbols =
    .mark '\x7b' :: (entries properties index?).flatMap
      (fun entry => memberSymbols entry.1 entry.2.symbols) ++ [.mark '\x7d'] := by
  cases index? <;>
    simp [symbols, symbolsOfProperties_eq, entries, List.flatMap_append, List.flatMap_map]

/-- The operands of an object type are the types of its entries. -/
theorem operands_object :
    (object properties index?).operands = (entries properties index?).map (·.2) := by
  cases index? <;> simp [operands, entries, Function.comp_def]

end

/-- Whether the names and the literals of a type, apart from those of its operands, can be
read back: names are single words, and literals are no lists or objects. -/
def isWritable : TypeExpr → Bool
  | .primitive name => isWord (primitiveName name)
  | .literals _ values => values.all Json.isKey
  | .object properties index? =>
    properties.all (isNamed ·) && index?.toList.all fun index => isWord index.key.inText
  | .component identifier => isWord identifier
  | .external name => name.text?.any isWord
  | _ => true

/-- Two images of a list are related item by item. -/
theorem forall₂_map {α β γ : Type} {R : β → γ → Prop} {f : α → β} {g : α → γ} {items : List α}
    (h : ∀ item ∈ items, R (f item) (g item)) : List.Forall₂ R (items.map f) (items.map g) := by
  rw [List.forall₂_map_left_iff, List.forall₂_map_right_iff, List.forall₂_same]
  exact h

/-! ### Texts of lists of tokens -/

/-- A bar is one mark. -/
theorem settles_bar : Settles Token.bar.text [.mark '|'] := rfl

/-- An ampersand is one mark. -/
theorem settles_ampersand : Settles Token.ampersand.text [.mark '&'] := rfl

/-- A bar stands behind a blank. -/
theorem startsApart_bar : StartsApart Token.bar.text := ⟨' ', ['|', ' '], rfl, by decide⟩

/-- An ampersand stands behind a blank. -/
theorem startsApart_ampersand : StartsApart Token.ampersand.text :=
  ⟨' ', ['&', ' '], rfl, by decide⟩

/-- The text of a token stands before that of the others. -/
theorem textOf_cons (token : Token) (tokens : List Token) :
    Token.textOf (token :: tokens) = token.text ++ Token.textOf tokens := String.join_cons

/-- Parentheses are symbols of their own. -/
theorem scan_parenthesize {tokens : List Token} {symbols : List Symbol}
    (h : scan (Token.textOf tokens) = some symbols) (needed : Bool) :
    scan (Token.textOf (Token.parenthesize tokens needed)) = some (enclose symbols needed) := by
  cases needed with
  | false => exact h
  | true =>
    have hopen : Settles "(" [.mark '('] := rfl
    have hclose : Settles ")" [.mark ')'] := rfl
    have hinner := hopen.append (.of_scan h hclose ⟨')', [], rfl, by decide⟩)
    rw [Token.parenthesize, if_pos rfl, List.cons_append, textOf_cons, Token.textOf_append]
    exact hinner.scan_eq

/-- Texts with a separator between each two have the symbols of each, and those of the
separator in between. -/
theorem scan_separate {separator : Token} {between : List Symbol}
    (hsettles : Settles separator.text between) (hapart : StartsApart separator.text)
    {lists : List (List Token)} {symbols : List (List Symbol)}
    (h : List.Forall₂ (fun tokens symbols => scan (Token.textOf tokens) = some symbols)
      lists symbols) :
    scan (Token.textOf (Token.separate separator lists)) =
      some (between.intercalate symbols) := by
  induction h with
  | nil => rfl
  | @cons first firstSymbols rest restSymbols hfirst hrest ih =>
    cases hrest with
    | nil => rwa [Token.separate, List.intercalate_singleton]
    | cons hnext hmore =>
      rw [Token.separate, List.intercalate_cons_cons, Token.textOf_append, textOf_cons,
        ← String.append_assoc]
      exact (Settles.of_scan hfirst hsettles hapart).scan_append ih

/-- The text of a member of an object type has the symbols of its heading and its type. -/
theorem settles_member {before : String} {inner : List Token} {heading symbols : List Symbol}
    (hbefore : Settles before (heading ++ [.mark ':']))
    (hinner : scan (Token.textOf inner) = some symbols) :
    Settles (Token.textOf (.heading before :: inner ++ [.endMember]))
      (memberSymbols heading symbols) := by
  have hend : Settles ";\n" [.mark ';'] := rfl
  have hwhole := hbefore.append (.of_scan hinner hend ⟨';', ['\n'], rfl, by decide⟩)
  have hsymbols : memberSymbols heading symbols =
      (heading ++ [.mark ':']) ++ (symbols ++ [.mark ';']) := by simp [memberSymbols]
  rw [List.cons_append, textOf_cons, Token.textOf_append, hsymbols]
  exact hwhole

/-! ### Texts of types -/

/-- A repeated blank unit is blank. -/
theorem isBlank_of_mem_repeatText {unit : String} (h : ∀ c ∈ unit.toList, isBlank c = true)
    (count : Int) : ∀ c ∈ (repeatText unit count).toList, isBlank c = true := by
  intro c hc
  rw [repeatText, String.toList_join, List.mem_flatMap] at hc
  obtain ⟨text, htext, hc⟩ := hc
  rw [List.eq_of_mem_replicate htext] at hc
  exact h c hc

/-- Types whose names are words can be put beside each other. -/
theorem joinable_of_isWritable {members : List TypeExpr} {tokens : List (List Token)}
    (h : ∀ member ∈ members, member.isWritable = true) : joinable members tokens = .ok tokens := by
  refine if_pos (List.all_eq_true.mpr fun member hmem => ?_)
  have hmember := h member hmem
  cases member with
  | external name => cases name <;> first | rfl | cases hmember
  | _ => rfl

/-- A type is printed at every level of nesting as a text that has its symbols. -/
def Prints (layout : Layout) (type : TypeExpr) : Prop :=
  ∀ level, ∃ tokens, type.tokens layout level = .ok tokens ∧
    scan (Token.textOf tokens) = some type.symbols

section

variable {layout : Layout} {unit : String} (hunit : layout.unit = .ok (some unit))
  (hblank : ∀ c ∈ unit.toList, isBlank c = true)

/-- Members whose tokens have a property are printed as lists of tokens with it. -/
theorem exists_memberTokens {R : List Token → TypeExpr → Prop} {members : List TypeExpr}
    {level : Int} (h : ∀ member ∈ members, ∃ tokens, member.tokens layout level = .ok tokens ∧
      R tokens member) :
    ∃ lists, memberTokens layout level members = .ok lists ∧ List.Forall₂ R lists members := by
  induction members with
  | nil => exact ⟨[], rfl, .nil⟩
  | cons member rest ih =>
    obtain ⟨⟨tokens, htokens, hmember⟩, hrest⟩ := List.forall_mem_cons.mp h
    obtain ⟨lists, hlists, hmembers⟩ := ih hrest
    exact ⟨tokens :: lists, by rw [memberTokens, htokens, hlists]; rfl, .cons hmember hmembers⟩

/-- The factors of an intersection may be put between parentheses. -/
theorem exists_factorTokens {R R' : List Token → TypeExpr → Prop} {members : List TypeExpr}
    {level : Int} (h : ∀ member ∈ members, ∃ tokens, member.tokens layout level = .ok tokens ∧
      R tokens member)
    (hR : ∀ tokens member, R tokens member →
      R' (Token.parenthesize tokens member.isAlternative) member) :
    ∃ lists, factorTokens layout level members = .ok lists ∧ List.Forall₂ R' lists members := by
  induction members with
  | nil => exact ⟨[], rfl, .nil⟩
  | cons member rest ih =>
    obtain ⟨⟨tokens, htokens, hmember⟩, hrest⟩ := List.forall_mem_cons.mp h
    obtain ⟨lists, hlists, hmembers⟩ := ih hrest
    exact ⟨Token.parenthesize tokens member.isAlternative :: lists,
      by rw [factorTokens, htokens, hlists]; rfl, .cons (hR tokens member hmember) hmembers⟩

include hblank in
/-- Properties that are named have tokens when their types can be printed. -/
theorem exists_propertyTokens {properties : List (Property TypeExpr)}
    (hnamed : ∀ property ∈ properties, isNamed property = true)
    (h : ∀ property ∈ properties, Prints layout property.type) (level : Int) :
    ∃ tokens, propertyTokens layout level (repeatText unit (level + 1)) properties = .ok tokens ∧
      Settles (Token.textOf tokens) (symbolsOfProperties properties) := by
  induction properties with
  | nil => exact ⟨[], rfl, rfl⟩
  | cons property rest ih =>
    obtain ⟨hproperty, hrest⟩ := List.forall_mem_cons.mp h
    obtain ⟨hname, hnames⟩ := List.forall_mem_cons.mp hnamed
    obtain ⟨others, hothers, hsettled⟩ := ih hnames hrest
    obtain ⟨name, type, optional, readOnly, comment⟩ := property
    have hplain : isNamed (⟨name, (), optional, readOnly, comment⟩ : Property Unit) = true := hname
    obtain ⟨before, hbefore, hheading⟩ :=
      exists_heading (isBlank_of_mem_repeatText hblank (level + 1)) hplain
    obtain ⟨inner, hinner, hscan⟩ := hproperty (level + 1)
    refine ⟨(.heading before :: inner ++ [.endMember]) ++ others, ?_, ?_⟩
    · simp only [propertyTokens, hbefore, hinner, hothers, List.append_assoc,
        List.singleton_append]
      rfl
    · rw [Token.textOf_append, symbolsOfProperties]
      exact (settles_member hheading hscan).append hsettled

include hunit hblank in
/-- The members of an object type stand between braces that have settled. -/
theorem prints_object {properties : List (Property TypeExpr)}
    {index? : Option (IndexSignature TypeExpr)}
    (hwritable : (object properties index?).isWritable = true)
    (h : ∀ operand ∈ (object properties index?).operands, Prints layout operand) :
    Prints layout (.object properties index?) := by
  intro level
  obtain ⟨hnamed, hkey⟩ := Bool.and_eq_true_iff.mp hwritable
  rw [List.all_eq_true] at hnamed hkey
  have hproperties : ∀ property ∈ properties, Prints layout property.type := fun property hmem =>
    h _ (List.mem_append_left _ (List.mem_map_of_mem hmem))
  obtain ⟨named, hnames, hsettled⟩ := exists_propertyTokens hblank hnamed hproperties level
  have hopen : Settles (Token.textOf [.openBrace]) [.mark '\x7b'] := rfl
  have hclose : Settles (Token.textOf [.closeBrace (repeatText unit level)]) [.mark '\x7d'] := by
    rw [textOf_cons, Token.textOf_nil, String.append_empty]
    exact (settles_blank (isBlank_of_mem_repeatText hblank level)).append rfl
  cases index? with
  | none =>
    cases properties with
    | nil => exact ⟨_, rfl, by decide⟩
    | cons property rest =>
      refine ⟨[.openBrace] ++ named ++ [] ++ [.closeBrace (repeatText unit level)], ?_, ?_⟩
      · simp only [tokens, hunit, hnames, bind, Except.bind, Option.getD]
        rfl
      · rw [List.append_nil, Token.textOf_append, Token.textOf_append, symbols, List.append_nil]
        exact ((hopen.append hsettled).append hclose).scan_eq
  | some index =>
    obtain ⟨key, type⟩ := index
    obtain ⟨inner, hinner, hscan⟩ := h type (by simp [operands]) (level + 1)
    have hheading := settles_indexHeading (isBlank_of_mem_repeatText hblank (level + 1))
      (hkey ⟨key, type⟩ (by simp))
    have hothers := settles_member hheading hscan
    refine ⟨[.openBrace] ++ named ++
      (.heading (indexHeading (repeatText unit (level + 1)) key) :: inner ++ [.endMember]) ++
      [.closeBrace (repeatText unit level)], ?_, ?_⟩
    · simp only [tokens, hunit, hnames, hinner, bind, Except.bind, Option.getD,
        Option.isNone_some, Bool.and_false, Bool.false_eq_true, ↓reduceIte]
      rfl
    · rw [Token.textOf_append, Token.textOf_append, Token.textOf_append, symbols]
      exact (((hopen.append hsettled).append hothers).append hclose).scan_eq

/-- Literals are printed with bars between each two. -/
theorem prints_literals {base : String} {values : List Json}
    (hwritable : (literals base values).isWritable = true) :
    Prints layout (.literals base values) := fun _ => by
  refine ⟨_, rfl, scan_separate settles_bar startsApart_bar (forall₂_map fun value hvalue => ?_)⟩
  exact scan_literal (List.all_eq_true.mp hwritable value hvalue)

/-- The brackets of a list type do not continue the text of the item. -/
theorem prints_array {item : TypeExpr} (h : Prints layout item) : Prints layout (.array item) := by
  intro level
  obtain ⟨inner, hinner, hscan⟩ := h level
  have hbrackets : Settles "[]" [.mark '[', .mark ']'] := rfl
  refine ⟨Token.parenthesize inner item.needsParentheses ++ [.brackets],
    by rw [tokens, hinner]; rfl, ?_⟩
  rw [Token.textOf_append, symbols]
  exact scan_append (scan_parenthesize hscan _) hbrackets.scan_eq ⟨'[', [']'], rfl, by decide⟩

section

variable {members : List TypeExpr} (hwritable : ∀ member ∈ members, member.isWritable = true)
  (h : ∀ member ∈ members, Prints layout member)
include hwritable h

/-- A union is printed as its symbols when its members are. -/
theorem prints_union : Prints layout (.union members) := by
  intro level
  obtain ⟨lists, hlists, hscans⟩ := exists_memberTokens fun member hmem => h member hmem level
  have hjoinable : joinable members lists = .ok lists := joinable_of_isWritable hwritable
  refine ⟨Token.separate .bar lists,
    by simp only [tokens, hlists, bind, Except.bind, hjoinable]; rfl, ?_⟩
  rw [symbols, symbolsOfAll_eq]
  exact scan_separate settles_bar startsApart_bar (List.forall₂_map_right_iff.mpr hscans)

/-- An intersection is printed as its symbols when its members are. -/
theorem prints_intersection : Prints layout (.intersection members) := by
  intro level
  have hfactors : ∃ lists, factorTokens layout level members = .ok lists ∧ List.Forall₂
      (fun tokens member => scan (Token.textOf tokens) =
        some (enclose member.symbols member.isAlternative)) lists members :=
    exists_factorTokens (fun member hmem => h member hmem level)
      fun _ _ hscan => scan_parenthesize hscan _
  obtain ⟨lists, hlists, hscans⟩ := hfactors
  have hjoinable : joinable members lists = .ok lists := joinable_of_isWritable hwritable
  refine ⟨Token.separate .ampersand lists,
    by simp only [tokens, hlists, bind, Except.bind, hjoinable]; rfl, ?_⟩
  rw [symbols, symbolsOfFactors_eq]
  exact scan_separate settles_ampersand startsApart_ampersand
    (List.forall₂_map_right_iff.mpr hscans)

end

include hunit hblank in
/-- The text of a type has its symbols. -/
theorem prints {type : TypeExpr} (h : ∀ part ∈ type.parts, part.isWritable = true) :
    Prints layout type := by
  induction type using operands_induction with
  | step type ih =>
  have hoperand : ∀ operand ∈ type.operands, Prints layout operand := fun operand hmem =>
    ih operand hmem fun part hpart => h part (parts_subset_of_mem_operands hmem hpart)
  have hself := h type (self_mem_parts type)
  have hwritable : ∀ operand ∈ type.operands, operand.isWritable = true := fun operand hmem =>
    h operand (parts_subset_of_mem_operands hmem (self_mem_parts operand))
  cases type with
  | missing => exact fun _ => ⟨_, rfl, by decide⟩
  | any => exact fun _ => ⟨_, rfl, by decide⟩
  | null => exact fun _ => ⟨_, rfl, by decide⟩
  | primitive name => exact fun _ => ⟨_, rfl, scan_word hself⟩
  | component identifier => exact fun _ => ⟨_, rfl, scan_word hself⟩
  | external name =>
    cases name with
    | str text => exact fun _ => ⟨_, rfl, scan_word hself⟩
    | _ => cases hself
  | literals base values => exact prints_literals hself
  | array item => exact prints_array (hoperand item (List.mem_singleton_self item))
  | object properties index? => exact prints_object hunit hblank hself hoperand
  | union members => exact prints_union hwritable hoperand
  | intersection members => exact prints_intersection hwritable hoperand

end

end TypeExpr

end ApiTypes
