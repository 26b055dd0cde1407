import ApiTypes.Proofs.TypeExpr.Precedence

/-!
# Printed texts are not empty

A type can be printed when what it writes itself are texts: the names and comments of
members, and names that the settings give. Its text is empty only if a union, an
intersection or a list of literals in it has no members, or a name in it is empty.
-/

namespace ApiTypes

/-- No value is written as an empty text. -/
theorem Json.text_ne_empty (value : Json) : value.text ≠ "" := by
  have hword {written : String} (h : Symbol.isWord written = true) : written ≠ "" := by
    rintro rfl
    cases h
  cases value with
  | null => decide
  | bool flag => cases flag <;> decide
  | int n => exact hword (isWord_toString n)
  | float x => exact hword (isWord_readingText _)
  | str written => simp [text, quote]
  | arr items => simp [text]
  | obj members => simp [text]

namespace TypeExpr

/-- Whether what a type writes itself, apart from its operands, are texts: names that are
not empty, and comments if there are any. -/
def isPrintable : TypeExpr → Bool
  | .primitive name => !name.isEmpty
  | .object properties _ => properties.all (isNamed ·)
  | .component identifier => !identifier.isEmpty
  | .external name => name.text?.any (!·.isEmpty)
  | _ => true

/-! ### Texts of lists of tokens -/

/-- Lists of tokens with a separator between each two have a text if there are any. -/
theorem textOf_separate_ne_empty {separator : Token} {lists : List (List Token)} (hne : lists ≠ [])
    (h : ∀ tokens ∈ lists, Token.textOf tokens ≠ "") :
    Token.textOf (Token.separate separator lists) ≠ "" := by
  match lists with
  | [] => exact absurd rfl hne
  | [tokens] => exact h tokens (List.mem_singleton_self tokens)
  | tokens :: next :: rest =>
    have hfirst := h tokens (List.mem_cons_self ..)
    simp [Token.separate, hfirst]

/-- So have lists of tokens that stand for members, if there are any. -/
theorem textOf_separate_ne_empty_of_forall₂ {separator : Token} {lists : List (List Token)}
    {members : List TypeExpr} (hne : members ≠ [])
    (h : List.Forall₂ (fun tokens _ => Token.textOf tokens ≠ "") lists members) :
    Token.textOf (Token.separate separator lists) ≠ "" := by
  refine textOf_separate_ne_empty ?_ fun tokens hmem => ?_
  · rintro rfl
    cases h
    exact hne rfl
  · obtain ⟨i, hi, rfl⟩ := List.getElem_of_mem hmem
    exact h.get hi (h.length_eq ▸ hi)

/-- Parentheses leave a text that is not empty. -/
theorem textOf_parenthesize_ne_empty {tokens : List Token} (h : Token.textOf tokens ≠ "")
    (needed : Bool) : Token.textOf (Token.parenthesize tokens needed) ≠ "" := by
  cases needed with
  | false => exact h
  | true =>
    rw [Token.parenthesize, if_pos rfl, List.cons_append, textOf_cons, Token.textOf_append]
    exact fun hempty => absurd (String.append_eq_empty_iff.mp hempty).1 (by decide)

/-- A word that is not empty is a text that is not. -/
theorem textOf_word_ne_empty {text : String} (h : text ≠ "") :
    Token.textOf [.word text] ≠ "" := by
  rw [textOf_cons, Token.textOf_nil, String.append_empty]
  exact h

/-! ### Texts of types -/

/-- A type is printed as a text that is not empty, at every level of nesting. -/
def HasText (layout : Layout) (type : TypeExpr) : Prop :=
  ∀ level, ∃ tokens, type.tokens layout level = .ok tokens ∧ Token.textOf tokens ≠ ""

/-- What stands before the type of a member can be written if its name and comment can. -/
theorem exists_heading_ok {α : Type} {property : Property α} (h : isNamed property = true)
    (indent : String) : ∃ before, heading indent property = .ok before := by
  obtain ⟨name, type, optional, readOnly, comment⟩ := property
  obtain ⟨hname, hcomment⟩ := Bool.and_eq_true_iff.mp h
  have hline : ∃ line, commentLine indent comment = .ok line := by
    unfold commentLine
    split
    · rename_i htruthy
      rw [htruthy, Bool.not_true, Bool.false_or] at hcomment
      cases comment with
      | str text => exact ⟨_, rfl⟩
      | _ => cases hcomment
    · exact ⟨"", rfl⟩
  obtain ⟨line, hline⟩ := hline
  cases name with
  | str name => exact ⟨_, by simp only [heading, hline]; rfl⟩
  | _ => cases hname

section

variable {layout : Layout}

/-- Properties that are named have tokens when their types have texts. -/
theorem exists_propertyTokens_ok {properties : List (Property TypeExpr)}
    (hnamed : ∀ property ∈ properties, isNamed property = true)
    (h : ∀ property ∈ properties, HasText layout property.type) (level : Int) (indent : String) :
    ∃ tokens, propertyTokens layout level indent properties = .ok tokens := by
  induction properties with
  | nil => exact ⟨[], rfl⟩
  | cons property rest ih =>
    obtain ⟨hproperty, hrest⟩ := List.forall_mem_cons.mp h
    obtain ⟨hname, hnames⟩ := List.forall_mem_cons.mp hnamed
    obtain ⟨others, hothers⟩ := ih hnames hrest
    obtain ⟨name, type, optional, readOnly, comment⟩ := property
    have hplain : isNamed (⟨name, (), optional, readOnly, comment⟩ : Property Unit) = true := hname
    obtain ⟨before, hbefore⟩ := exists_heading_ok hplain indent
    obtain ⟨inner, hinner, _⟩ := hproperty (level + 1)
    exact ⟨_, by simp only [propertyTokens, hbefore, hinner, hothers]; rfl⟩

/-- The members of an object type stand between braces. -/
theorem hasText_object {unit : String} (hunit : layout.unit = .ok (some unit))
    {properties : List (Property TypeExpr)} {index? : Option (IndexSignature TypeExpr)}
    (hnamed : ∀ property ∈ properties, isNamed property = true)
    (h : ∀ operand ∈ (object properties index?).operands, HasText layout operand) :
    HasText layout (.object properties index?) := by
  intro level
  have hproperties : ∀ property ∈ properties, HasText layout property.type :=
    fun property hmem => h _ (List.mem_append_left _ (List.mem_map_of_mem hmem))
  obtain ⟨named, hnames⟩ :=
    exists_propertyTokens_ok hnamed hproperties level (repeatText unit (level + 1))
  have hbraces (tokens : List Token) : Token.textOf (.openBrace :: tokens) ≠ "" := by
    rw [textOf_cons]
    exact fun hempty => absurd (String.append_eq_empty_iff.mp hempty).1 (by decide)
  cases index? with
  | none =>
    cases properties with
    | nil => exact ⟨_, rfl, by decide⟩
    | cons property rest =>
      refine ⟨.openBrace :: named ++ [] ++ [.closeBrace (repeatText unit level)], ?_, hbraces _⟩
      simp only [tokens, hunit, hnames, bind, Except.bind, Option.getD]
      rfl
  | some index =>
    obtain ⟨key, type⟩ := index
    obtain ⟨inner, hinner, _⟩ := h type (by simp [operands]) (level + 1)
    refine ⟨.openBrace :: named ++
      (.heading (indexHeading (repeatText unit (level + 1)) key) :: inner ++ [.endMember]) ++
      [.closeBrace (repeatText unit level)], ?_, hbraces _⟩
    simp only [tokens, hunit, hnames, hinner, bind, Except.bind, Option.getD,
      Option.isNone_some, Bool.and_false, Bool.false_eq_true, ↓reduceIte]
    rfl

/-- Listed values have a text. -/
theorem hasText_literals {base : String} {values : List Json} (hne : values ≠ []) :
    HasText layout (.literals base values) := by
  intro level
  refine ⟨_, rfl, textOf_separate_ne_empty (by simpa using hne) fun tokens hmem => ?_⟩
  obtain ⟨value, _, rfl⟩ := List.mem_map.mp hmem
  exact textOf_word_ne_empty value.text_ne_empty

/-- A list has a text when its item has. -/
theorem hasText_array {item : TypeExpr} (h : HasText layout item) :
    HasText layout (.array item) := by
  intro level
  obtain ⟨inner, hinner, _⟩ := h level
  refine ⟨Token.parenthesize inner item.needsParentheses ++ [.brackets],
    by rw [tokens, hinner]; rfl, ?_⟩
  rw [Token.textOf_append]
  exact fun hempty => absurd (String.append_eq_empty_iff.mp hempty).2 (by decide)

/-- Types with texts for names can be put beside each other. -/
theorem joinable_of_isPrintable {members : List TypeExpr} {tokens : List (List Token)}
    (h : ∀ member ∈ members, member.isPrintable = true) :
    joinable members tokens = .ok tokens := by
  refine if_pos (List.all_eq_true.mpr fun member hmem => ?_)
  have hmember := h member hmem
  cases member with
  | external name => cases name <;> first | rfl | cases hmember
  | _ => rfl

section

variable {members : List TypeExpr} (hne : members ≠ [])
  (hprintable : ∀ member ∈ members, member.isPrintable = true)
  (h : ∀ member ∈ members, HasText layout member)
include hne hprintable h

/-- A union has a text when its members have. -/
theorem hasText_union : HasText layout (.union members) := by
  intro level
  have hparts : ∃ lists, memberTokens layout level members = .ok lists ∧
      List.Forall₂ (fun tokens _ => Token.textOf tokens ≠ "") lists members :=
    exists_memberTokens fun member hmem => h member hmem level
  obtain ⟨lists, hlists, htexts⟩ := hparts
  have hjoinable : joinable members lists = .ok lists := joinable_of_isPrintable hprintable
  refine ⟨Token.separate .bar lists,
    by simp only [tokens, hlists, bind, Except.bind, hjoinable]; rfl, ?_⟩
  exact textOf_separate_ne_empty_of_forall₂ hne htexts

/-- An intersection has a text when its members have. -/
theorem hasText_intersection : HasText layout (.intersection members) := by
  intro level
  have hparts : ∃ lists, factorTokens layout level members = .ok lists ∧
      List.Forall₂ (fun tokens _ => Token.textOf tokens ≠ "") lists members :=
    exists_factorTokens (fun member hmem => h member hmem level)
      fun _ _ htext => textOf_parenthesize_ne_empty htext _
  obtain ⟨lists, hlists, htexts⟩ := hparts
  have hjoinable : joinable members lists = .ok lists := joinable_of_isPrintable hprintable
  refine ⟨Token.separate .ampersand lists,
    by simp only [tokens, hlists, bind, Except.bind, hjoinable]; rfl, ?_⟩
  exact textOf_separate_ne_empty_of_forall₂ hne htexts

end

/-- A type has a text if there are operands wherever there should be, and everything that
its parts write themselves are texts. -/
theorem hasText {unit : String} (hunit : layout.unit = .ok (some unit)) {type : TypeExpr}
    (hoperands : ∀ part ∈ type.parts, part.hasOperands = true)
    (hprintable : ∀ part ∈ type.parts, part.isPrintable = true) : HasText layout type := by
  induction type using operands_induction with
  | step type ih =>
  have hoperand : ∀ operand ∈ type.operands, HasText layout operand := fun operand hmem =>
    ih operand hmem (fun part hpart => hoperands part (parts_subset_of_mem_operands hmem hpart))
      fun part hpart => hprintable part (parts_subset_of_mem_operands hmem hpart)
  have hpresent := hoperands type (self_mem_parts type)
  have hself := hprintable type (self_mem_parts type)
  have hprintable : ∀ operand ∈ type.operands, operand.isPrintable = true := fun operand hmem =>
    hprintable operand (parts_subset_of_mem_operands hmem (self_mem_parts operand))
  cases type with
  | missing => exact fun _ => ⟨_, rfl, by decide⟩
  | any => exact fun _ => ⟨_, rfl, by decide⟩
  | null => exact fun _ => ⟨_, rfl, by decide⟩
  | primitive name =>
    refine fun _ => ⟨_, rfl, textOf_word_ne_empty ?_⟩
    unfold primitiveName
    split
    · decide
    · simpa [isPrintable] using hself
  | component identifier =>
    exact fun _ => ⟨_, rfl, textOf_word_ne_empty (by simpa [isPrintable] using hself)⟩
  | external name =>
    cases name with
    | str text =>
      have hname : text ≠ "" := by simpa [isPrintable, Json.text?] using hself
      exact fun _ => ⟨_, rfl, textOf_word_ne_empty hname⟩
    | _ => cases hself
  | literals base values => exact hasText_literals (by simpa [hasOperands] using hpresent)
  | array item => exact hasText_array (hoperand item (List.mem_singleton_self item))
  | object properties index? =>
    have hnamed := List.all_eq_true.mp hself
    exact hasText_object hunit hnamed hoperand
  | union members =>
    exact hasText_union (by simpa [hasOperands] using hpresent) hprintable hoperand
  | intersection members =>
    exact hasText_intersection (by simpa [hasOperands] using hpresent) hprintable hoperand

end

end TypeExpr

end ApiTypes
