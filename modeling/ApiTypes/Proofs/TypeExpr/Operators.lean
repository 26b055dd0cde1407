import ApiTypes.Proofs.TypeExpr.Symbols
import Mathlib.Data.List.Forall2

/-!
# Operators outside brackets

Which operators the text of a type has outside all brackets can be told from the type: those
of the type itself, and those of its members that stand without parentheses.
-/

namespace ApiTypes

namespace Symbol

/-- Whether a symbol is an opening bracket of any kind. -/
def opens (symbol : Symbol) : Bool := [.mark '(', .mark '[', .mark '\x7b'].contains symbol

/-- Whether a symbol is a closing bracket of any kind. -/
def closes (symbol : Symbol) : Bool := [.mark ')', .mark ']', .mark '\x7d'].contains symbol

/-- The symbols outside all brackets, of a text that begins inside as many as `depth` says. -/
def outside : Nat → List Symbol → List Symbol
  | _, [] => []
  | depth, symbol :: rest =>
    if symbol.opens then outside (depth + 1) rest
    else if symbol.closes then outside (depth - 1) rest
    else if depth = 0 then symbol :: outside depth rest
    else outside depth rest

/-- Every bracket is closed, and `outer` are the symbols outside all brackets. -/
def Balanced (symbols outer : List Symbol) : Prop :=
  ∀ depth rest, outside depth (symbols ++ rest) =
    (if depth = 0 then outer else []) ++ outside depth rest

namespace Balanced

variable {first second outer others : List Symbol}

/-- The symbols outside all brackets are those that are found from the left. -/
theorem outside_eq (h : Balanced first outer) : outside 0 first = outer := by
  have hwhole := h 0 []
  rwa [List.append_nil, if_pos rfl, outside, List.append_nil] at hwhole

/-- Balanced symbols are balanced with those that are found outside. -/
theorem self (h : Balanced first outer) : Balanced first (outside 0 first) := by
  rwa [h.outside_eq]

/-- No symbols are balanced. -/
theorem nil : Balanced [] [] := fun depth rest => by simp

/-- Balanced symbols one after another are balanced. -/
theorem append (h : Balanced first outer) (hsecond : Balanced second others) :
    Balanced (first ++ second) (outer ++ others) := fun depth rest => by
  rw [List.append_assoc, h, hsecond]
  split <;> simp

/-- Symbols that are no brackets stand outside all brackets. -/
theorem of_plain (h : ∀ symbol ∈ first, symbol.opens = false ∧ symbol.closes = false) :
    Balanced first first := by
  induction first with
  | nil => exact nil
  | cons symbol rest ih =>
    obtain ⟨⟨hopens, hcloses⟩, hrest⟩ := List.forall_mem_cons.mp h
    intro depth more
    have htail : outside depth (rest ++ more) =
        (if depth = 0 then rest else []) ++ outside depth more := ih hrest depth more
    rw [List.cons_append, outside, hopens, hcloses, htail]
    by_cases hdepth : depth = 0 <;> simp [hdepth]

/-- Nothing between brackets stands outside them. -/
theorem between {opening closing : Symbol} (hopens : opening.opens = true)
    (hcloses : closing.closes = true) (hno : closing.opens = false) (h : Balanced first outer) :
    Balanced (opening :: first ++ [closing]) [] := fun depth rest => by
  rw [List.append_assoc, List.cons_append, outside, if_pos hopens, h, if_neg (Nat.succ_ne_zero _),
    List.nil_append, List.singleton_append, outside, if_neg (by simp [hno]), if_pos hcloses]
  simp

/-- The balanced symbols of all items of a list are balanced. -/
theorem flatMap {α : Type} {f g : α → List Symbol} {items : List α}
    (h : ∀ item ∈ items, Balanced (f item) (g item)) :
    Balanced (items.flatMap f) (items.flatMap g) := by
  induction items with
  | nil => exact nil
  | cons item rest ih =>
    obtain ⟨hitem, hrest⟩ := List.forall_mem_cons.mp h
    exact hitem.append (ih hrest)

/-- Between texts that are balanced, a symbol that is no bracket stands outside all brackets. -/
theorem intercalate {symbol : Symbol} (hopens : symbol.opens = false)
    (hcloses : symbol.closes = false) {items outers : List (List Symbol)}
    (h : List.Forall₂ Balanced items outers) :
    Balanced ([symbol].intercalate items) ([symbol].intercalate outers) := by
  have hsymbol : Balanced [symbol] [symbol] := of_plain (by simp [hopens, hcloses])
  induction h with
  | nil => exact nil
  | @cons first outer rest others hfirst hrest ih =>
    cases hrest with
    | nil => simpa using hfirst
    | cons hsecond hmore =>
      rw [List.intercalate_cons_cons, List.intercalate_cons_cons]
      exact (hfirst.append hsymbol).append ih

end Balanced

/-- A symbol is in a separated list if it is the separator and there are several items, or if
it is in one of the items. -/
theorem mem_intercalate {separator symbol : Symbol} {items : List (List Symbol)} :
    symbol ∈ [separator].intercalate items ↔
      (symbol = separator ∧ 1 < items.length) ∨ ∃ item ∈ items, symbol ∈ item := by
  induction items with
  | nil => simp
  | cons item rest ih =>
    cases rest with
    | nil => simp
    | cons next more =>
      rw [List.intercalate_cons_cons, List.mem_append, List.mem_append, ih]
      simp only [List.mem_singleton, List.length_cons, List.exists_mem_cons_iff]
      grind

/-- What an item has of an operator tells whether the separated list has it. -/
theorem mark_mem_intercalate_iff {α : Type} {operator separator : Char} {f : α → List Symbol}
    {g : α → Bool} {items : List α} (h : ∀ item ∈ items, .mark operator ∈ f item ↔ g item = true) :
    .mark operator ∈ [.mark separator].intercalate (items.map f) ↔
      (operator = separator && 1 < items.length || items.any g) = true := by
  have hitems : (∃ item ∈ items.map f, .mark operator ∈ item) ↔ items.any g = true := by
    simp only [List.mem_map, exists_exists_and_eq_and, List.any_eq_true]
    exact exists_congr fun item => and_congr_right (h item)
  rw [mem_intercalate, hitems, List.length_map]
  simp

end Symbol

namespace TypeExpr

open ApiTypes.Symbol

mutual

/-- Whether a type is printed with an operator, `|` or `&`, outside all brackets. -/
def hasOperator (operator : Char) : TypeExpr → Bool
  | .literals _ values => operator = '|' && 1 < values.length
  | .array item => !item.needsParentheses && item.hasOperator operator
  | .union members => (operator = '|' && 1 < members.length) || anyHasOperator operator members
  | .intersection members =>
    (operator = '&' && 1 < members.length) || anyExposes operator members
  | _ => false

/-- Whether one of the members of a union is printed with the operator. -/
def anyHasOperator (operator : Char) : List TypeExpr → Bool
  | [] => false
  | member :: rest => member.hasOperator operator || anyHasOperator operator rest

/-- Whether one of the members of an intersection that stand without parentheses is printed
with the operator. -/
def anyExposes (operator : Char) : List TypeExpr → Bool
  | [] => false
  | member :: rest =>
    (!member.isAlternative && member.hasOperator operator) || anyExposes operator rest

end

/-- One of several types has an operator. -/
theorem anyHasOperator_eq (operator : Char) (members : List TypeExpr) :
    anyHasOperator operator members = members.any (hasOperator operator) := by
  induction members with
  | nil => rfl
  | cons member rest ih => rw [anyHasOperator, ih, List.any_cons]

/-- One of several types shows an operator outside parentheses. -/
theorem anyExposes_eq (operator : Char) (members : List TypeExpr) :
    anyExposes operator members =
      members.any fun member => !member.isAlternative && member.hasOperator operator := by
  induction members with
  | nil => rfl
  | cons member rest ih => rw [anyExposes, ih, List.any_cons]

/-- Parentheses hide what is inside. -/
theorem balanced_enclose {symbols outer : List Symbol} (h : Balanced symbols outer)
    (needed : Bool) : Balanced (enclose symbols needed) (if needed then [] else outer) := by
  cases needed with
  | false => exact h
  | true => exact h.between (by decide) (by decide) (by decide)

/-- The heading and the type of a member of an object are balanced. -/
theorem balanced_member {heading outer symbols others : List Symbol}
    (hheading : Balanced heading outer) (h : Balanced symbols others) :
    Balanced (memberSymbols heading symbols)
      (outer ++ ([.mark ':'] ++ others) ++ [.mark ';']) := by
  have hcolon : Balanced [.mark ':'] [.mark ':'] := .of_plain (by decide)
  have hend : Balanced [.mark ';'] [.mark ';'] := .of_plain (by decide)
  exact (hheading.append (hcolon.append h)).append hend

/-- The key of an index signature stands in brackets. -/
theorem balanced_index (key : Json) : Balanced (indexSymbols key) [] := by
  have hinner : Balanced [.word key.inText, .mark ':', .word "string"] _ :=
    .of_plain (by simp [opens, closes])
  exact hinner.between (by decide) (by decide) (by decide)

/-- The heading of a property has no brackets. -/
theorem balanced_heading {α : Type} (property : Property α) :
    Balanced (headingSymbols property) (headingSymbols property) := by
  refine .of_plain fun symbol hmem => ?_
  simp only [headingSymbols, List.mem_append, List.mem_cons] at hmem
  rcases hmem with hmem | rfl | hmem
  · split at hmem
    · rw [List.mem_singleton.mp hmem]
      decide
    · cases hmem
  · obtain ⟨text, htext | htext⟩ := ofName_cases property.name.inText <;>
      simp [htext, opens, closes]
  · split at hmem
    · rw [List.mem_singleton.mp hmem]
      decide
    · cases hmem

/-- Listed values have no brackets. -/
theorem balanced_literals (base : String) (values : List Json) :
    Balanced (literals base values).symbols (literals base values).symbols :=
  .intercalate (by decide) (by decide) (forall₂_map fun value _ => by
    obtain ⟨text, htext | htext⟩ := ofLiteral_cases value <;> rw [htext] <;>
      exact .of_plain (by simp [opens, closes]))

/-- A list shows what its item does unless it is enclosed. -/
theorem balanced_array {item : TypeExpr} {outer : List Symbol} (h : Balanced item.symbols outer) :
    Balanced (array item).symbols (if item.needsParentheses then [] else outer) := by
  have hbrackets : Balanced [.mark '[', .mark ']'] [] :=
    Balanced.nil.between (by decide) (by decide) (by decide)
  have hwhole := (balanced_enclose h item.needsParentheses).append hbrackets
  rwa [List.append_nil] at hwhole

section

variable {f : TypeExpr → List Symbol}

/-- All members of an object type stand between braces. -/
theorem balanced_object {properties : List (Property TypeExpr)}
    {index? : Option (IndexSignature TypeExpr)}
    (h : ∀ operand ∈ (object properties index?).operands, Balanced operand.symbols (f operand)) :
    Balanced (object properties index?).symbols [] := by
  rw [operands_object, List.forall_mem_map] at h
  have hheading : ∀ entry ∈ entries properties index?, Balanced entry.1 (outside 0 entry.1) := by
    simp only [entries, List.mem_append, List.mem_map]
    rintro entry (⟨property, -, rfl⟩ | ⟨index, -, rfl⟩)
    · exact (balanced_heading property).self
    · exact (balanced_index index.key).self
  have hentries := Balanced.flatMap fun entry hmem =>
    balanced_member (hheading entry hmem) (h entry hmem)
  rw [symbols_object]
  exact hentries.between (by decide) (by decide) (by decide)

variable {members : List TypeExpr} (h : ∀ member ∈ members, Balanced member.symbols (f member))
include h

/-- A union shows what its members do, and bars between them. -/
theorem balanced_union :
    Balanced (union members).symbols ([.mark '|'].intercalate (members.map f)) := by
  rw [symbols, symbolsOfAll_eq]
  exact .intercalate (by decide) (by decide) (forall₂_map h)

/-- An intersection shows what its members do unless they are enclosed, and ampersands
between them. -/
theorem balanced_intersection :
    Balanced (intersection members).symbols ([.mark '&'].intercalate
      (members.map fun member => if member.isAlternative then [] else f member)) := by
  rw [symbols, symbolsOfFactors_eq]
  exact .intercalate (by decide) (by decide) (forall₂_map fun member hmem =>
    balanced_enclose (h member hmem) member.isAlternative)

end

/-- Every bracket in the text of a type is closed. -/
theorem balanced (type : TypeExpr) : Balanced type.symbols (outside 0 type.symbols) := by
  induction type using operands_induction with
  | step type ih =>
  cases type with
  | array item => exact (balanced_array (ih item (List.mem_singleton_self item))).self
  | object properties index? => exact (balanced_object ih).self
  | union members => exact (balanced_union ih).self
  | intersection members => exact (balanced_intersection ih).self
  | literals base values => exact (balanced_literals base values).self
  | _ => exact (Balanced.of_plain (by simp [symbols, opens, closes])).self

/-- Outside all brackets, the text of a type has just the operators that the type is printed
with. -/
theorem mem_outside_iff (type : TypeExpr) (operator : Char) :
    .mark operator ∈ outside 0 type.symbols ↔ type.hasOperator operator = true := by
  induction type using operands_induction with
  | step type ih =>
  cases type with
  | array item =>
    rw [(balanced_array (balanced item)).outside_eq, hasOperator]
    cases item.needsParentheses
    · simpa using ih item (List.mem_singleton_self item)
    · simp
  | object properties index? =>
    rw [(balanced_object fun operand _ => balanced operand).outside_eq]
    simp [hasOperator]
  | union members =>
    rw [(balanced_union fun member _ => balanced member).outside_eq, hasOperator,
      anyHasOperator_eq]
    exact mark_mem_intercalate_iff ih
  | intersection members =>
    rw [(balanced_intersection fun member _ => balanced member).outside_eq, hasOperator,
      anyExposes_eq]
    refine mark_mem_intercalate_iff fun member hmem => ?_
    cases member.isAlternative
    · simpa using ih member hmem
    · simp
  | literals base values =>
    have hnone : ∀ value ∈ values, (.mark operator ∈ [ofLiteral value] ↔ false = true) :=
      fun value _ => by
        obtain ⟨text, htext | htext⟩ := ofLiteral_cases value <;> simp [htext]
    rw [(balanced_literals base values).outside_eq, hasOperator, symbols,
      mark_mem_intercalate_iff hnone]
    simp
  | _ => simp [symbols, outside, hasOperator, opens, closes]

end TypeExpr

end ApiTypes
