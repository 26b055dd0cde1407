import ApiTypes.Proofs.Json.Quoted
import ApiTypes.Proofs.TypeExpr.Comment
import ApiTypes.TypeExpr.Printer

/-!
# The pieces of a printed type

A name or a literal is printed as one symbol. What stands before the type of a member is
printed as a comment, which has no symbols, and the symbols of the modifiers and the name.
-/

namespace ApiTypes

open Text

namespace Scanner

/-- Inside a quoted text, the characters are read without ending it. -/
def StaysQuoted (chars : List Char) : Prop :=
  ∀ read, run (.quoted read) chars = ([], .quoted (chars.reverse ++ read))

namespace StaysQuoted

/-- Pieces that stay quoted do so one after another. -/
theorem append {first second : List Char} (h : StaysQuoted first) (hsecond : StaysQuoted second) :
    StaysQuoted (first ++ second) := fun read => by
  rw [run_append, h, hsecond, List.reverse_append, List.append_assoc]
  rfl

/-- Pieces for all items of a list stay quoted. -/
theorem flatMap {α : Type} {f : α → List Char} (h : ∀ a, StaysQuoted (f a)) (items : List α) :
    StaysQuoted (items.flatMap f) := by
  induction items with
  | nil => exact fun _ => rfl
  | cons item rest ih => exact (h item).append ih

/-- Characters other than quotes and backslashes stand for themselves. -/
theorem of_plain {chars : List Char} (h : ∀ c ∈ chars, c ≠ '"' ∧ c ≠ '\\') :
    StaysQuoted chars := by
  induction chars with
  | nil => exact fun _ => rfl
  | cons c rest ih =>
    obtain ⟨⟨hquote, hslash⟩, hrest⟩ := List.forall_mem_cons.mp h
    intro read
    rw [run_cons, step, if_neg hquote, if_neg hslash, ih hrest, List.reverse_cons,
      List.append_assoc]
    rfl

/-- The character after a backslash stands for itself. -/
theorem escape (c : Char) : StaysQuoted ['\\', c] := fun _ => rfl

end StaysQuoted

/-- Hexadecimal digits stay quoted. -/
theorem staysQuoted_hex4 (n : Nat) : StaysQuoted (Json.hex4 n) := by
  have hdigit : ∀ d < 16, Nat.digitChar d ≠ '"' ∧ Nat.digitChar d ≠ '\\' := by decide
  refine .of_plain fun c hc => ?_
  obtain ⟨d, hlt, rfl⟩ := Json.exists_digit_of_mem_hex4 hc
  exact hdigit d hlt

/-- An escaped character stays quoted. -/
theorem staysQuoted_escapeChar (c : Char) : StaysQuoted (Json.escapeChar c) := by
  have hunicode : ∀ n, StaysQuoted ('\\' :: 'u' :: Json.hex4 n) := fun n =>
    (StaysQuoted.escape 'u').append (staysQuoted_hex4 n)
  rcases Json.escapeChar_cases c with ⟨letter, heq, _⟩ | ⟨heq, _, hquote, hslash⟩ | ⟨heq, _⟩ |
    ⟨heq, _⟩
  · rw [heq]
    exact .escape letter
  · rw [heq]
    exact .of_plain (List.forall_mem_singleton.mpr ⟨hquote, hslash⟩)
  · rw [heq]
    exact hunicode _
  · rw [heq]
    exact (hunicode _).append (hunicode _)

/-- A quoted text is one symbol, whatever is quoted. -/
theorem settles_quote (text : String) :
    Settles (Json.quote text) [.quoted (Json.quote text)] := by
  have hbody : StaysQuoted (text.toList.flatMap Json.escapeChar) :=
    .flatMap staysQuoted_escapeChar _
  have hopen : ∀ rest, run .between ('"' :: rest) = run (.quoted ['"']) rest := fun rest => by
    rw [run_cons]
    rfl
  rw [Settles, Json.quote, String.toList_ofList, List.cons_append, hopen, run_append, hbody,
    run_cons, step, if_pos rfl]
  simp [run]

end Scanner

namespace Symbol

/-- A word has characters of words only, and at least one. -/
theorem isWord_iff {text : String} :
    isWord text = true ↔ text.toList ≠ [] ∧ ∀ c ∈ text.toList, isWordChar c = true := by
  simp [isWord, List.all_eq_true]

/-- The characters of identifiers may stand in words. -/
theorem isWordChar_of_isPart {c : Char} (h : Identifier.isPart c = true) :
    isWordChar c = true := by
  have hascii : ∀ n < 128, Identifier.isPart (Char.ofNat n) = true →
      isWordChar (Char.ofNat n) = true := by decide
  have halphanum : c.isAlphanum = ((decide ('A' ≤ c ∧ c ≤ 'Z') || ('a' ≤ c && c ≤ 'z')) ||
      ('0' ≤ c && c ≤ '9')) := rfl
  have hlt : c.toNat < 128 := by
    simp only [Identifier.isPart, halphanum, Bool.or_eq_true, Bool.and_eq_true,
      decide_eq_true_eq, beq_iff_eq] at h
    rcases h with ((((h | h) | h) | rfl) | rfl)
    all_goals first
      | decide
      | exact Nat.lt_of_le_of_lt h.2 (by decide)
  have hchar := hascii c.toNat hlt
  rw [Char.ofNat_toNat] at hchar
  exact hchar h

/-- The digits of a number may stand in words. -/
theorem isWordChar_of_mem_toDigits {n : Nat} {c : Char} (h : c ∈ Nat.toDigits 10 n) :
    isWordChar c = true := by
  have hdigit : c.isDigit = true := Nat.isDigit_of_mem_toDigits (by decide) (by decide) h
  exact isWordChar_of_isPart (by simp [Identifier.isPart, Char.isAlphanum, hdigit])

/-- The symbol of a literal. -/
def ofLiteral : Json → Symbol
  | .str text => .quoted (Json.quote text)
  | value => .word value.text

/-- The symbol of a name of a member, which may be written without quotes or not. -/
def ofName (name : String) : Symbol :=
  if Identifier.isBare name then .word (String.ofList (name.toList.filter Identifier.isPart))
  else .quoted (Json.quote name)

/-- A literal is no mark. -/
theorem ofLiteral_cases (value : Json) :
    ∃ text, ofLiteral value = .word text ∨ ofLiteral value = .quoted text := by
  cases value with
  | str text => exact ⟨_, .inr rfl⟩
  | _ => exact ⟨_, .inl rfl⟩

/-- A name of a member is no mark. -/
theorem ofName_cases (name : String) :
    ∃ text, ofName name = .word text ∨ ofName name = .quoted text := by
  unfold ofName
  split
  · exact ⟨_, .inl rfl⟩
  · exact ⟨_, .inr rfl⟩

end Symbol

section Words

open ApiTypes.Symbol

/-- A sign before a word continues it. -/
theorem isWord_negative {text : String} (h : isWord text = true) :
    isWord ("-" ++ text) = true := by
  obtain ⟨-, hall⟩ := isWord_iff.mp h
  rw [isWord_iff, String.toList_append]
  exact ⟨List.cons_ne_nil _ _, List.forall_mem_cons.mpr ⟨by decide, hall⟩⟩

/-- A number is a word. -/
theorem isWord_toString (n : Int) : isWord (toString n) = true := by
  have hnat : ∀ m : Nat, isWord (toString m) = true := fun m => by
    rw [Nat.toString_eq_ofList_toDigits, isWord_iff, String.toList_ofList]
    exact ⟨Nat.toDigits_ne_nil, fun c => isWordChar_of_mem_toDigits⟩
  cases n with
  | ofNat m => exact hnat m
  | negSucc m => exact isWord_negative (hnat (m + 1))

/-- A magnitude is written with digits, a point, and an exponent with its sign. -/
theorem isWord_scaledText (x : Decimal.Scaled) : isWord x.text = true := by
  have hmarks : isWordChar '0' ∧ isWordChar '.' ∧ isWordChar 'e' ∧ isWordChar '-' ∧
      isWordChar '+' := by decide
  unfold Decimal.Scaled.text
  extract_lets digits point fraction power
  have hdigits : ∀ c ∈ digits, isWordChar c = true := fun _ => isWordChar_of_mem_toDigits
  have hpower : ∀ c ∈ power, isWordChar c = true := fun _ => isWordChar_of_mem_toDigits
  clear_value digits power
  have hfraction : ∀ c ∈ fraction, isWordChar c = true := by
    intro c hc
    simp only [fraction] at hc
    split at hc <;> grind
  clear_value fraction
  repeat' split
  all_goals
    refine isWord_iff.mpr ⟨by simp, fun c hc => ?_⟩
    simp only [String.toList_append, String.toList_ofList, List.mem_append] at hc
    grind

/-- Words are read for values that are not finite, and a sign stands before a negative value. -/
theorem isWord_readingText (reading : Decimal.Reading) :
    isWord (reading.text "Infinity" "NaN") = true := by
  have hinfinity : isWord "Infinity" = true := by decide
  cases reading with
  | finite negative magnitude =>
    have hunsigned : isWord (if magnitude.mantissa = 0 then "0.0"
        else (magnitude.shortest.reduce 17).text) = true := by
      split
      · decide
      · exact isWord_scaledText _
    cases negative
    · exact hunsigned
    · exact isWord_negative hunsigned
  | infinite negative =>
    cases negative
    · exact hinfinity
    · exact isWord_negative hinfinity
  | notNumber => decide

/-- A literal that is no list and no object is one symbol. -/
theorem scan_literal {value : Json} (h : value.isKey = true) :
    scan value.text = some [ofLiteral value] := by
  cases value with
  | str text => exact (Scanner.settles_quote text).scan_eq
  | int n => exact Scanner.scan_word (isWord_toString n)
  | float x => exact Scanner.scan_word (isWord_readingText _)
  | null => decide
  | bool value => cases value <;> decide
  | arr items => cases h
  | obj members => cases h

/-- The characters of a name are those that may stand in one. -/
theorem isPart_of_isWord {chars : List Char} (h : Identifier.isWord chars = true) :
    chars ≠ [] ∧ ∀ c ∈ chars, Identifier.isPart c = true := by
  cases chars with
  | nil => cases h
  | cons c rest =>
    rw [Identifier.isWord, Bool.and_eq_true, List.all_eq_true] at h
    obtain ⟨hstart, hrest⟩ := h
    refine ⟨List.cons_ne_nil _ _, List.forall_mem_cons.mpr ⟨?_, hrest⟩⟩
    simp only [Identifier.isStart, Identifier.isPart, Char.isAlphanum, Bool.or_eq_true] at hstart ⊢
    tauto

/-- A name is scanned as a word. -/
theorem scan_identifier {word : String} (h : Identifier.isWord word.toList = true) :
    scan word = some [.word (String.ofList (word.toList.filter Identifier.isPart))] := by
  obtain ⟨hne, hparts⟩ := isPart_of_isWord h
  rw [List.filter_eq_self.mpr hparts, String.ofList_toList]
  exact Scanner.scan_word (isWord_iff.mpr ⟨hne, fun c hc => isWordChar_of_isPart (hparts c hc)⟩)

/-- A name of a member is one symbol. The line end that a bare name may end with is passed
over. -/
theorem scan_propertyName (name : String) :
    scan (Identifier.propertyName name) = some [ofName name] := by
  unfold Identifier.propertyName ofName
  split
  · rename_i hbare
    rcases Identifier.isBare_iff_isWord.mp hbare with hword | ⟨word, hword, rfl⟩
    · exact scan_identifier hword
    · have hparts : (word ++ "\n").toList.filter Identifier.isPart =
          word.toList.filter Identifier.isPart := by
        have hline : "\n".toList.filter Identifier.isPart = [] := by decide
        rw [String.toList_append, List.filter_append, hline, List.append_nil]
      have hline : Scanner.Settles "\n" [] := rfl
      have hsettles := Scanner.Settles.of_scan (scan_identifier hword) hline
        ⟨'\n', [], rfl, by decide⟩
      rw [hparts]
      exact hsettles.scan_eq
  · exact (Scanner.settles_quote name).scan_eq

end Words

namespace TypeExpr

open Scanner

/-- Whether what is written before the type of a member can be: a text for the name, and a
text for the comment if there is one. -/
def isNamed {α : Type} (property : Property α) : Bool :=
  property.name.text?.isSome && (!property.comment.truthy || property.comment.text?.isSome)

/-- The symbols of the modifiers and the name of a member. -/
def headingSymbols {α : Type} (property : Property α) : List Symbol :=
  (if property.readOnly then [.word "readonly"] else []) ++
    Symbol.ofName property.name.inText :: (if property.optional then [.mark '?'] else [])

/-- The symbols before the type of the members that are not named, but for the colon. -/
def indexSymbols (key : Json) : List Symbol :=
  [.mark '[', .word key.inText, .mark ':', .word "string", .mark ']']

section

variable {indent : String} (hindent : ∀ c ∈ indent.toList, isBlank c = true)
include hindent

/-- A comment that is a text or missing has a line, which has no symbols. -/
theorem exists_commentLine {comment : Json}
    (h : (!comment.truthy || comment.text?.isSome) = true) :
    ∃ text, commentLine indent comment = .ok text ∧ Settles text [] := by
  unfold commentLine
  split
  · rename_i htruthy
    rw [htruthy, Bool.not_true, Bool.false_or] at h
    cases comment with
    | str text => exact ⟨_, rfl, settles_format hindent text⟩
    | _ => cases h
  · exact ⟨"", rfl, rfl⟩

/-- What stands before the type of a member has the symbols of the modifiers and the name. -/
theorem exists_heading {α : Type} {property : Property α} (h : isNamed property = true) :
    ∃ text, heading indent property = .ok text ∧
      Settles text (headingSymbols property ++ [.mark ':']) := by
  obtain ⟨name, type, optional, readOnly, comment⟩ := property
  obtain ⟨hname, hcomment⟩ := Bool.and_eq_true_iff.mp h
  obtain ⟨before, hbefore, hsettled⟩ := exists_commentLine hindent hcomment
  cases name with
  | str name =>
    refine ⟨_, by simp only [heading, hbefore]; rfl, ?_⟩
    have hmodifier : Settles (if readOnly then "readonly " else "")
        (if readOnly then [.word "readonly"] else []) := by
      cases readOnly <;> rfl
    have hend : Settles (if optional then "?: " else ": ")
        ((if optional then [.mark '?'] else []) ++ [.mark ':']) := by
      cases optional <;> rfl
    have hapart : StartsApart (if optional then "?: " else ": ") := by
      cases optional
      · exact ⟨':', [' '], rfl, by decide⟩
      · exact ⟨'?', [':', ' '], rfl, by decide⟩
    have hnamed := Settles.of_scan (scan_propertyName name) hend hapart
    have hwhole := ((hsettled.append (settles_blank hindent)).append hmodifier).append hnamed
    rw [← String.append_assoc] at hwhole
    simpa [headingSymbols, Json.inText] using hwhole
  | _ => cases hname

/-- The heading of an index signature is scanned as its symbols. -/
theorem settles_indexHeading {key : Json} (h : Symbol.isWord key.inText = true) :
    Settles (indexHeading indent key) (indexSymbols key ++ [.mark ':']) := by
  have hopen : Settles "[" [.mark '['] := rfl
  have hend : Settles ": string]: " [.mark ':', .word "string", .mark ']', .mark ':'] := rfl
  have hkey := Settles.of_scan (scan_word h) hend ⟨':', " string]: ".toList, rfl, by decide⟩
  have hwhole := ((settles_blank hindent).append hopen).append hkey
  rw [← String.append_assoc] at hwhole
  exact hwhole

end

end TypeExpr

end ApiTypes
