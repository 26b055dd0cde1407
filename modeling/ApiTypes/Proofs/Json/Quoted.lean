import ApiTypes.Json.Reader
import ApiTypes.Json.Text

/-!
# Quoted texts are read back

A quoted text is written on one line of plain characters, whatever is quoted, and it is read
back as that text. A character is written as one code or, beyond the basic plane, as two that
are the halves of a pair. No character is half of a pair itself, so the codes of a text are
paired in one way only.
-/

namespace ApiTypes.Json

/-- An ASCII character that is printed. -/
def IsPrinted (c : Char) : Prop := ' ' ≤ c ∧ c ≤ '~'

instance (c : Char) : Decidable (IsPrinted c) := inferInstanceAs (Decidable (_ ∧ _))

/-- A literal on one line that stands for a text. -/
structure IsLiteralOf (literal text : String) : Prop where
  /-- It is a quoted text, with nothing after it, and decoded it is the text. -/
  decodes : unquote? literal.toList = some text
  /-- As a JSON text it is read as the text. -/
  reads : read literal = .ok (.str text)
  /-- It has ASCII characters that are printed, and no others. -/
  oneLine : ∀ c ∈ literal.toList, IsPrinted c

/-- A literal stands for one text only. -/
theorem IsLiteralOf.unique {literal text other : String} (h : IsLiteralOf literal text)
    (h' : IsLiteralOf literal other) : text = other :=
  Option.some.inj (h.decodes.symm.trans h'.decodes)

/-! ### Codes -/

/-- The codes that are written for a character. -/
def codesOf (c : Char) : List Nat :=
  if c.toNat < 0x10000 then [c.toNat]
  else [0xD800 + (c.toNat - 0x10000) / 0x400, 0xDC00 + (c.toNat - 0x10000) % 0x400]

/-- No character is half of a pair. -/
theorem toNat_lt_or_le (c : Char) : c.toNat < 0xD800 ∨ 0xE000 ≤ c.toNat ∧ c.toNat < 0x110000 := by
  rcases c.valid with hlow | ⟨hlow, hhigh⟩
  · exact Or.inl hlow
  · exact Or.inr ⟨hlow, hhigh⟩

/-- The codes of a character are read as that character, whatever comes after them. -/
theorem ofCodes_codesOf (c : Char) (codes : List Nat) :
    ofCodes (codesOf c ++ codes) = c :: ofCodes codes := by
  have hrange := toNat_lt_or_le c
  unfold codesOf
  split
  · have hcode : ofCode c.toNat = c := by
      rw [ofCode, if_neg (by simp; omega), Char.ofNat_toNat]
    cases codes with
    | nil => simp [ofCodes, hcode]
    | cons low rest =>
      rw [List.singleton_append, ofCodes, if_neg (by simp; omega), hcode]
  · have hvalue : 0x10000 + (0xD800 + (c.toNat - 0x10000) / 0x400 - 0xD800) * 0x400 +
        (0xDC00 + (c.toNat - 0x10000) % 0x400 - 0xDC00) = c.toNat := by omega
    rw [List.cons_append, List.singleton_append, ofCodes, if_pos (by simp; omega), hvalue,
      Char.ofNat_toNat]

/-- The codes of a text are read as the text. -/
theorem ofCodes_flatMap (text : List Char) : ofCodes (text.flatMap codesOf) = text := by
  induction text with
  | nil => rfl
  | cons c rest ih => rw [List.flatMap_cons, ofCodes_codesOf, ih]

/-! ### Escapes -/

/-- A code is written with hexadecimal digits. -/
theorem exists_digit_of_mem_hex4 {code : Nat} {c : Char} (h : c ∈ hex4 code) :
    ∃ d < 16, Nat.digitChar d = c := by
  obtain ⟨d, hd, rfl⟩ := List.mem_map.mp h
  simp only [List.mem_cons, List.not_mem_nil, or_false] at hd
  exact ⟨d, by omega, rfl⟩

/-- A character is written with a letter of its own, as it is, or with one or two codes. -/
theorem escapeChar_cases (c : Char) :
    (∃ letter, escapeChar c = ['\\', letter] ∧ IsPrinted letter ∧
      shortEscape? letter = some c.toNat ∧ c.toNat < 0x10000) ∨
    (escapeChar c = [c] ∧ IsPrinted c ∧ c ≠ '"' ∧ c ≠ '\\') ∨
    (escapeChar c = '\\' :: 'u' :: hex4 c.toNat ∧ c.toNat < 0x10000) ∨
    escapeChar c = '\\' :: 'u' :: hex4 (0xD800 + (c.toNat - 0x10000) / 0x400) ++
      '\\' :: 'u' :: hex4 (0xDC00 + (c.toNat - 0x10000) % 0x400) ∧ 0x10000 ≤ c.toNat := by
  by_cases hletter : c ∈ ['"', '\\', '\n', '\r', '\t', '\x0c', '\x08']
  · simp only [List.mem_cons, List.not_mem_nil, or_false] at hletter
    rcases hletter with rfl | rfl | rfl | rfl | rfl | rfl | rfl <;>
      exact Or.inl ⟨_, rfl, by decide, by decide, by decide⟩
  · simp only [List.mem_cons, List.not_mem_nil, or_false, not_or] at hletter
    obtain ⟨hquote, hslash, hfeed, hreturn, htab, hpage, hback⟩ := hletter
    simp only [escapeChar, hquote, hslash, hfeed, hreturn, htab, hpage, hback, if_false]
    split
    · rename_i hprinted
      simp only [Bool.and_eq_true, decide_eq_true_eq] at hprinted
      have hlast : c.toNat ≤ '~'.toNat := Nat.le_of_lt_succ hprinted.2
      exact Or.inr (Or.inl ⟨rfl, ⟨hprinted.1, hlast⟩, hquote, hslash⟩)
    · split
      · rename_i hbasic
        exact Or.inr (Or.inr (Or.inl ⟨rfl, hbasic⟩))
      · rename_i hbeyond
        exact Or.inr (Or.inr (Or.inr ⟨rfl, Nat.le_of_not_lt hbeyond⟩))

/-- Characters inside a quoted text that are read as some codes, whatever comes after them. -/
def ReadsAs (chars : List Char) (codes : List Nat) : Prop :=
  ∀ rest, readCodes? (chars ++ rest) =
    (readCodes? rest).map fun (more, after) => (codes ++ more, after)

namespace ReadsAs

theorem append {first second : List Char} {codes more : List Nat} (h : ReadsAs first codes)
    (hsecond : ReadsAs second more) : ReadsAs (first ++ second) (codes ++ more) := fun rest => by
  rw [List.append_assoc, h, hsecond, Option.map_map]
  congr 1
  funext result
  exact congrArg (·, result.2) (List.append_assoc ..).symm

theorem flatMap {written : Char → List Char} {codes : Char → List Nat}
    (h : ∀ c, ReadsAs (written c) (codes c)) (text : List Char) :
    ReadsAs (text.flatMap written) (text.flatMap codes) := by
  induction text with
  | nil =>
    intro rest
    simp
  | cons c rest ih => exact (h c).append ih

/-- A character that needs no escape is read as it is. -/
theorem plain {c : Char} (hquote : c ≠ '"') (hslash : c ≠ '\\') (h : 0x20 ≤ c.toNat) :
    ReadsAs [c] [c.toNat] := fun rest => by
  have hkept : ¬ (c = '\\' || decide (c.toNat < 0x20)) = true := by
    simp only [hslash, decide_false, Bool.false_or, decide_eq_true_eq]
    omega
  rw [List.singleton_append, readCodes?, if_neg hkept, Option.map_eq_bind]
  · rfl
  · exact hquote
  · exact fun _ _ _ _ _ heq => absurd heq hslash
  · exact fun _ _ heq => absurd heq hslash

/-- A character of its own escape is read by that. -/
theorem short {c : Char} {code : Nat} (h : shortEscape? c = some code) :
    ReadsAs ['\\', c] [code] := fun rest => by
  rw [List.cons_append, List.singleton_append, readCodes?, h, Option.map_eq_bind]
  · rfl
  · -- The escape of a code has a letter of its own.
    rintro _ _ _ _ _ rfl
    cases h

/-- A code is read from its escape. -/
theorem hex4 {code : Nat} (h : code < 0x10000) :
    ReadsAs ('\\' :: 'u' :: Json.hex4 code) [code] := fun rest => by
  have hdigit : ∀ d < 16, hexValue? (Nat.digitChar d) = some d := by decide
  have hmod (n : Nat) : hexValue? (Nat.digitChar (n % 16)) = some (n % 16) :=
    hdigit _ (Nat.mod_lt _ (by decide))
  have hcode : ((code / 4096 % 16 * 16 + code / 256 % 16) * 16 + code / 16 % 16) * 16 +
      code % 16 = code := by omega
  have hread : hexCode? (Nat.digitChar (code / 4096 % 16)) (Nat.digitChar (code / 256 % 16))
      (Nat.digitChar (code / 16 % 16)) (Nat.digitChar (code % 16)) = some code := by
    simp [hexCode?, hmod, hcode]
  simp only [Json.hex4, List.map_cons, List.map_nil, List.cons_append, List.nil_append, readCodes?,
    hread]
  cases readCodes? rest <;> rfl

end ReadsAs

/-- A character inside a quoted text is read as its codes. -/
theorem readsAs_escapeChar (c : Char) : ReadsAs (escapeChar c) (codesOf c) := by
  rcases escapeChar_cases c with ⟨letter, heq, _, hshort, hbasic⟩ |
    ⟨heq, hprinted, hquote, hslash⟩ | ⟨heq, hbasic⟩ | ⟨heq, hbeyond⟩
  · rw [heq, codesOf, if_pos hbasic]
    exact .short hshort
  · have hlast : c.toNat ≤ 0x7E := hprinted.2
    rw [heq, codesOf, if_pos (by omega)]
    exact .plain hquote hslash hprinted.1
  · rw [heq, codesOf, if_pos hbasic]
    exact .hex4 hbasic
  · have hrange := toNat_lt_or_le c
    rw [heq, codesOf, if_neg (by omega)]
    exact (ReadsAs.hex4 (by omega)).append (ReadsAs.hex4 (by omega))

/-- A text is read up to the quote that closes it. -/
theorem readQuoted?_escape (text after : List Char) :
    readQuoted? (text.flatMap escapeChar ++ '"' :: after) = some (String.ofList text, after) := by
  have hcodes : readCodes? (text.flatMap escapeChar ++ '"' :: after) =
      some (text.flatMap codesOf, after) := by
    rw [ReadsAs.flatMap readsAs_escapeChar text ('"' :: after), readCodes?]
    simp
  rw [readQuoted?, hcodes]
  simp [ofCodes_flatMap]

/-- The escape of a code is printed. -/
theorem isPrinted_hex4 (code : Nat) : ∀ c ∈ '\\' :: 'u' :: hex4 code, IsPrinted c := by
  have hdigit : ∀ d < 16, IsPrinted (Nat.digitChar d) := by decide
  refine List.forall_mem_cons.mpr ⟨by decide, List.forall_mem_cons.mpr ⟨by decide, fun c hc => ?_⟩⟩
  obtain ⟨d, hlt, rfl⟩ := exists_digit_of_mem_hex4 hc
  exact hdigit d hlt

/-- Whatever a character is, it is written with printed characters. -/
theorem isPrinted_escapeChar (c : Char) : ∀ d ∈ escapeChar c, IsPrinted d := by
  rcases escapeChar_cases c with ⟨letter, heq, hletter, _⟩ | ⟨heq, hprinted, _⟩ | ⟨heq, _⟩ |
    ⟨heq, _⟩
  · rw [heq]
    exact List.forall_mem_cons.mpr ⟨by decide, List.forall_mem_singleton.mpr hletter⟩
  · rw [heq]
    exact List.forall_mem_singleton.mpr hprinted
  · rw [heq]
    exact isPrinted_hex4 _
  · rw [heq]
    exact List.forall_mem_append.mpr ⟨isPrinted_hex4 _, isPrinted_hex4 _⟩

/-- A quoted text is a literal that stands for the text. -/
theorem quote_isLiteralOf (text : String) : IsLiteralOf (quote text) text := by
  have hchars : (quote text).toList = '"' :: (text.toList.flatMap escapeChar ++ ['"']) :=
    String.toList_ofList
  have hquoted : readQuoted? (text.toList.flatMap escapeChar ++ ['"']) = some (text, []) := by
    rw [readQuoted?_escape, String.ofList_toList]
  constructor
  · rw [hchars, unquote?, hquoted]
  · have hvalue (limit : Nat) :
        readValue (limit + 1) (quote text).toList = .ok (.str text, []) := by
      have hskip : skipBlank (quote text).toList = (quote text).toList := by
        rw [hchars]
        rfl
      rw [readValue, hskip, hchars]
      simp only [hquoted]
      rfl
    rw [read, hvalue]
    rfl
  · rw [hchars]
    refine List.forall_mem_cons.mpr ⟨by decide, fun c hc => ?_⟩
    rcases List.mem_append.mp hc with hc | hc
    · obtain ⟨original, _, hc⟩ := List.mem_flatMap.mp hc
      exact isPrinted_escapeChar original c hc
    · rw [List.mem_singleton.mp hc]
      decide

end ApiTypes.Json
