import ApiTypes.Proofs.Identifier
import ApiTypes.Text.Split

/-!
# Capitalised texts

What a text is capitalised to has ASCII letters and digits only, and every lower-case letter
in it follows a letter. Such texts are left as they are, so nothing changes when a text is
capitalised twice. Words in lower-case letters are told apart by what is written between them
or by the capital that each one starts with, and come out as the same text either way. In
words that are all capitals every letter is a word of its own.
-/

namespace ApiTypes.Identifier

open Text (joinWith)

/-! ### One character after another -/

section Characters

variable {c : Char} (afterLetter : Bool) (rest : List Char)

/-- No capital is a small letter. -/
theorem not_isLower_of_isUpper (h : c.isUpper = true) : ¬ c.isLower = true := by
  intro hlower
  have hz : c.toNat ≤ 90 := ((isUpper_iff c).mp h).2
  have ha : 97 ≤ c.toNat := ((isLower_iff c).mp hlower).1
  omega

/-- The capital of a lower-case letter stands 32 places before it. -/
theorem isUpper_toUpper (h : c.isLower = true) : c.toUpper.isUpper = true := by
  obtain ⟨ha, hz⟩ := (isLower_iff c).mp h
  have hlow : 97 ≤ c.val.toNat := ha
  have hhigh : c.val.toNat ≤ 122 := hz
  have hval : c.toUpper.val.toNat = c.val.toNat - 32 := by
    -- The difference of the two alphabets is negative, so the sum is taken modulo 2 ^ 32.
    have hdifference : ('A'.val - 'a'.val).toNat = 4294967264 := rfl
    delta Char.toUpper
    rw [dif_pos ⟨ha, hz⟩]
    dsimp only
    rw [UInt32.toNat_add, hdifference]
    omega
  rw [isUpper_iff]
  change 65 ≤ c.toUpper.val.toNat ∧ c.toUpper.val.toNat ≤ 90
  omega

/-- A capital is a letter. -/
theorem isAlpha_of_isUpper (h : c.isUpper = true) : c.isAlpha = true :=
  Bool.or_eq_true_iff.mpr (Or.inl h)

/-- A small letter is a letter. -/
theorem isAlpha_of_isLower (h : c.isLower = true) : c.isAlpha = true :=
  Bool.or_eq_true_iff.mpr (Or.inr h)

/-- A small letter stays behind a letter, and is made a capital elsewhere. -/
theorem capitalize_lower (h : c.isLower = true) :
    capitalize afterLetter (c :: rest) =
      (if afterLetter then c else c.toUpper) :: capitalize true rest := by
  rw [capitalize, if_pos h]

/-- A capital stays. -/
theorem capitalize_upper (h : c.isUpper = true) :
    capitalize afterLetter (c :: rest) = c :: capitalize true rest := by
  rw [capitalize, if_neg (not_isLower_of_isUpper h), if_pos h]

/-- No digit is a capital. -/
theorem not_isUpper_of_isDigit (h : c.isDigit = true) : ¬ c.isUpper = true := fun hupper =>
  (show StartsName c from .inl ((isUpper_iff c).mp hupper)).not_isDigit h

/-- A digit stays, and is no letter. -/
theorem capitalize_digit (h : c.isDigit = true) :
    capitalize afterLetter (c :: rest) = c :: capitalize false rest := by
  rw [capitalize, if_neg (not_isLower_of_isDigit h), if_neg (not_isUpper_of_isDigit h), if_pos h]

/-- All other characters are left out. -/
theorem capitalize_other (h : c.isAlphanum = false) :
    capitalize afterLetter (c :: rest) = capitalize false rest := by
  obtain ⟨hletter, hdigit⟩ := Bool.or_eq_false_iff.mp h
  obtain ⟨hupper, hlower⟩ := Bool.or_eq_false_iff.mp hletter
  simp only [capitalize, hupper, hlower, hdigit, Bool.false_eq_true, if_false]

/-- The ways of capitalising one character. -/
theorem lower_or_upper_or_digit_or_other (c : Char) : c.isLower = true ∨ c.isUpper = true ∨
    c.isDigit = true ∨ c.isAlphanum = false := by
  cases halphanum : c.isAlphanum with
  | false => exact Or.inr (Or.inr (Or.inr rfl))
  | true =>
    rcases Bool.or_eq_true_iff.mp halphanum with hletter | hdigit
    · rcases Bool.or_eq_true_iff.mp hletter with hupper | hlower
      · exact Or.inr (Or.inl hupper)
      · exact Or.inl hlower
    · exact Or.inr (Or.inr (Or.inl hdigit))

end Characters

/-! ### What a text is capitalised to -/

/-- A text that is capitalised: it has ASCII letters and digits only, and no lower-case letter
starts it or follows a digit. -/
structure IsCapitalized (text : List Char) : Prop where
  /-- All its characters are letters and digits. -/
  alphanum : ∀ c ∈ text, c.isAlphanum = true
  /-- It does not start with a lower-case letter. -/
  start : ∀ c ∈ text.head?, ¬ c.isLower = true
  /-- After a digit there is no lower-case letter. -/
  after_digit : text.IsChain fun c next => c.isDigit = true → ¬ next.isLower = true

/-- A text whose lower-case letters follow letters, read after a letter or not. -/
inductive Continues : (afterLetter : Bool) → List Char → Prop
  | nil (afterLetter : Bool) : Continues afterLetter []
  | lower {c : Char} {rest : List Char} (h : c.isLower = true) (hrest : Continues true rest) :
    Continues true (c :: rest)
  | upper (afterLetter : Bool) {c : Char} {rest : List Char} (h : c.isUpper = true)
    (hrest : Continues true rest) : Continues afterLetter (c :: rest)
  | digit (afterLetter : Bool) {c : Char} {rest : List Char} (h : c.isDigit = true)
    (hrest : Continues false rest) : Continues afterLetter (c :: rest)

variable {afterLetter : Bool} {text : List Char}

/-- What may stand anywhere may stand after a letter. -/
theorem Continues.mono (h : Continues false text) (afterLetter : Bool) :
    Continues afterLetter text := by
  cases h with
  | nil => exact .nil afterLetter
  | upper _ h hrest => exact .upper afterLetter h hrest
  | digit _ h hrest => exact .digit afterLetter h hrest

/-- What is capitalised continues a capitalised text. -/
theorem continues_capitalize (afterLetter : Bool) (text : List Char) :
    Continues afterLetter (capitalize afterLetter text) := by
  induction text generalizing afterLetter with
  | nil => exact .nil afterLetter
  | cons c rest ih =>
    rcases lower_or_upper_or_digit_or_other c with hlower | hupper | hdigit | hother
    · rw [capitalize_lower _ _ hlower]
      cases afterLetter with
      | true => exact .lower hlower (ih true)
      | false =>
        refine .upper false ?_ (ih true)
        rw [if_neg Bool.false_ne_true]
        exact isUpper_toUpper hlower
    · rw [capitalize_upper _ _ hupper]
      exact .upper afterLetter hupper (ih true)
    · rw [capitalize_digit _ _ hdigit]
      exact .digit afterLetter hdigit (ih false)
    · rw [capitalize_other _ _ hother]
      exact (ih false).mono afterLetter

/-- Such a text is left as it is. -/
theorem Continues.capitalize_eq_self (h : Continues afterLetter text) :
    capitalize afterLetter text = text := by
  induction h with
  | nil => rfl
  | lower h _ ih => rw [capitalize_lower _ _ h, if_pos rfl, ih]
  | upper _ h _ ih => rw [capitalize_upper _ _ h, ih]
  | digit _ h _ ih => rw [capitalize_digit _ _ h, ih]

/-- Only after a letter such a text may start with a lower-case letter. -/
theorem Continues.of_head_isLower (h : Continues afterLetter text) :
    ∀ c ∈ text.head?, c.isLower = true → afterLetter = true := by
  rintro c hc hlower
  cases h with
  | nil => cases hc
  | lower => rfl
  | upper _ h =>
    obtain rfl := Option.some.inj hc
    exact absurd hlower (not_isLower_of_isUpper h)
  | digit _ h =>
    obtain rfl := Option.some.inj hc
    exact absurd hlower (not_isLower_of_isDigit h)

/-- Such a text has letters and digits only. -/
theorem Continues.isAlphanum (h : Continues afterLetter text) :
    ∀ c ∈ text, c.isAlphanum = true := by
  induction h with
  | nil => exact List.forall_mem_nil _
  | lower h _ ih =>
    exact List.forall_mem_cons.mpr ⟨by simp [Char.isAlphanum, isAlpha_of_isLower h], ih⟩
  | upper _ h _ ih =>
    exact List.forall_mem_cons.mpr ⟨by simp [Char.isAlphanum, isAlpha_of_isUpper h], ih⟩
  | digit _ h _ ih => exact List.forall_mem_cons.mpr ⟨by simp [Char.isAlphanum, h], ih⟩

/-- No small letter follows a digit in it. -/
theorem Continues.isChain (h : Continues afterLetter text) :
    text.IsChain fun c next => c.isDigit = true → ¬ next.isLower = true := by
  induction h with
  | nil => exact List.isChain_nil
  | lower h _ ih =>
    exact List.isChain_cons.mpr ⟨fun _ _ hdigit => absurd h (not_isLower_of_isDigit hdigit), ih⟩
  | upper _ h _ ih =>
    exact List.isChain_cons.mpr ⟨fun _ _ hdigit => absurd h (not_isUpper_of_isDigit hdigit), ih⟩
  | digit _ _ hrest ih =>
    exact List.isChain_cons.mpr ⟨fun next hnext _ hlower =>
      Bool.false_ne_true (hrest.of_head_isLower next hnext hlower), ih⟩

/-- At the start of a text it is capitalised. -/
theorem Continues.isCapitalized (h : Continues false text) : IsCapitalized text where
  alphanum := h.isAlphanum
  start c hc hlower := Bool.false_ne_true (h.of_head_isLower c hc hlower)
  after_digit := h.isChain

/-- A text of letters and digits continues another one when no small letter follows a digit. -/
theorem continues_of_chain (halphanum : ∀ c ∈ text, c.isAlphanum = true)
    (hstart : ∀ c ∈ text.head?, c.isLower = true → afterLetter = true)
    (hchain : text.IsChain fun c next => c.isDigit = true → ¬ next.isLower = true) :
    Continues afterLetter text := by
  induction text generalizing afterLetter with
  | nil => exact .nil afterLetter
  | cons c rest ih =>
    obtain ⟨hc, hrest⟩ := List.forall_mem_cons.mp halphanum
    obtain ⟨hnext, hmore⟩ := List.isChain_cons.mp hchain
    have hletter : Continues true rest := ih hrest (fun _ _ _ => rfl) hmore
    rcases lower_or_upper_or_digit_or_other c with hlower | hupper | hdigit | hother
    · obtain rfl := hstart c rfl hlower
      exact .lower hlower hletter
    · exact .upper afterLetter hupper hletter
    · exact .digit afterLetter hdigit
        (ih hrest (fun next hmem hlower => absurd hlower (hnext next hmem hdigit)) hmore)
    · rw [hother] at hc
      cases hc

/-- The texts that stay as they are when they are capitalised are those that are. -/
theorem pascal_eq_self_iff {text : String} : pascal text = text ↔ IsCapitalized text.toList := by
  rw [← String.toList_inj, pascal, String.toList_ofList]
  constructor
  · intro hself
    have hcontinues := continues_capitalize false text.toList
    rw [hself] at hcontinues
    exact hcontinues.isCapitalized
  · intro h
    have hcontinues : Continues false text.toList :=
      continues_of_chain h.alphanum (fun c hc hlower => absurd hlower (h.start c hc)) h.after_digit
    exact hcontinues.capitalize_eq_self

/-- What a text is capitalised to is capitalised, and is not changed when that is repeated. -/
theorem pascal_isCapitalized_fixed (text : String) :
    IsCapitalized (pascal text).toList ∧ pascal (pascal text) = pascal text := by
  have hcapitalized : IsCapitalized (pascal text).toList := by
    rw [pascal, String.toList_ofList]
    exact (continues_capitalize false text.toList).isCapitalized
  exact ⟨hcapitalized, pascal_eq_self_iff.mpr hcapitalized⟩

/-! ### Ways of writing words -/

/-- A word in lower-case ASCII letters. -/
structure IsLowerWord (word : List Char) : Prop where
  /-- It has a letter. -/
  ne_nil : word ≠ []
  /-- It has no other characters. -/
  lower : ∀ c ∈ word, 'a' ≤ c ∧ c ≤ 'z'

/-- A word of small letters has one, and no other character. -/
theorem isLowerWord_iff {word : List Char} :
    IsLowerWord word ↔ word ≠ [] ∧ word.all Char.isLower = true := by
  simp only [List.all_eq_true, isLower_iff]
  exact ⟨fun h => ⟨h.ne_nil, h.lower⟩, fun h => ⟨h.1, h.2⟩⟩

instance (word : List Char) : Decidable (IsLowerWord word) :=
  decidable_of_iff' _ isLowerWord_iff

/-- A word with a capital as its first letter. -/
def capital : List Char → List Char
  | [] => []
  | c :: rest => c.toUpper :: rest

/-- A word in capitals. -/
def capitals (word : List Char) : List Char := word.map Char.toUpper

/-- The ways in which words are put together in a text. -/
inductive Spelling where
  /-- As in `first_name`. -/
  | snake
  /-- As in `first-name`. -/
  | kebab
  /-- As in `first.name`. -/
  | dotted
  /-- As in `first/name`. -/
  | slashed
  /-- As in `first name`. -/
  | spaced
  /-- As in `FIRST_NAME`. -/
  | screaming
  /-- As in `firstName`. -/
  | camel
  /-- As in `FirstName`. -/
  | pascal
deriving DecidableEq

/-- Words as they are put together in a text. -/
def Spelling.write (spelling : Spelling) (words : List (List Char)) : List Char :=
  match spelling with
  | .snake => joinWith '_' words
  | .kebab => joinWith '-' words
  | .dotted => joinWith '.' words
  | .slashed => joinWith '/' words
  | .spaced => joinWith ' ' words
  | .screaming => joinWith '_' (words.map capitals)
  | .camel => words.headD [] ++ words.tail.flatMap capital
  | .pascal => words.flatMap capital

/-- Letters after a letter belong to its word. -/
theorem capitalize_letters {letters : List Char} (h : ∀ c ∈ letters, c.isAlpha = true)
    (rest : List Char) : capitalize true (letters ++ rest) = letters ++ capitalize true rest := by
  induction letters with
  | nil => rfl
  | cons c more ih =>
    obtain ⟨hc, hmore⟩ := List.forall_mem_cons.mp h
    rw [List.cons_append, List.cons_append]
    rcases Bool.or_eq_true_iff.mp hc with hupper | hlower
    · rw [capitalize_upper _ _ hupper, ih hmore]
    · rw [capitalize_lower _ _ hlower, if_pos rfl, ih hmore]

namespace IsLowerWord

variable {word : List Char} (h : IsLowerWord word)

include h

/-- A word has a first letter and others. -/
theorem exists_eq_cons : ∃ c more, word = c :: more ∧ c.isLower = true ∧
    ∀ d ∈ more, d.isLower = true := by
  obtain ⟨hne, hall⟩ := isLowerWord_iff.mp h
  obtain ⟨c, more, rfl⟩ := List.exists_cons_of_ne_nil hne
  obtain ⟨hc, hmore⟩ := List.forall_mem_cons.mp (List.all_eq_true.mp hall)
  exact ⟨c, more, rfl, hc, hmore⟩

/-- A word in lower-case letters gets a capital where it does not follow a letter. -/
theorem capitalize_append (rest : List Char) :
    capitalize false (word ++ rest) = capital word ++ capitalize true rest := by
  obtain ⟨c, more, rfl, hc, hmore⟩ := h.exists_eq_cons
  have hletters : ∀ d ∈ more, d.isAlpha = true := fun d hd => isAlpha_of_isLower (hmore d hd)
  rw [List.cons_append, capitalize_lower _ _ hc, capitalize_letters hletters]
  rfl

/-- A word that starts with a capital stays as it is, wherever it stands. -/
theorem capitalize_capital (afterLetter : Bool) (rest : List Char) :
    capitalize afterLetter (capital word ++ rest) = capital word ++ capitalize true rest := by
  obtain ⟨c, more, rfl, hc, hmore⟩ := h.exists_eq_cons
  have hletters : ∀ d ∈ more, d.isAlpha = true := fun d hd => isAlpha_of_isLower (hmore d hd)
  have hupper := isUpper_toUpper hc
  rw [capital, List.cons_append, capitalize_upper _ _ hupper, capitalize_letters hletters]
  rfl

/-- A word in capitals stays as it is too. -/
theorem capitalize_capitals (afterLetter : Bool) (rest : List Char) :
    capitalize afterLetter (capitals word ++ rest) = capitals word ++ capitalize true rest := by
  obtain ⟨c, more, rfl, hc, hmore⟩ := h.exists_eq_cons
  have hupper := isUpper_toUpper hc
  have hletters : ∀ d ∈ more.map Char.toUpper, d.isAlpha = true := by
    intro d hd
    obtain ⟨e, he, rfl⟩ := List.mem_map.mp hd
    exact isAlpha_of_isUpper (isUpper_toUpper (hmore e he))
  rw [capitals, List.map_cons, List.cons_append, capitalize_upper _ _ hupper,
    capitalize_letters hletters]
  rfl

/-- Capitals come out as the word itself does if there is no second one. -/
theorem capitals_eq_capital_iff : capitals word = capital word ↔ word.length = 1 := by
  obtain ⟨c, more, rfl, hc, hmore⟩ := h.exists_eq_cons
  rw [capitals, capital, List.map_cons, List.cons_inj_right, List.length_cons,
    Nat.add_eq_right, List.length_eq_zero_iff]
  cases more with
  | nil => simp
  | cons d rest =>
    have hd : d.toUpper ≠ d := fun heq => by
      have hlower := hmore d (List.mem_cons_self ..)
      exact not_isLower_of_isUpper (isUpper_toUpper hlower) (heq.symm ▸ hlower)
    simp [hd]

end IsLowerWord

/-- Words with a separator in between come out one after another. -/
theorem capitalize_joinWith {sep : Char} (hsep : sep.isAlphanum = false)
    {words : List (List Char)} {result : List Char → List Char}
    (h : ∀ word ∈ words, ∀ rest,
      capitalize false (word ++ rest) = result word ++ capitalize true rest) :
    capitalize false (joinWith sep words) = words.flatMap result := by
  induction words with
  | nil => rfl
  | cons word rest ih =>
    obtain ⟨hword, hrest⟩ := List.forall_mem_cons.mp h
    cases rest with
    | nil =>
      have hend := hword []
      rwa [List.append_nil] at hend
    | cons next more =>
      rw [joinWith, hword, capitalize_other _ _ hsep, ih hrest]
      exact List.flatMap_cons.symm

section Words

variable {words : List (List Char)} (h : ∀ word ∈ words, IsLowerWord word)

include h

/-- Words that begin with capitals stay. -/
theorem capitalize_flatMap_capital (afterLetter : Bool) :
    capitalize afterLetter (words.flatMap capital) = words.flatMap capital := by
  induction words generalizing afterLetter with
  | nil => rfl
  | cons word rest ih =>
    obtain ⟨hword, hrest⟩ := List.forall_mem_cons.mp h
    rw [List.flatMap_cons, hword.capitalize_capital, ih hrest]

/-- Words in capitals come out in capitals. -/
theorem capitalize_screaming :
    capitalize false (Spelling.screaming.write words) = words.flatMap capitals := by
  have hwords : ∀ word ∈ words.map capitals, ∀ rest,
      capitalize false (word ++ rest) = id word ++ capitalize true rest := by
    intro word hword rest
    obtain ⟨given, hgiven, rfl⟩ := List.mem_map.mp hword
    exact (h given hgiven).capitalize_capitals false rest
  rw [Spelling.write, capitalize_joinWith (by decide) hwords, List.flatMap_map]
  rfl

/-- Spelled in any other way, words come out with a capital each. -/
theorem capitalize_write {spelling : Spelling} (hspelling : spelling ≠ .screaming) :
    capitalize false (spelling.write words) = words.flatMap capital := by
  have hwords : ∀ word ∈ words, ∀ rest,
      capitalize false (word ++ rest) = capital word ++ capitalize true rest :=
    fun word hword => (h word hword).capitalize_append
  cases spelling with
  | snake => exact capitalize_joinWith (by decide) hwords
  | kebab => exact capitalize_joinWith (by decide) hwords
  | dotted => exact capitalize_joinWith (by decide) hwords
  | slashed => exact capitalize_joinWith (by decide) hwords
  | spaced => exact capitalize_joinWith (by decide) hwords
  | screaming => exact absurd rfl hspelling
  | camel =>
    cases words with
    | nil => rfl
    | cons first rest =>
      obtain ⟨hfirst, hrest⟩ := List.forall_mem_cons.mp h
      exact (hfirst.capitalize_append _).trans
        (congrArg _ (capitalize_flatMap_capital hrest true))
  | pascal => exact capitalize_flatMap_capital h false

/-- Words in capitals are words that begin with capitals just when each has one letter. -/
theorem flatMap_capitals_eq_iff :
    words.flatMap capitals = words.flatMap capital ↔ ∀ word ∈ words, word.length = 1 := by
  induction words with
  | nil => simp
  | cons word rest ih =>
    obtain ⟨hword, hrest⟩ := List.forall_mem_cons.mp h
    have hlength : (capitals word).length = (capital word).length := by
      cases word <;> simp [capitals, capital]
    rw [List.flatMap_cons, List.flatMap_cons, List.forall_mem_cons, ← ih hrest,
      ← hword.capitals_eq_capital_iff]
    exact ⟨fun heq => List.append_inj heq hlength, fun ⟨hfirst, hmore⟩ => by rw [hfirst, hmore]⟩

end Words

/-- Words in lower-case letters give one text, in which each of them starts with a capital,
whichever way they are spelled, but for words in capitals: these give that text only if each
of them has one letter, and otherwise stay in capitals. -/
theorem pascal_spelling_iff (spelling : Spelling) {words : List (List Char)}
    (h : ∀ word ∈ words, IsLowerWord word) :
    (pascal (String.ofList (spelling.write words)) = String.ofList (words.flatMap capital) ↔
        (spelling = .screaming → ∀ word ∈ words, word.length = 1)) ∧
      pascal (String.ofList (Spelling.screaming.write words)) =
        String.ofList (words.flatMap capitals) := by
  simp only [pascal, String.toList_ofList, String.ofList_inj]
  refine ⟨?_, capitalize_screaming h⟩
  by_cases hspelling : spelling = .screaming
  · subst hspelling
    rw [capitalize_screaming h, flatMap_capitals_eq_iff h]
    exact ⟨fun hone _ => hone, fun hone => hone rfl⟩
  · exact iff_of_true (capitalize_write h hspelling) fun heq => absurd heq hspelling

/-- The words of a property. -/
def firstName : List (List Char) := ["first".toList, "name".toList]

/-- Two words come out the same from one spelling and another, but not from capitals. Words of
one letter also come out the same from capitals. -/
theorem firstName_spelled :
    (∀ word ∈ firstName, IsLowerWord word) ∧
    pascal "first/name" = "FirstName" ∧ pascal "firstName" = "FirstName" ∧
    pascal "FIRST_NAME" = "FIRSTNAME" ∧ pascal "X_Y" = "XY" := by
  have hwords : ∀ word ∈ firstName, IsLowerWord word := by decide +kernel
  have hletters : ∀ word ∈ [['x'], ['y']], IsLowerWord word := by decide +kernel
  have hslashed : String.ofList (Spelling.slashed.write firstName) = "first/name" := by
    decide +kernel
  have hcamel : String.ofList (Spelling.camel.write firstName) = "firstName" := by decide +kernel
  have hscreaming : String.ofList (Spelling.screaming.write firstName) = "FIRST_NAME" := by
    decide +kernel
  have hcapital : String.ofList (firstName.flatMap capital) = "FirstName" := by decide +kernel
  have hcapitals : String.ofList (firstName.flatMap capitals) = "FIRSTNAME" := by decide +kernel
  refine ⟨hwords, ?_, ?_, ?_, (pascal_spelling_iff .screaming hletters).1.mpr fun _ => by decide⟩
  · rw [← hslashed, ← hcapital]
    exact (pascal_spelling_iff .slashed hwords).1.mpr nofun
  · rw [← hcamel, ← hcapital]
    exact (pascal_spelling_iff .camel hwords).1.mpr nofun
  · rw [← hscreaming, ← hcapitals]
    exact (pascal_spelling_iff .snake hwords).2

/-- It is not so that words come out the same whichever way they are spelled. -/
theorem firstName_screaming :
    ¬ ∀ (spelling : Spelling) (words : List (List Char)), words ≠ [] →
      (∀ word ∈ words, IsLowerWord word) →
      pascal (String.ofList (spelling.write words)) = String.ofList (words.flatMap capital) :=
  fun hsame =>
    absurd (hsame .screaming firstName (by decide) (by decide +kernel)) (by decide +kernel)

end ApiTypes.Identifier
