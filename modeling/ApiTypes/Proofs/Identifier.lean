import ApiTypes.Proofs.Exports

/-!
# Exported names are identifiers

A name of the printed language starts with an ASCII letter, an underscore or a dollar
sign, goes on with such characters and digits, and is no reserved word. Escaping makes
a name of any text and leaves names as they are. What is put after a name later, a
qualifier's words before it or a number behind it, may not undo this: reserved words
have lower-case letters only, so a text with any other character is none of them.
-/

namespace ApiTypes

namespace Identifier

/-- A character that may start a name. -/
def StartsName (c : Char) : Prop :=
  'A' ≤ c ∧ c ≤ 'Z' ∨ 'a' ≤ c ∧ c ≤ 'z' ∨ c = '_' ∨ c = '$'

/-- A character that may stand behind the first one of a name. -/
def ContinuesName (c : Char) : Prop := StartsName c ∨ '0' ≤ c ∧ c ≤ '9'

/-- A text that is spelled like a name: one character that may start it, and only
characters that may continue it up to its end. -/
def IsSpelled (text : String) : Prop :=
  ∃ first rest, text.toList = first :: rest ∧ StartsName first ∧ ∀ c ∈ rest, ContinuesName c

/-- A text that may name a declaration. -/
structure IsName (text : String) : Prop where
  /-- It is spelled like a name. -/
  spelled : IsSpelled text
  /-- It means nothing else. -/
  notReserved : text ∉ reservedWords

/-- A name is not empty. -/
theorem IsName.ne_empty {text : String} (h : IsName text) : text ≠ "" := by
  rintro rfl
  obtain ⟨_, _, hchars, _⟩ := h.spelled
  cases hchars

/-! ### Characters -/

/-- Capitals are those from A to Z. -/
theorem isUpper_iff (c : Char) : c.isUpper = true ↔ 'A' ≤ c ∧ c ≤ 'Z' :=
  decide_eq_true_iff (p := c.val ≥ 'A'.val ∧ c.val ≤ 'Z'.val)

/-- Small letters are those from a to z. -/
theorem isLower_iff (c : Char) : c.isLower = true ↔ 'a' ≤ c ∧ c ≤ 'z' :=
  Bool.and_eq_true_iff.trans (and_congr decide_eq_true_iff decide_eq_true_iff)

/-- The test for the start of a name is right. -/
theorem isStart_iff (c : Char) : isStart c = true ↔ StartsName c := by
  have hletter : c.isAlpha = true ↔ ('A' ≤ c ∧ c ≤ 'Z') ∨ ('a' ≤ c ∧ c ≤ 'z') :=
    Bool.or_eq_true_iff.trans (or_congr (isUpper_iff c) (isLower_iff c))
  simp only [isStart, StartsName, Bool.or_eq_true, hletter, beq_iff_eq, or_assoc]

/-- The test for the other characters of a name is right. -/
theorem isPart_iff (c : Char) : isPart c = true ↔ ContinuesName c := by
  have hstart : isPart c = (isStart c || c.isDigit) := by
    simp only [isPart, isStart, Char.isAlphanum]
    cases c.isAlpha <;> cases c.isDigit <;> simp
  have hdigit : c.isDigit = true ↔ '0' ≤ c ∧ c ≤ '9' := by
    simp only [Char.isDigit, Bool.and_eq_true, decide_eq_true_eq, Char.le_def, ge_iff_le]
  rw [hstart, Bool.or_eq_true, isStart_iff, hdigit, ContinuesName]

/-- A character of a name that may not start one is a digit. -/
theorem isStart_of_not_isDigit {c : Char} (h : isPart c = true) (hdigit : ¬ c.isDigit = true) :
    isStart c = true := by
  simpa [isPart, isStart, Char.isAlphanum, hdigit] using h

/-- A digit may stand in a name. -/
theorem isPart_of_isDigit {c : Char} (h : c.isDigit = true) : isPart c = true := by
  simp [isPart, Char.isAlphanum, h]

/-- No digit may start a name. -/
theorem StartsName.not_isDigit {c : Char} (h : StartsName c) : ¬ c.isDigit = true := by
  intro hdigit
  have hnine : c.toNat ≤ 57 := (Char.isDigit_iff_toNat.mp hdigit).2
  rcases h with ⟨h, -⟩ | ⟨h, -⟩ | rfl | rfl
  · have hupper : 65 ≤ c.toNat := h
    omega
  · have hlower : 97 ≤ c.toNat := h
    omega
  · exact absurd hdigit (by decide)
  · exact absurd hdigit (by decide)

/-- What replaces invalid characters is valid. -/
theorem isPart_of_mem_replaceInvalid {text : List Char} {c : Char}
    (h : c ∈ replaceInvalid text) : isPart c = true := by
  obtain ⟨original, _, rfl⟩ := List.mem_map.mp h
  split
  · assumption
  · rfl

/-- Valid characters are not replaced. -/
theorem replaceInvalid_eq_self {text : List Char} (h : ∀ c ∈ text, isPart c = true) :
    replaceInvalid text = text := by
  refine (List.map_congr_left fun c hc => ?_).trans (List.map_id text)
  rw [if_pos (h c hc)]
  rfl

/-! ### Names -/

/-- A text is spelled like a name when it is a word. -/
theorem isSpelled_iff (text : String) : IsSpelled text ↔ isWord text.toList = true := by
  constructor
  · rintro ⟨first, rest, htext, hfirst, hrest⟩
    rw [htext, isWord, (isStart_iff first).mpr hfirst, Bool.true_and, List.all_eq_true]
    exact fun c hc => (isPart_iff c).mpr (hrest c hc)
  · intro h
    cases htext : text.toList with
    | nil =>
      rw [htext] at h
      cases h
    | cons first rest =>
      rw [htext, isWord, Bool.and_eq_true, List.all_eq_true] at h
      obtain ⟨hfirst, hrest⟩ := h
      exact ⟨first, rest, htext, (isStart_iff first).mp hfirst,
        fun c hc => (isPart_iff c).mp (hrest c hc)⟩

/-- Every character of a name may stand in one. -/
theorem IsSpelled.isPart {text : String} (h : IsSpelled text) :
    ∀ c ∈ text.toList, isPart c = true := by
  obtain ⟨first, rest, htext, hfirst, hrest⟩ := h
  intro c hc
  rw [isPart_iff]
  rcases List.mem_cons.mp (htext ▸ hc) with rfl | hc
  · exact Or.inl hfirst
  · exact hrest c hc

/-- Characters that may continue a name can follow it. -/
theorem IsSpelled.append {text tail : String} (h : IsSpelled text)
    (htail : ∀ c ∈ tail.toList, Identifier.isPart c = true) : IsSpelled (text ++ tail) := by
  obtain ⟨first, rest, htext, hfirst, hrest⟩ := h
  refine ⟨first, rest ++ tail.toList, ?_, hfirst, fun c hc => ?_⟩
  · rw [String.toList_append, htext, List.cons_append]
  · rcases List.mem_append.mp hc with hc | hc
    · exact hrest c hc
    · exact (isPart_iff c).mp (htail c hc)

/-- Reserved words are written in small letters. -/
theorem isLower_of_mem_reserved :
    ∀ word ∈ reservedWords, ∀ c ∈ word.toList, c.isLower = true := by
  have hall : reservedWords.all fun word => word.toList.all Char.isLower := by decide
  intro word hword
  exact List.all_eq_true.mp (List.all_eq_true.mp hall word hword)

/-- Reserved words have lower-case letters only. -/
theorem not_reserved_of_mem {text : String} {c : Char} (hc : c ∈ text.toList)
    (hlower : ¬ c.isLower = true) : text ∉ reservedWords :=
  fun hreserved => hlower (isLower_of_mem_reserved text hreserved c hc)

/-- A text that is spelled like a name is one if it has a character that no reserved
word has. -/
theorem IsSpelled.isName {text : String} (h : IsSpelled text) {c : Char} (hc : c ∈ text.toList)
    (hlower : ¬ c.isLower = true) : IsName text :=
  ⟨h, not_reserved_of_mem hc hlower⟩

/-- No digit is a small letter. -/
theorem not_isLower_of_isDigit {c : Char} (h : c.isDigit = true) : ¬ c.isLower = true := by
  intro hlower
  have hnine : c.toNat ≤ 57 := (Char.isDigit_iff_toNat.mp h).2
  have ha : 97 ≤ c.toNat := ((isLower_iff c).mp hlower).1
  omega

/-- A name stays a name with a number behind it. -/
theorem IsSpelled.numbered {text : String} (h : IsSpelled text) (number : Nat) :
    IsName (text ++ toString number) := by
  have hdigits : (toString number).toList = Nat.toDigits 10 number := by
    rw [Nat.toString_eq_ofList_toDigits, String.toList_ofList]
  have hdigit : ∀ c ∈ (toString number).toList, c.isDigit = true := by
    intro c hc
    rw [hdigits] at hc
    exact Nat.isDigit_of_mem_toDigits (by decide) (by decide) hc
  have hspelled : IsSpelled (text ++ toString number) :=
    h.append fun c hc => isPart_of_isDigit (hdigit c hc)
  obtain ⟨c, hc⟩ := List.exists_mem_of_ne_nil _ (hdigits ▸ Nat.toDigits_ne_nil)
  refine hspelled.isName ?_ (not_isLower_of_isDigit (hdigit c hc))
  rw [String.toList_append]
  exact List.mem_append_right _ hc

/-! ### Escaped texts -/

/-- A text without its invalid characters, and with something before a digit that it
starts with. -/
def spell (text : String) : String :=
  match replaceInvalid text.toList with
  | [] => "_"
  | c :: rest => String.ofList (if c.isDigit then '_' :: c :: rest else c :: rest)

/-- An escaped text is the text as it is spelled, with an underscore behind it if it is a
reserved word then. -/
theorem escape_eq (text : String) :
    escape text = if isReserved (spell text) then spell text ++ "_" else spell text := by
  have hunderscore : isReserved "_" = false := by decide
  cases htext : replaceInvalid text.toList with
  | nil => simp only [escape, spell, htext, hunderscore, Bool.false_eq_true, if_false]
  | cons c rest => simp only [escape, spell, htext]

/-- A text that was spelled is spelled like a name. -/
theorem spell_isSpelled (text : String) : IsSpelled (spell text) := by
  have hpart := @isPart_of_mem_replaceInvalid text.toList
  unfold spell
  split
  · exact ⟨'_', [], rfl, (isStart_iff '_').mp rfl, nofun⟩
  · rename_i c rest htext
    rw [htext] at hpart
    have hcontinues : ∀ d ∈ c :: rest, ContinuesName d :=
      fun d hd => (isPart_iff d).mp (hpart hd)
    by_cases hdigit : c.isDigit = true
    · rw [if_pos hdigit]
      exact ⟨'_', c :: rest, String.toList_ofList, (isStart_iff '_').mp rfl, hcontinues⟩
    · rw [if_neg hdigit]
      have hstart := isStart_of_not_isDigit (hpart (List.mem_cons_self ..)) hdigit
      exact ⟨c, rest, String.toList_ofList, (isStart_iff c).mp hstart,
        fun d hd => hcontinues d (List.mem_cons_of_mem _ hd)⟩

/-- A text that is spelled like a name is spelled as it is. -/
theorem spell_eq_self {text : String} (h : IsSpelled text) : spell text = text := by
  have hreplaced := replaceInvalid_eq_self h.isPart
  obtain ⟨first, rest, htext, hfirst, _⟩ := h
  have hdigit := hfirst.not_isDigit
  rw [htext] at hreplaced
  simp only [spell, htext, hreplaced, if_neg hdigit]
  rw [← htext, String.ofList_toList]

/-- What a text is escaped to is a name. -/
theorem escape_isName (text : String) : IsName (escape text) := by
  have hspelled := spell_isSpelled text
  rw [escape_eq]
  split
  · have htail : ∀ c ∈ "_".toList, isPart c = true := List.all_eq_true.mp (by decide)
    refine (hspelled.append htail).isName (c := '_') ?_ (by decide)
    rw [String.toList_append]
    exact List.mem_append_right _ (by decide)
  · rename_i hreserved
    refine ⟨hspelled, fun hmem => hreserved ?_⟩
    exact List.contains_iff_mem.mpr hmem

/-- Names are left as they are. -/
theorem escape_eq_self {text : String} (h : IsName text) : escape text = text := by
  have hreserved : ¬ isReserved text = true :=
    fun hcontains => h.notReserved (List.contains_iff_mem.mp hcontains)
  rw [escape_eq, spell_eq_self h.spelled, if_neg hreserved]

end Identifier

namespace Registry

open Identifier (IsName)

/-- A qualified name is a name. -/
theorem qualify_isName (qualifier base : String) : IsName (qualify qualifier base) :=
  Identifier.escape_isName _

/-- An escaped name is a name. -/
theorem escape_isName (r : Registry) (name : String) : IsName (r.escape name) :=
  Identifier.escape_isName _

/-- A number behind a name leaves a name. -/
theorem firstFree_isName {base : String} (h : IsName base) (taken : List String)
    (number : Nat) : IsName (firstFree base taken number) := by
  obtain ⟨chosen, _, heq, _⟩ := firstFree_eq base taken number
  rw [heq]
  exact h.spelled.numbered chosen

/-- Whatever is preferred and whatever is taken, a name is allocated. -/
theorem allocate_isName (r : Registry) (preferred qualifier : String) :
    IsName (r.allocate preferred qualifier) := by
  have hbase := r.escape_isName preferred
  have hqualified := qualify_isName qualifier (r.escape preferred)
  simp only [allocate]
  split
  · exact hbase
  · split
    · exact firstFree_isName hbase _ _
    · split
      · exact hqualified
      · exact firstFree_isName hqualified _ _

/-- All schemas of a registry are registered under names. -/
def HasNames (r : Registry) : Prop := ∀ entry ∈ r.entries, IsName entry.identifier

/-- An empty registry has names only. -/
theorem HasNames.empty (pascalNames : Bool) : (empty pascalNames).HasNames := nofun

/-- A registry with names answers a request with a name, and keeps names. -/
theorem HasNames.ensure {r : Registry} (h : r.HasNames) (request : NameRequest) :
    IsName (r.ensure request).1 ∧ (r.ensure request).2.HasNames := by
  rcases r.ensure_cases request with ⟨entry, hfind, heq⟩ | ⟨_, heq⟩
  · rw [heq]
    exact ⟨h entry (List.mem_of_find?_eq_some hfind), h⟩
  · have hname := r.allocate_isName request.preferred request.qualifier
    rw [heq]
    refine ⟨hname, fun entry hentry => ?_⟩
    rcases List.mem_append.mp hentry with hentry | hentry
    · exact h entry hentry
    · rw [List.mem_singleton.mp hentry]
      exact hname

/-- A registry with names has names after more requests. -/
theorem HasNames.ensureAll {r : Registry} (h : r.HasNames) (requests : List NameRequest) :
    (r.ensureAll requests).HasNames := by
  induction requests generalizing r with
  | nil => exact h
  | cons request rest ih => exact ih (h.ensure request).2

end Registry

namespace Operation

open Identifier (IsName)

/-- The escaped id of an operation is a name. -/
theorem escapedId_isName (operation : Operation) : IsName operation.escapedId := by
  unfold escapedId
  split
  · exact Identifier.escape_isName _
  · exact Identifier.escape_isName ""

/-- A text behind the kind of a type makes a name when it is made of valid characters,
because of the dollar sign. -/
theorem isName_of_kind {kind text : String} (hkind : Identifier.isWord kind.toList = true)
    (hdollar : '$' ∈ kind.toList) (htext : ∀ c ∈ text.toList, Identifier.isPart c = true) :
    IsName (kind ++ text) := by
  have hspelled := ((Identifier.isSpelled_iff kind).mpr hkind).append htext
  refine hspelled.isName (c := '$') ?_ (by decide)
  rw [String.toList_append]
  exact List.mem_append_left _ hdollar

/-- The types of an operation have names, whatever it is called and whatever the statuses
of its responses are. -/
theorem typeNames_isName (operation : Operation) :
    ∀ name ∈ operation.typeNames, IsName name := by
  have hid := operation.escapedId_isName.spelled.isPart
  have hmark : ∀ c ∈ "$Status$".toList, Identifier.isPart c = true :=
    List.all_eq_true.mp (by decide)
  intro name hname
  rw [typeNames, List.mem_append, List.mem_append] at hname
  rcases hname with (hname | hname) | hname
  · split at hname
    · rw [List.mem_singleton.mp hname, parametersName]
      exact isName_of_kind (by decide) (by decide) hid
    · cases hname
  · split at hname
    · cases hname
    · rw [List.mem_singleton.mp hname, requestBodyName]
      exact isName_of_kind (by decide) (by decide) hid
  · obtain ⟨entry, _, rfl⟩ := List.mem_map.mp hname
    rw [responseName, String.append_assoc, String.append_assoc]
    refine isName_of_kind (by decide) (by decide) fun c hc => ?_
    simp only [String.toList_append, String.toList_ofList, List.mem_append] at hc
    rcases hc with hc | hc | hc
    · exact hid c hc
    · exact hmark c hc
    · exact Identifier.isPart_of_mem_replaceInvalid hc

end Operation

/-- Every exported name is an identifier and no reserved word. After any requests, with
any preferred names and qualifiers, the next one is answered with a name, whether names
are capitalised or not; the types of any operation that can be printed have names; and
escaping changes nothing when it is repeated. -/
theorem exported_names_are_names :
    (∀ (pascalNames : Bool) (before : List NameRequest) (request : NameRequest),
      Identifier.IsName
        (((Registry.empty pascalNames).ensureAll before).ensure request).1) ∧
    (∀ (layout : Layout) (operation : Operation) (rendered : List Rendered),
      operation.render layout = .ok rendered → ∀ r ∈ rendered, Identifier.IsName r.name) ∧
    ∀ text, Identifier.escape (Identifier.escape text) = Identifier.escape text := by
  refine ⟨fun pascalNames before request => ?_, fun layout operation rendered h r hr => ?_,
    fun text => Identifier.escape_eq_self (Identifier.escape_isName text)⟩
  · have hbefore := (Registry.HasNames.empty pascalNames).ensureAll before
    exact (hbefore.ensure request).1
  · have hname := List.mem_map_of_mem (f := fun r : Rendered => r.name) hr
    rw [Operation.render_names h] at hname
    exact operation.typeNames_isName r.name hname

/-- An operation whose name and status need to be escaped. -/
def Operation.newPet : Operation :=
  { operationId := .str "new pet\n", parameters? := some .null, responses := [("2xx\n", [])] }

/-- A request for a reserved word as a name, with another one as its qualifier. -/
def NameRequest.new (canonicalPath : String) : NameRequest :=
  { canonicalPath, preferred := "new", qualifier := "do" }

/-- A reserved word asked for three times becomes three names, and so does what is built
from a name and a status with line feeds in them. -/
theorem new_names_are_names :
    let r := (Registry.empty false).ensureAll [.new "a.json#/new", .new "b.json#/new"]
    (r.identifiers = ["new_", "DoNew_"] ∧ (r.ensure (.new "c.json#/new")).1 = "DoNew_2" ∧
      Identifier.IsName "DoNew_2") ∧
    ∃ rendered, Operation.newPet.render {} = .ok rendered ∧
      rendered.map (·.name) = ["Parameter$new_pet_", "Response$new_pet_$Status$2xx_"] ∧
      ∀ r ∈ rendered, Identifier.IsName r.name := by
  intro r
  have hidentifiers : r.identifiers = ["new_", "DoNew_"] := by decide +kernel
  have hnumbered : (r.ensure (.new "c.json#/new")).1 = "DoNew_2" := by decide +kernel
  have hname : Identifier.IsName (r.ensure (.new "c.json#/new")).1 :=
    exported_names_are_names.1 false _ _
  have hrender : ∃ rendered, Operation.newPet.render {} = .ok rendered := ⟨_, rfl⟩
  have hnames : Operation.newPet.typeNames =
      ["Parameter$new_pet_", "Response$new_pet_$Status$2xx_"] := by decide +kernel
  obtain ⟨rendered, hrendered⟩ := hrender
  exact ⟨⟨hidentifiers, hnumbered, hnumbered ▸ hname⟩, rendered, hrendered,
    (Operation.render_names hrendered).trans hnames,
    exported_names_are_names.2.1 {} Operation.newPet rendered hrendered⟩

end ApiTypes
