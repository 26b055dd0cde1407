import ApiTypes.Proofs.Identifier
import ApiTypes.Proofs.Json.Quoted

/-!
# Printed property names

A property name is printed as it is when it is spelled like an identifier, and otherwise as a
literal, so that it can be read off what is printed. One kind of name falls between: a line
feed behind an identifier is passed over when the name is checked, and is printed with it.
Even so no two names are printed alike.
-/

namespace ApiTypes.Identifier

/-- What is printed for a name stands for it. -/
inductive Denotes (name : String) : (printed : String) → Prop
  /-- It is the name, which is spelled like an identifier. -/
  | bare (h : IsSpelled name) : Denotes name name
  /-- It is a literal for the name. -/
  | literal {printed : String} (h : Json.IsLiteralOf printed name) : Denotes name printed

/-- A name that is spelled like an identifier up to a line feed at its end. -/
def EndsLine (name : String) : Prop := ∃ word, IsSpelled word ∧ name = word ++ "\n"

/-- The names that are printed as they are. -/
theorem isBare_iff (name : String) : isBare name = true ↔ IsSpelled name ∨ EndsLine name := by
  simp only [isBare_iff_isWord, EndsLine, isSpelled_iff]

/-- A name that is printed as it is does not start with a quote. -/
theorem head?_ne_quote_of_isBare {name : String} (h : isBare name = true) :
    name.toList.head? ≠ some '"' := by
  have hstart {c : Char} (hc : StartsName c) : c ≠ '"' := by
    rintro rfl
    exact absurd ((isStart_iff '"').mpr hc) (by decide)
  rcases (isBare_iff name).mp h with ⟨first, rest, hchars, hfirst, _⟩ |
    ⟨word, ⟨first, rest, hchars, hfirst, _⟩, rfl⟩
  · simpa [hchars] using hstart hfirst
  · simpa [hchars] using hstart hfirst

/-- Different names are printed differently. -/
theorem propertyName_injective : Function.Injective propertyName := by
  have hquote (text : String) : (Json.quote text).toList.head? = some '"' := by
    rw [Json.quote, String.toList_ofList]
    rfl
  intro name other h
  unfold propertyName at h
  split at h
  · rename_i hname
    split at h
    · exact h
    · -- A literal starts with a quote, as no other printed name does.
      rw [h] at hname
      exact absurd (hquote other) (head?_ne_quote_of_isBare hname)
  · split at h
    · rename_i hother
      rw [← h] at hother
      exact absurd (hquote name) (head?_ne_quote_of_isBare hother)
    · exact (Json.quote_isLiteralOf name).unique (h ▸ Json.quote_isLiteralOf other)

/-- An identifier with a line feed behind it is printed with it. -/
theorem propertyName_of_endsLine {name : String} (h : EndsLine name) : propertyName name = name :=
  if_pos ((isBare_iff name).mpr (Or.inr h))

/-- The line feed of a name that is printed with it is no part of an identifier or literal. -/
theorem EndsLine.not_denotes {name : String} (h : EndsLine name) : ¬ Denotes name name := by
  have hline : '\n' ∈ name.toList := by
    obtain ⟨word, _, rfl⟩ := h
    simp
  intro hdenotes
  cases hdenotes with
  | bare hspelled =>
    exact absurd (hspelled.isPart '\n' hline) (by decide)
  | literal hliteral =>
    exact absurd (hliteral.oneLine '\n' hline) (by decide)

/-- What is printed for a name stands for it, but for a line feed behind an identifier. -/
theorem denotes_propertyName_iff (name : String) :
    Denotes name (propertyName name) ↔ ¬ EndsLine name := by
  constructor
  · intro hdenotes hline
    rw [propertyName_of_endsLine hline] at hdenotes
    exact hline.not_denotes hdenotes
  · intro hline
    by_cases hspelled : IsSpelled name
    · have hbare : propertyName name = name := if_pos ((isBare_iff name).mpr (Or.inl hspelled))
      rw [hbare]
      exact .bare hspelled
    · have hquoted : propertyName name = Json.quote name :=
        if_neg fun hbare => ((isBare_iff name).mp hbare).elim hspelled hline
      rw [hquoted]
      exact .literal (Json.quote_isLiteralOf name)

/-- What is printed for a name stands for it, spelled like an identifier or as a literal on
one line, exactly when the name is no identifier with a line feed behind it. Such a name is
printed as it is. Different names are never printed alike. -/
theorem propertyName_denotes (name : String) :
    (Denotes name (propertyName name) ↔ ¬ EndsLine name) ∧
    (EndsLine name → propertyName name = name) ∧
    ∀ other, name ≠ other → propertyName name ≠ propertyName other :=
  ⟨denotes_propertyName_iff name, propertyName_of_endsLine,
    fun _ hne heq => hne (propertyName_injective heq)⟩

theorem endsLine_petId : EndsLine "petId\n" :=
  ⟨"petId", (isSpelled_iff "petId").mpr (by decide), rfl⟩

/-- A name with letters beyond ASCII is printed as a literal, and one with a line feed behind
it is printed with it, and so apart from the one without. -/
theorem petId_denotes :
    (¬ EndsLine "größe" ∧ propertyName "größe" = "\"gr\\u00f6\\u00dfe\"" ∧
      Denotes "größe" (propertyName "größe")) ∧
    (EndsLine "petId\n" ∧ propertyName "petId\n" = "petId\n") ∧
    "petId" ≠ "petId\n" ∧ propertyName "petId" ≠ propertyName "petId\n" := by
  have hline : ¬ EndsLine "größe" := by
    rintro ⟨word, _, heq⟩
    have hlast := congrArg (fun text => text.toList.getLast?) heq
    simp at hlast
  have hne : "petId" ≠ "petId\n" := by decide
  exact ⟨⟨hline, by decide, (propertyName_denotes "größe").1.mpr hline⟩,
    ⟨endsLine_petId, (propertyName_denotes "petId\n").2.1 endsLine_petId⟩, hne,
    (propertyName_denotes "petId").2.2 _ hne⟩

/-- It is not so that what is printed for a name always stands for it. -/
theorem petId_line_printed :
    ¬ ∀ name, Denotes name (propertyName name) := fun hdenotes =>
  (denotes_propertyName_iff "petId\n").mp (hdenotes "petId\n") endsLine_petId

end ApiTypes.Identifier
