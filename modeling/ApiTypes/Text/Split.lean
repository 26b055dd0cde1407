/-!
# Cutting and joining text

Texts are cut at a separator character and joined again over lists of
characters. Cutting always yields at least one piece, so joining the pieces
with the same separator gives the text back.
-/

namespace ApiTypes.Text

/-- The pieces of a text between the occurrences of a separator. -/
def splitAt (sep : Char) : List Char → List (List Char)
  | [] => [[]]
  | c :: rest =>
    if c = sep then [] :: splitAt sep rest
    else match splitAt sep rest with
      | [] => [[c]]
      | piece :: pieces => (c :: piece) :: pieces

/-- Pieces written one after another with a separator in between. -/
def joinWith (sep : Char) : List (List Char) → List Char
  | [] => []
  | [piece] => piece
  | piece :: next :: pieces => piece ++ sep :: joinWith sep (next :: pieces)

theorem splitAt_ne_nil (sep : Char) (text : List Char) : splitAt sep text ≠ [] := by
  cases text with
  | nil => simp [splitAt]
  | cons c rest =>
    simp only [splitAt]
    split
    · simp
    · split <;> simp

/-- Joining undoes cutting. -/
theorem joinWith_splitAt (sep : Char) (text : List Char) :
    joinWith sep (splitAt sep text) = text := by
  induction text with
  | nil => rfl
  | cons c rest ih =>
    by_cases hc : c = sep
    · cases hs : splitAt sep rest with
      | nil => exact absurd hs (splitAt_ne_nil sep rest)
      | cons piece pieces =>
        rw [hs] at ih
        simp [splitAt, hc, hs, joinWith, ih]
    · cases hs : splitAt sep rest with
      | nil => exact absurd hs (splitAt_ne_nil sep rest)
      | cons piece pieces =>
        rw [hs] at ih
        simp only [splitAt, if_neg hc, hs]
        cases pieces with
        | nil => simp only [joinWith] at ih ⊢; rw [ih]
        | cons next more => simp only [joinWith, List.cons_append] at ih ⊢; rw [ih]

/-- No piece holds the separator. -/
theorem not_mem_of_mem_splitAt {sep : Char} {text piece : List Char}
    (hpiece : piece ∈ splitAt sep text) : sep ∉ piece := by
  induction text generalizing piece with
  | nil => simp_all [splitAt]
  | cons c rest ih =>
    simp only [splitAt] at hpiece
    split at hpiece
    · rcases List.mem_cons.mp hpiece with rfl | h
      · simp
      · exact ih h
    · rename_i hc
      cases hs : splitAt sep rest with
      | nil => exact absurd hs (splitAt_ne_nil sep rest)
      | cons first pieces =>
        rw [hs] at hpiece ih
        rcases List.mem_cons.mp hpiece with rfl | h
        · intro hmem
          rcases List.mem_cons.mp hmem with h | h
          · exact hc h.symm
          · exact ih (List.mem_cons_self ..) h
        · exact ih (List.mem_cons_of_mem _ h)

/-- Cutting undoes joining when there is a piece and no piece holds the separator. -/
theorem splitAt_joinWith {sep : Char} {pieces : List (List Char)} (hne : pieces ≠ [])
    (hfree : ∀ piece ∈ pieces, sep ∉ piece) : splitAt sep (joinWith sep pieces) = pieces := by
  have single (piece : List Char) (h : sep ∉ piece) : splitAt sep piece = [piece] := by
    induction piece with
    | nil => rfl
    | cons c rest ih =>
      simp only [List.mem_cons, not_or] at h
      simp [splitAt, Ne.symm h.1, ih h.2]
  have step (piece rest : List Char) (h : sep ∉ piece) :
      splitAt sep (piece ++ sep :: rest) = piece :: splitAt sep rest := by
    induction piece with
    | nil => simp [splitAt]
    | cons c more ih =>
      simp only [List.mem_cons, not_or] at h
      simp [splitAt, Ne.symm h.1, ih h.2]
  induction pieces with
  | nil => exact absurd rfl hne
  | cons piece rest ih =>
    cases rest with
    | nil => exact single piece (hfree piece (by simp))
    | cons next more =>
      rw [joinWith, step piece _ (hfree piece (by simp)),
        ih (by simp) (fun p hp => hfree p (by simp [hp]))]

/-- A separator splits a text into what both sides of it are split into. -/
theorem splitAt_append_cons (sep : Char) (before after : List Char) :
    splitAt sep (before ++ sep :: after) = splitAt sep before ++ splitAt sep after := by
  induction before with
  | nil => simp [splitAt]
  | cons c rest ih =>
    rw [List.cons_append, splitAt, splitAt, ih]
    split
    · rfl
    · cases hrest : splitAt sep rest with
      | nil => exact absurd hrest (splitAt_ne_nil sep rest)
      | cons piece pieces => rfl

/-- The last of several pieces has a separator before it. -/
theorem joinWith_concat (sep : Char) {pieces : List (List Char)} (h : pieces ≠ [])
    (last : List Char) :
    joinWith sep (pieces ++ [last]) = joinWith sep pieces ++ sep :: last := by
  induction pieces with
  | nil => exact absurd rfl h
  | cons piece rest ih =>
    cases rest with
    | nil => rfl
    | cons next more =>
      have hnext := ih (List.cons_ne_nil _ _)
      rw [List.cons_append] at hnext
      rw [List.cons_append, List.cons_append, joinWith, hnext, joinWith, List.append_assoc,
        List.cons_append]

/-- A text without the characters of a class at its end. -/
def trimEnd (drops : Char → Bool) (text : List Char) : List Char :=
  (text.reverse.dropWhile drops).reverse

/-- A text without the characters of a class at either end. -/
def trim (drops : Char → Bool) (text : List Char) : List Char :=
  trimEnd drops (text.dropWhile drops)

/-- Whether a text is a part of another one. -/
def occursIn (part : List Char) : List Char → Bool
  | [] => part.isEmpty
  | c :: rest => part.isPrefixOf (c :: rest) || occursIn part rest

end ApiTypes.Text
