import ApiTypes.Proofs.Document.Place
import ApiTypes.Proofs.Document.Point
import ApiTypes.Proofs.TypeExpr.Comment

/-!
# The lines of a comment

A comment of several lines has one line for its opening, one for each line of the
description and one for its closing. Breaking up the closings inside a description neither
joins nor divides its lines, and none of the characters that end a line is left inside one,
so the lines of the comment are those that were put together.
-/

namespace ApiTypes

namespace Text

/-- A text with no line end inside it. -/
def Unbroken (line : List Char) : Prop := ∀ c ∈ line, isLineEnd c = false

instance (line : List Char) : Decidable (Unbroken line) :=
  decidable_of_iff (line.all fun c => !isLineEnd c) (by simp [Unbroken])

namespace Unbroken

variable {first second : List Char}

/-- An empty line is unbroken. -/
theorem nil : Unbroken [] := List.forall_mem_nil _

/-- Unbroken lines can be joined. -/
theorem append (h : Unbroken first) (h' : Unbroken second) : Unbroken (first ++ second) :=
  fun c hc => (List.mem_append.mp hc).elim (h c) (h' c)

/-- A reversed line is as unbroken. -/
theorem reverse (h : Unbroken first) : Unbroken first.reverse :=
  fun c hc => h c (List.mem_reverse.mp hc)

/-- Line feeds end lines. -/
theorem lineFeed_not_mem (h : Unbroken first) : '\n' ∉ first :=
  fun hmem => absurd (h '\n' hmem) (by decide)

end Unbroken

/-- A line goes on as long as there is no line end. -/
theorem linesAfter_append {piece : List Char} (h : Unbroken piece) (before rest : List Char) :
    linesAfter before (piece ++ rest) = linesAfter (piece.reverse ++ before) rest := by
  induction piece generalizing before with
  | nil => rfl
  | cons c more ih =>
    obtain ⟨hc, hmore⟩ := List.forall_mem_cons.mp h
    have hreturn : ∀ next, c = '\r' → more ++ rest = '\n' :: next → False := by
      rintro next rfl
      exact absurd hc (by decide)
    have hno : ¬ isLineEnd c = true := by simp [hc]
    rw [List.cons_append, linesAfter.eq_3 before c (more ++ rest) hreturn, if_neg hno, ih hmore,
      List.reverse_cons, List.append_assoc, List.singleton_append]

/-- A line ends at a line end, unless that is the first half of one. -/
theorem linesAfter_cons_of_isLineEnd {c : Char} (hc : isLineEnd c = true) {rest : List Char}
    (h : c = '\r' → rest.head? ≠ some '\n') (before : List Char) :
    linesAfter before (c :: rest) = before.reverse :: linesAfter [] rest := by
  have hreturn : ∀ next, c = '\r' → rest = '\n' :: next → False := by
    rintro next heq rfl
    exact h heq rfl
  exact (linesAfter.eq_3 before c rest hreturn).trans (if_pos hc)

/-- A line feed ends a line. -/
theorem linesAfter_lineFeed (before rest : List Char) :
    linesAfter before ('\n' :: rest) = before.reverse :: linesAfter [] rest :=
  linesAfter_cons_of_isLineEnd (by decide) (fun heq => absurd heq (by decide)) before

/-- The lines of joined pieces are the pieces, if none has a line end inside it and the last
one is not empty. -/
theorem lines_joinWith {pieces : List (List Char)}
    (h : ∀ piece ∈ pieces, Unbroken piece)
    (hlast : ∀ last ∈ pieces.getLast?, last ≠ []) : lines (joinWith '\n' pieces) = pieces := by
  induction pieces with
  | nil => rfl
  | cons piece rest ih =>
    obtain ⟨hpiece, hrest⟩ := List.forall_mem_cons.mp h
    cases rest with
    | nil =>
      have hne : piece.reverse.isEmpty = false := by simpa using hlast piece rfl
      have hend := linesAfter_append hpiece [] []
      rw [List.append_nil, List.append_nil, linesAfter, hne, List.reverse_reverse] at hend
      exact hend
    | cons next more =>
      have hmore := ih hrest fun last hmem => hlast last (by rwa [List.getLast?_cons_cons])
      rw [joinWith, lines, linesAfter_append hpiece, List.append_nil, linesAfter_lineFeed,
        List.reverse_reverse]
      exact congrArg _ hmore

/-- No line has a line end inside it. -/
theorem unbroken_of_mem_linesAfter {before text line : List Char} (h : Unbroken before)
    (hline : line ∈ linesAfter before text) : Unbroken line := by
  induction before, text using linesAfter.induct with
  | case1 before hempty =>
    rw [linesAfter, if_pos hempty] at hline
    cases hline
  | case2 before hempty =>
    rw [linesAfter, if_neg hempty] at hline
    exact List.mem_singleton.mp hline ▸ h.reverse
  | case3 before rest ih =>
    rw [linesAfter] at hline
    rcases List.mem_cons.mp hline with rfl | hline
    · exact h.reverse
    · exact ih .nil hline
  | case4 before c rest hreturn hend ih =>
    rw [linesAfter.eq_3 before c rest hreturn, if_pos hend] at hline
    rcases List.mem_cons.mp hline with rfl | hline
    · exact h.reverse
    · exact ih .nil hline
  | case5 before c rest hreturn hend ih =>
    rw [linesAfter.eq_3 before c rest hreturn, if_neg hend] at hline
    have hc : isLineEnd c = false := by simpa using hend
    exact ih (List.forall_mem_cons.mpr ⟨hc, h⟩) hline

/-- Lines are unbroken. -/
theorem unbroken_of_mem_lines {text line : List Char} (h : line ∈ lines text) : Unbroken line :=
  unbroken_of_mem_linesAfter .nil h

end Text

namespace Comment

open Text

/-! ### Breaking up closings leaves lines apart -/

/-- A character stays as it is unless it starts a closing. -/
theorem guardEnd_cons {c : Char} {rest : List Char} (h : c = '*' → rest.head? ≠ some '/') :
    guardEnd (c :: rest) = c :: guardEnd rest := by
  have hother : ∀ more, c = '*' → rest = '/' :: more → False := by
    rintro more hc rfl
    exact h hc rfl
  rw [guardEnd.eq_2 c rest hother]

/-- Two texts are guarded one by one if not both a star ends the first and a slash begins
the second. -/
theorem guardEnd_append {first second : List Char}
    (h : first.getLast? = some '*' → second.head? ≠ some '/') :
    guardEnd (first ++ second) = guardEnd first ++ guardEnd second := by
  induction first using guardEnd.induct with
  | case1 rest ih =>
    have hrest : rest.getLast? = some '*' → second.head? ≠ some '/' := by
      intro hlast
      cases rest with
      | nil => cases hlast
      | cons c more => exact h (by simpa [List.getLast?_cons_cons] using hlast)
    rw [List.cons_append, List.cons_append, guardEnd, guardEnd, ih hrest]
    rfl
  | case2 c rest hother ih =>
    have hempty : guardEnd [] = [] := rfl
    cases rest with
    | nil =>
      have hjoin : c = '*' → second.head? ≠ some '/' := fun hc => h (congrArg some hc)
      rw [List.singleton_append, guardEnd_cons hjoin, guardEnd.eq_2 c [] hother, hempty]
      rfl
    | cons d more =>
      have hjoin : c = '*' → (d :: (more ++ second)).head? ≠ some '/' := fun hc hd =>
        hother more hc (by rw [Option.some.inj hd])
      have hrest : (d :: more).getLast? = some '*' → second.head? ≠ some '/' := fun hlast =>
        h (by rwa [List.getLast?_cons_cons])
      rw [List.cons_append, List.cons_append, guardEnd_cons hjoin, ← List.cons_append, ih hrest,
        guardEnd.eq_2 c _ hother, List.cons_append]
  | case3 => rfl

/-- Breaking up closings leaves nothing only of nothing. -/
theorem guardEnd_eq_nil_iff {text : List Char} : guardEnd text = [] ↔ text = [] := by
  rw [← List.head?_eq_none_iff, head?_guardEnd, List.head?_eq_none_iff]

/-- Whether the lines of a guarded text are its guarded lines. The line that the text goes on
from, which is reversed, is guarded with it. -/
def KeepsLines (before text : List Char) : Prop :=
  linesAfter (guardEnd before.reverse).reverse (guardEnd text) =
    (linesAfter before text).map guardEnd

/-- What stands in one line is guarded with the line before it or with the text. -/
theorem KeepsLines.append {before more rest : List Char}
    (hline : KeepsLines (more.reverse ++ before) rest) (hmore : Unbroken more)
    (hguarded : Unbroken (guardEnd more))
    (hbefore : before.head? = some '*' → more.head? ≠ some '/')
    (hrest : more.getLast? = some '*' → rest.head? ≠ some '/') :
    KeepsLines before (more ++ rest) := by
  have hadd : (guardEnd (more.reverse ++ before).reverse).reverse =
      (guardEnd more).reverse ++ (guardEnd before.reverse).reverse := by
    rw [List.reverse_append, List.reverse_reverse, ← List.reverse_append,
      guardEnd_append (by rwa [List.getLast?_reverse])]
  rw [KeepsLines, hadd] at hline
  rw [KeepsLines, guardEnd_append hrest, linesAfter_append hguarded, hline,
    linesAfter_append hmore]

/-- A line end is followed by the lines of the rest. -/
theorem KeepsLines.cons_of_isLineEnd {c : Char} {rest : List Char} (hc : isLineEnd c = true)
    (hnext : c = '*' → rest.head? ≠ some '/') (hrest : KeepsLines [] rest)
    (before : List Char) : KeepsLines before (c :: rest) := by
  have hstart : (guardEnd [].reverse).reverse = [] := rfl
  have hdone : (guardEnd before.reverse).reverse.reverse = guardEnd before.reverse :=
    List.reverse_reverse _
  rw [KeepsLines, hstart] at hrest
  rw [KeepsLines, guardEnd_cons hnext]
  by_cases hboth : c = '\r' ∧ rest.head? = some '\n'
  · -- The rest starts with the second half of the line end.
    obtain ⟨rfl, hhead⟩ := hboth
    obtain ⟨more, rfl⟩ := List.head?_eq_some_iff.mp hhead
    have hfeed : guardEnd ('\n' :: more) = '\n' :: guardEnd more := guardEnd_cons (by simp)
    rw [hfeed, linesAfter_lineFeed, linesAfter_lineFeed, List.map_cons] at hrest
    rw [hfeed, linesAfter, linesAfter, List.map_cons, hdone, (List.cons.inj hrest).2]
  · have hsingle : c = '\r' → rest.head? ≠ some '\n' := fun hc hhead => hboth ⟨hc, hhead⟩
    have hguarded : c = '\r' → (guardEnd rest).head? ≠ some '\n' := by rwa [head?_guardEnd]
    rw [linesAfter_cons_of_isLineEnd hc hsingle, linesAfter_cons_of_isLineEnd hc hguarded,
      List.map_cons, hdone, hrest]

/-- Lines are kept as long as no closing is put together where the text starts. -/
theorem keepsLines (before text : List Char)
    (h : before.head? = some '*' → text.head? ≠ some '/') : KeepsLines before text := by
  induction text using guardEnd.induct generalizing before with
  | case1 rest ih =>
    have hline := ih (['*', '/'].reverse ++ before) (by simp)
    exact hline.append (by decide) (by decide) (by simp) (by simp)
  | case2 c rest hother ih =>
    have hnext : c = '*' → rest.head? ≠ some '/' := by
      intro hc hhead
      obtain ⟨more, rfl⟩ := List.head?_eq_some_iff.mp hhead
      exact hother more hc rfl
    by_cases hend : isLineEnd c = true
    · exact .cons_of_isLineEnd hend hnext (ih [] (by simp)) before
    · have hplain : Unbroken [c] := by simpa [Unbroken] using hend
      have hguarded : guardEnd [c] = [c] := guardEnd_cons (by simp)
      have hline := ih ([c].reverse ++ before) (by simpa using hnext)
      exact hline.append hplain (hguarded.symm ▸ hplain) (by simpa using h) (by simpa using hnext)
  | case3 =>
    have hempty : guardEnd [] = [] := rfl
    rw [KeepsLines, hempty, linesAfter, linesAfter]
    by_cases hbefore : before = []
    · subst hbefore
      rfl
    · have hleft : (guardEnd before.reverse).reverse.isEmpty = false := by
        simpa [guardEnd_eq_nil_iff] using hbefore
      have hright : before.isEmpty = false := by simpa using hbefore
      rw [hleft, hright, List.reverse_reverse]
      rfl

/-- Breaking up closings neither joins nor divides lines. -/
theorem lines_guardEnd (text : List Char) : lines (guardEnd text) = (lines text).map guardEnd :=
  keepsLines [] text (by simp)

/-! ### The lines of a comment -/

/-- The lines of a description that is printed as a comment. -/
def descriptionLines (text : String) : List (List Char) := lines (trim isBlank text.toList)

/-- The lines of the comment of a description that has the given lines. -/
def commentLines (indent : List Char) : List (List Char) → List (List Char)
  | [] => [indent ++ "/**".toList, [], indent ++ " */".toList]
  | [line] => [indent ++ "/** ".toList ++ line ++ " */".toList]
  | body => (indent ++ "/**".toList) :: body.map (bodyLine indent) ++ [indent ++ " */".toList]

/-- A comment is made of its lines, with line feeds in between. -/
theorem formatChars_eq_joinWith (indent text : List Char) :
    formatChars indent text = joinWith '\n' (commentLines indent (bodyLines text)) := by
  have hopen : "/**\n".toList = "/**".toList ++ ['\n'] := rfl
  unfold formatChars commentLines
  split
  · rename_i line hlines
    rw [hlines]
    rfl
  · rename_i hmany
    cases hlines : bodyLines text with
    | nil => simp [joinWith]
    | cons first rest =>
      cases rest with
      | nil => exact absurd hlines (hmany first)
      | cons second more =>
        dsimp only
        rw [joinWith_concat '\n' (by simp), List.map_cons, joinWith, hopen]
        simp

section Indented

variable {indent : List Char} (hindent : ∀ c ∈ indent, c = ' ' ∨ c = '\t')

include hindent

/-- An indent is blank. -/
theorem isBlank_of_mem_indent : ∀ c ∈ indent, isBlank c = true := by
  intro c hc
  rcases hindent c hc with rfl | rfl <;> decide

/-- An indent is unbroken. -/
theorem unbroken_indent : Unbroken indent := by
  intro c hc
  rcases hindent c hc with rfl | rfl <;> decide

end Indented

/-- The star of a line inside a comment keeps the indentation before it. -/
theorem prefix_bodyLine (indent line : List Char) : indent <+: bodyLine indent line := by
  have hstar : trimEnd isBlank (' ' :: '*' :: ' ' :: line) ≠ [] := by
    intro hnil
    have hall := List.rdropWhile_eq_nil_iff.mp hnil '*' (by simp)
    exact absurd hall (by decide)
  rw [bodyLine, trimEnd_append hstar]
  exact List.prefix_append _ _

/-- The lines of a comment have no line end inside them. -/
theorem unbroken_of_mem_commentLines {indent : List Char} (hindent : Unbroken indent)
    {body : List (List Char)} (hbody : ∀ line ∈ body, Unbroken line) :
    ∀ line ∈ commentLines indent body, Unbroken line := by
  have hopening : Unbroken (indent ++ "/**".toList) := hindent.append (by decide)
  have hclosing : Unbroken (indent ++ " */".toList) := hindent.append (by decide)
  unfold commentLines
  split
  · simp only [List.forall_mem_cons]
    exact ⟨hopening, .nil, hclosing, List.forall_mem_nil _⟩
  · rename_i line
    have hline := hbody line (List.mem_singleton_self line)
    have hstart : Unbroken "/** ".toList := by decide
    have hend : Unbroken " */".toList := by decide
    rw [List.forall_mem_singleton]
    exact ((hindent.append hstart).append hline).append hend
  · rw [List.forall_mem_append, List.forall_mem_cons, List.forall_mem_map,
      List.forall_mem_singleton]
    refine ⟨⟨hopening, fun line hline c hc => ?_⟩, hclosing⟩
    have hstar : Unbroken [' ', '*', ' '] := by decide
    exact (hindent.append (hstar.append (hbody line hline))) c (mem_of_mem_trimEnd hc)

/-- A comment has a line. -/
theorem commentLines_ne_nil (indent : List Char) (body : List (List Char)) :
    commentLines indent body ≠ [] := by
  unfold commentLines
  split <;> simp

/-- The last line of a comment is not empty. -/
theorem ne_nil_of_getLast?_commentLines (indent : List Char) (body : List (List Char)) :
    ∀ last ∈ (commentLines indent body).getLast?, last ≠ [] := by
  unfold commentLines
  split
  · simp
  · simp
  · rw [List.getLast?_concat]
    rintro _ ⟨⟩
    simp

/-- The lines of a comment are told by those of the description. Nothing else than line feeds
ends them. -/
theorem lines_formatChars {indent : List Char} (hindent : Unbroken indent) (text : List Char) :
    lines (formatChars indent text) =
        commentLines indent ((lines (trim isBlank text)).map guardEnd) ∧
      splitAt '\n' (formatChars indent text) = lines (formatChars indent text) := by
  have hbody : ∀ line ∈ bodyLines text, Unbroken line := fun _ => unbroken_of_mem_lines
  have hunbroken := unbroken_of_mem_commentLines hindent hbody
  have hlines := lines_joinWith hunbroken (ne_nil_of_getLast?_commentLines indent _)
  have hpieces : splitAt '\n' (joinWith '\n' (commentLines indent (bodyLines text))) =
      commentLines indent (bodyLines text) :=
    splitAt_joinWith (commentLines_ne_nil indent _) fun line hline =>
      (hunbroken line hline).lineFeed_not_mem
  rw [formatChars_eq_joinWith, hpieces, hlines, bodyLines, lines_guardEnd]
  exact ⟨rfl, rfl⟩

/-- A body of several lines stands between two more. -/
theorem length_commentLines (indent : List Char) {body : List (List Char)}
    (h : 2 ≤ body.length) : (commentLines indent body).length = body.length + 2 := by
  unfold commentLines
  split
  · simp at h
  · simp at h
  · simp

/-- Behind its first line a comment is indented, but for the empty line in the comment of an
empty description. -/
theorem prefix_of_mem_tail_commentLines {indent line : List Char} {body : List (List Char)}
    (h : line ∈ (commentLines indent body).tail) : indent <+: line ∨ line = [] := by
  have hclosing : indent <+: indent ++ " */".toList := List.prefix_append _ _
  unfold commentLines at h
  split at h
  · rcases List.mem_cons.mp h with rfl | h
    · exact Or.inr rfl
    · exact Or.inl (List.mem_singleton.mp h ▸ hclosing)
  · cases h
  · rw [List.cons_append, List.tail_cons, List.mem_append, List.mem_singleton] at h
    rcases h with h | rfl
    · obtain ⟨given, _, rfl⟩ := List.mem_map.mp h
      exact Or.inl (prefix_bodyLine indent given)
    · exact Or.inl hclosing

/-- An unclosed text holds no closing, so one that ends up in it with one more character ends
there. -/
theorem Unclosed.eq_nil_of_closing {front before after : List Char} {last : Char}
    (h : Unclosed front) (heq : front ++ [last] = before ++ "*/".toList ++ after) :
    after = [] := by
  rcases List.eq_nil_or_concat' after with rfl | ⟨init, c, rfl⟩
  · rfl
  · rw [← List.append_assoc] at heq
    obtain ⟨rfl, _⟩ := List.append_inj' heq rfl
    have hclosing : Unclosed "*/".toList := h.left_of_append.right_of_append
    exact absurd rfl ((List.isChain_cons_cons.mp hclosing).1 rfl)

/-- A block comment behind an indentation. -/
structure IsBlockComment (indent comment : List Char) : Prop where
  /-- It starts with the indentation and the opening, and ends with the closing. -/
  enclosed : ∃ inside, comment = indent ++ "/**".toList ++ inside ++ "*/".toList
  /-- It has no other closing. -/
  closed_last : ∀ before after, comment = before ++ "*/".toList ++ after → after = []
  /-- Nothing else than line feeds ends its lines. -/
  lines_eq : lines comment = splitAt '\n' comment
  /-- Each line behind the first one starts with the indentation or is empty. -/
  indented : ∀ line ∈ (lines comment).tail, indent <+: line ∨ line = []

/-- What is formatted is a block comment, whatever the text. -/
theorem formatChars_isBlockComment {indent : List Char}
    (hindent : ∀ c ∈ indent, c = ' ' ∨ c = '\t') (text : List Char) :
    IsBlockComment indent (formatChars indent text) := by
  have hblank := isBlank_of_mem_indent hindent
  obtain ⟨hlines, hpieces⟩ := lines_formatChars (unbroken_indent hindent) text
  obtain ⟨body, hbody, hformat⟩ := exists_formatChars_eq hblank text
  refine ⟨⟨body, by simp [hformat]⟩, fun before after heq => ?_, hpieces.symm,
    fun line hline => prefix_of_mem_tail_commentLines (hlines ▸ hline)⟩
  have hstar : indent.getLast? ≠ some '*' := fun hlast =>
    absurd (hblank '*' (List.mem_of_getLast? hlast)) (by decide)
  -- Without its last slash the comment is unclosed.
  have hfront : Unclosed (indent ++ '/' :: '*' :: ('*' :: body ++ ['*'])) :=
    (Unclosed.of_blank hblank).append ((hbody.cons (by simp)).cons (by simp))
      fun hlast => absurd hlast hstar
  have hwhole : indent ++ '/' :: '*' :: ('*' :: body ++ ['*']) ++ ['/'] =
      before ++ "*/".toList ++ after := by
    rw [← heq, hformat]
    simp
  exact hfront.eq_nil_of_closing hwhole

/-- A description cannot break out of its comment. Whatever it says, its comment is one block
comment behind the indentation, and one line longer at each end than the description if that
has several lines. -/
theorem format_isBlockComment (text indent : String)
    (hindent : ∀ c ∈ indent.toList, c = ' ' ∨ c = '\t') :
    IsBlockComment indent.toList (format text indent).toList ∧
      (2 ≤ (descriptionLines text).length →
        (lines (format text indent).toList).length = (descriptionLines text).length + 2) := by
  rw [format, String.toList_ofList]
  refine ⟨formatChars_isBlockComment hindent text.toList, fun hmany => ?_⟩
  have hlength : ((descriptionLines text).map guardEnd).length = (descriptionLines text).length :=
    List.length_map _
  obtain ⟨hlines, _⟩ := lines_formatChars (unbroken_indent hindent) text.toList
  rw [hlines, ← hlength]
  exact length_commentLines _ (hlength.symm ▸ hmany)

/-- A description with closings on both sides of its line ends, which are not line feeds. -/
theorem petNotes_isBlockComment :
    let text := "\u2029 Pets **/*/\u2028/ owners *\r\n/\x0b\n"
    let comment := "  /**\n   * Pets **\\/*\\/\n   * / owners *\n   * /\n   */"
    (∀ c ∈ "  ".toList, c = ' ' ∨ c = '\t') ∧ (descriptionLines text).length = 3 ∧
      format text "  " = comment ∧ IsBlockComment "  ".toList comment.toList ∧
      (lines comment.toList).length = 5 := by
  intro text comment
  have hindent : ∀ c ∈ "  ".toList, c = ' ' ∨ c = '\t' := by simp
  have hlength : (descriptionLines text).length = 3 := by decide +kernel
  have hformat : format text "  " = comment := by decide +kernel
  obtain ⟨hcomment, hlines⟩ := format_isBlockComment text "  " hindent
  rw [hformat, hlength] at hlines
  exact ⟨hindent, hlength, hformat, hformat ▸ hcomment, hlines (by decide)⟩

end Comment

end ApiTypes
