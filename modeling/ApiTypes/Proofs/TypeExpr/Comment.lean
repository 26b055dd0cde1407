import ApiTypes.Proofs.TypeExpr.Scanner
import ApiTypes.TypeExpr.Comment
import Mathlib.Data.List.Chain

/-!
# Comments end where they are meant to

Between the opening and the closing of the block comment of a description there is no
other closing, so the comment has no symbols, whatever the description says.
-/

namespace ApiTypes

open Text

namespace Comment

/-- No star is followed by a slash. -/
def Unclosed (chars : List Char) : Prop := chars.IsChain fun c next => c = '*' → next ≠ '/'

namespace Unclosed

variable {first second : List Char}

theorem cons {c : Char} {rest : List Char} (h : Unclosed rest)
    (hc : c = '*' → rest.head? ≠ some '/') : Unclosed (c :: rest) :=
  List.isChain_cons.mpr ⟨fun _ hnext heq hslash => hc heq (hslash ▸ hnext), h⟩

/-- Texts can be put together if not both a star ends the first and a slash begins the
second. -/
theorem append (h : Unclosed first) (hsecond : Unclosed second)
    (hjoin : first.getLast? = some '*' → second.head? ≠ some '/') :
    Unclosed (first ++ second) :=
  List.isChain_append.mpr ⟨h, hsecond, fun _ hlast _ hnext heq hslash =>
    hjoin (heq ▸ hlast) (hslash ▸ hnext)⟩

/-- Blanks are neither stars nor slashes. -/
theorem of_blank {text : List Char} (h : ∀ c ∈ text, isBlank c = true) : Unclosed text := by
  induction text with
  | nil => exact List.isChain_nil
  | cons c rest ih =>
    obtain ⟨hc, hrest⟩ := List.forall_mem_cons.mp h
    refine (ih hrest).cons fun heq => ?_
    rw [heq] at hc
    exact absurd hc (by decide)

end Unclosed

/-- Guarding the ends of comments keeps the first character. -/
theorem head?_guardEnd (text : List Char) : (guardEnd text).head? = text.head? := by
  unfold guardEnd
  split <;> rfl

theorem unclosed_guardEnd (text : List Char) : Unclosed (guardEnd text) := by
  induction text using guardEnd.induct with
  | case1 rest ih =>
    rw [guardEnd]
    refine Unclosed.cons (Unclosed.cons (ih.cons ?_) ?_) ?_ <;> simp
  | case2 c rest hother ih =>
    rw [guardEnd.eq_2 c rest hother]
    refine ih.cons fun hstar hslash => ?_
    rw [head?_guardEnd] at hslash
    obtain ⟨more, rfl⟩ := List.head?_eq_some_iff.mp hslash
    exact hother more hstar rfl
  | case3 => exact List.isChain_nil

/-- The lines of an unclosed text are unclosed. -/
theorem unclosed_of_mem_linesAfter {before text line : List Char}
    (h : Unclosed (before.reverse ++ text)) (hline : line ∈ linesAfter before text) :
    Unclosed line := by
  induction before, text using linesAfter.induct with
  | case1 before hempty =>
    rw [linesAfter, if_pos hempty] at hline
    cases hline
  | case2 before hempty =>
    rw [linesAfter, if_neg hempty] at hline
    rw [List.mem_singleton.mp hline]
    exact h.left_of_append
  | case3 before rest ih =>
    rw [linesAfter] at hline
    rcases List.mem_cons.mp hline with rfl | hline
    · exact h.left_of_append
    · exact ih h.right_of_append.tail.tail hline
  | case4 before c rest hreturn hend ih =>
    rw [linesAfter.eq_3 before c rest hreturn, if_pos hend] at hline
    rcases List.mem_cons.mp hline with rfl | hline
    · exact h.left_of_append
    · exact ih h.right_of_append.tail hline
  | case5 before c rest hreturn hend ih =>
    rw [linesAfter.eq_3 before c rest hreturn, if_neg hend] at hline
    rw [List.reverse_cons, List.append_assoc, List.singleton_append] at ih
    exact ih h hline

theorem unclosed_of_mem_bodyLines {text line : List Char} (h : line ∈ bodyLines text) :
    Unclosed line := by
  have hguarded : Unclosed ([].reverse ++ guardEnd (trim isBlank text)) := unclosed_guardEnd _
  exact unclosed_of_mem_linesAfter hguarded h

/-- A line of a longer comment starts like one and is unclosed. -/
theorem unclosed_bodyLine {indent line : List Char} (hindent : ∀ c ∈ indent, isBlank c = true)
    (hline : Unclosed line) : Unclosed (bodyLine indent line) := by
  have hstar : Unclosed (' ' :: '*' :: ' ' :: line) :=
    ((hline.cons (by simp)).cons (by simp)).cons (by simp)
  have hwhole : Unclosed (indent ++ ' ' :: '*' :: ' ' :: line) :=
    (Unclosed.of_blank hindent).append hstar fun _ => by simp
  have hprefixOf : bodyLine indent line <+: indent ++ ' ' :: '*' :: ' ' :: line := by
    rw [bodyLine, trimEnd, ← List.reverse_suffix, List.reverse_reverse]
    exact List.dropWhile_suffix _
  exact hwhole.prefix hprefixOf

/-- Lines that are joined stay unclosed. -/
theorem unclosed_joinWith {lines : List (List Char)} (h : ∀ line ∈ lines, Unclosed line) :
    Unclosed (joinWith '\n' lines) := by
  induction lines with
  | nil => exact List.isChain_nil
  | cons line rest ih =>
    obtain ⟨hline, hrest⟩ := List.forall_mem_cons.mp h
    cases rest with
    | nil => exact hline
    | cons next more =>
      exact hline.append ((ih hrest).cons (by simp)) fun _ => by simp

/-- From the second star of its opening to the star of its closing a comment is unclosed. -/
theorem exists_formatChars_eq {indent : List Char} (hindent : ∀ c ∈ indent, isBlank c = true)
    (text : List Char) : ∃ body, Unclosed ('*' :: body ++ ['*']) ∧
      formatChars indent text = indent ++ '/' :: '*' :: '*' :: (body ++ ['*', '/']) := by
  have hstar : Unclosed ['*'] := List.isChain_singleton _
  have hend : Unclosed [' ', '*'] := hstar.cons (by simp)
  unfold formatChars
  split
  · rename_i line hlines
    have hline : Unclosed line := unclosed_of_mem_bodyLines (hlines ▸ List.mem_singleton_self line)
    refine ⟨' ' :: (line ++ [' ']), ?_, by simp⟩
    rw [List.cons_append, List.cons_append, List.append_assoc]
    exact ((hline.append hend (by simp)).cons (by simp)).cons (by simp)
  · have hbody : Unclosed (joinWith '\n' ((bodyLines text).map (bodyLine indent))) := by
      refine unclosed_joinWith fun line hmem => ?_
      obtain ⟨given, hgiven, rfl⟩ := List.mem_map.mp hmem
      exact unclosed_bodyLine hindent (unclosed_of_mem_bodyLines hgiven)
    refine ⟨'\n' :: (joinWith '\n' ((bodyLines text).map (bodyLine indent)) ++
      '\n' :: (indent ++ [' '])), ?_, by simp⟩
    simp only [List.cons_append, List.append_assoc]
    have hlast : Unclosed ('\n' :: (indent ++ [' ', '*'])) :=
      ((Unclosed.of_blank hindent).append hend (by simp)).cons (by simp)
    exact ((hbody.append hlast (by simp)).cons (by simp)).cons (by simp)

end Comment

namespace Scanner

/-- A comment goes on until a star is followed by a slash. -/
theorem run_comment {body : List Char} (h : Comment.Unclosed (body ++ ['*'])) :
    run .comment (body ++ ['*', '/']) = ([], .between) := by
  -- After a star the text must not begin with a slash either.
  have hboth : ∀ body, (Comment.Unclosed (body ++ ['*']) →
        run .comment (body ++ ['*', '/']) = ([], .between)) ∧
      (Comment.Unclosed ('*' :: (body ++ ['*'])) →
        run .star (body ++ ['*', '/']) = ([], .between)) := by
    intro body
    induction body with
    | nil => exact ⟨fun _ => rfl, fun _ => rfl⟩
    | cons c rest ih =>
      obtain ⟨hcomment, hstar⟩ := ih
      constructor
      · intro hclosed
        rw [List.cons_append, run_cons]
        by_cases hc : c = '*'
        · subst hc
          simp only [step, if_pos, hstar hclosed]
          rfl
        · simp only [step, if_neg hc, hcomment hclosed.tail]
          rfl
      · intro hclosed
        rw [List.cons_append, run_cons]
        have hslash : c ≠ '/' := (List.isChain_cons_cons.mp hclosed).1 rfl
        by_cases hc : c = '*'
        · subst hc
          simp only [step, if_neg hslash, if_pos, hstar hclosed.tail]
          rfl
        · simp only [step, if_neg hslash, if_neg hc, hcomment hclosed.tail.tail]
          rfl
  exact (hboth body).1 h

/-- A comment with the line end after it has no symbols. -/
theorem settles_format {indent : String} (hindent : ∀ c ∈ indent.toList, isBlank c = true)
    (text : String) : Settles (Comment.format text indent ++ "\n") [] := by
  obtain ⟨body, hbody, hformat⟩ := Comment.exists_formatChars_eq hindent text.toList
  have hinside : run .comment ('*' :: (body ++ ['*', '/'])) = ([], .between) := run_comment hbody
  have hblank := settles_blank hindent
  rw [Settles] at hblank
  have hopen : ∀ rest, run .between ('/' :: '*' :: rest) = run .comment rest := fun rest => by
    rw [run_cons, run_cons]
    rfl
  have hline : run .between "\n".toList = ([], .between) := by decide
  rw [Settles, Comment.format, hformat, String.toList_append, String.toList_ofList, run_append,
    run_append, hblank, hopen, hinside, hline]
  rfl

end Scanner

end ApiTypes
