import ApiTypes.Proofs.Document.Place

/-!
# Segments that are read back from their location

A location shows segments as they are, but for three things that do not count when it is
read: a `#` at the start of the first segment, and empty segments at the start and at the
end. So segments are read back exactly when they have none of these. Slashes and tildes
inside them, marks of their own and empty segments in between make no difference.
-/

namespace ApiTypes.Pointer

open ApiTypes.Text

/-- Segments without a `#` at the start of the first one. -/
def withoutHash : List String → List String
  | [] => []
  | first :: rest => String.ofList (dropHash first.toList) :: rest

/-- Segments without the empty ones at either end. -/
def withoutEmptyEnds (segments : List String) : List String :=
  (segments.dropWhile (·.isEmpty)).rdropWhile (·.isEmpty)

/-- Dropping a leading hash drops no segment. -/
theorem length_withoutHash (segments : List String) :
    (withoutHash segments).length = segments.length := by
  cases segments <;> rfl

/-- Dropping empty ends adds no segment. -/
theorem withoutEmptyEnds_sublist (segments : List String) :
    (withoutEmptyEnds segments).Sublist segments :=
  (List.rdropWhile_prefix ..).sublist.trans (List.dropWhile_sublist _)

/-- A slash before the pointer of segments does not count. -/
theorem split_written_empty_cons (rest : List String) :
    split (written ("" :: rest)) = split (written rest) := by
  have hchars : (written ("" :: rest)).toList = '/' :: (written rest).toList := by
    rw [written, String.toList_ofList, written, String.toList_ofList]
    rfl
  have hdropped : trim (· == '/') (dropHash (written ("" :: rest)).toList) =
      trim (· == '/') (dropHash (written rest).toList) := by
    rw [hchars, dropHash_written]
    rfl
  rw [split_eq, split_eq, hdropped]

/-- The segments of a pointer are those that it was written for, but for empty ones at
either end. -/
theorem split_written_eq_withoutEmptyEnds (segments : List String) :
    split (written segments) = withoutEmptyEnds segments := by
  induction segments with
  | nil => rfl
  | cons first rest ih =>
    by_cases hfirst : first = ""
    · rw [hfirst, split_written_empty_cons, ih]
      rfl
    · have hhead : (first :: rest).head? ≠ some "" := by simpa using hfirst
      rw [split_written_eq hhead, withoutEmptyEnds,
        List.dropWhile_cons_of_neg (by simpa using hfirst)]

/-- The written form of segments starts with a `#` exactly when the first segment does. -/
theorem dropHash_joinChars (segments : List String) :
    dropHash (joinChars (segments.map String.toList)) =
      joinChars ((withoutHash segments).map String.toList) := by
  cases segments with
  | nil => rfl
  | cons first rest =>
    cases hfirst : first.toList with
    | nil => cases rest <;> simp [withoutHash, joinChars, joinWith, escapeSegment, dropHash, hfirst]
    | cons c more =>
      by_cases hc : c = '#'
      · subst hc
        cases rest <;> simp [withoutHash, joinChars, joinWith, escapeSegment, dropHash, hfirst]
      · have hplain : Plain (first :: rest) := by
          refine ⟨fun hempty => ?_, by simpa [hfirst] using hc⟩
          rw [hempty] at hfirst
          cases hfirst
        obtain ⟨d, others, hjoin, hhash, _⟩ := head?_joinChars hplain
        have hsame : withoutHash (first :: rest) = first :: rest := by
          rw [withoutHash, dropHash_eq_self hplain.2, String.ofList_toList]
        rw [hsame, hjoin, dropHash_eq_self (by simpa using hhash)]

/-- A slash is put before the written form of segments unless it stands for an empty one. -/
theorem split_leadSlash_joinChars (segments : List String) :
    split ("#" ++ String.ofList (leadSlash (joinChars (segments.map String.toList)))) =
      withoutEmptyEnds segments := by
  cases segments with
  | nil => rfl
  | cons first rest =>
    by_cases hfirst : first = ""
    · have hwritten : leadSlash (joinChars ((first :: rest).map String.toList)) =
          writtenChars rest := by
        cases rest with
        | nil => simp [hfirst, joinChars, joinWith, escapeSegment, leadSlash, writtenChars]
        | cons next more =>
          rw [writtenChars_cons, hfirst]
          simp [joinChars, joinWith, escapeSegment, leadSlash]
      rw [hwritten, ← split_written_eq_withoutEmptyEnds, hfirst, split_written_empty_cons]
      exact split_hash_written rest
    · obtain ⟨c, more, hjoin, hslash⟩ := exists_joinChars_eq_cons hfirst rest
      have hwritten : leadSlash (joinChars ((first :: rest).map String.toList)) =
          writtenChars (first :: rest) := by
        rw [writtenChars_cons, hjoin, leadSlash.eq_def]
        split <;> simp_all
      rw [hwritten, ← split_written_eq_withoutEmptyEnds]
      exact split_hash_written (first :: rest)

/-- What is read from the location of segments: a `#` at the start of the first one and
empty ones at either end are lost, and nothing else. -/
theorem split_locate_eq (segments : List String) :
    split (locate "" segments) = withoutEmptyEnds (withoutHash segments) := by
  have hwritten : (String.ofList (joinChars (segments.map String.toList))).toList =
      joinChars (segments.map String.toList) := String.toList_ofList
  rw [locate, locateWritten, hwritten, dropHash_joinChars]
  exact split_leadSlash_joinChars (withoutHash segments)

/-- Nothing is dropped when the first segment begins with no hash. -/
theorem withoutHash_cons_eq_self_iff {first : String} {rest : List String} :
    withoutHash (first :: rest) = first :: rest ↔ first.toList.head? ≠ some '#' := by
  rw [withoutHash, List.cons.injEq, and_iff_left rfl]
  constructor
  · intro hkept hhash
    obtain ⟨more, hmore⟩ := List.head?_eq_some_iff.mp hhash
    have hlength := congrArg (fun text => text.toList.length) hkept
    simp [hmore, dropHash] at hlength
  · intro hhash
    rw [dropHash_eq_self hhash, String.ofList_toList]

/-- Nothing is dropped when neither the first nor the last segment is empty. -/
theorem withoutEmptyEnds_cons_eq_self_iff {first : String} {rest : List String} :
    withoutEmptyEnds (first :: rest) = first :: rest ↔
      first ≠ "" ∧ (first :: rest).getLast? ≠ some "" := by
  have hlast : (first :: rest).getLast? ≠ some "" ↔
      (first :: rest).rdropWhile (·.isEmpty) = first :: rest := by
    rw [List.rdropWhile_eq_self_iff, List.getLast?_eq_some_getLast (List.cons_ne_nil _ _)]
    simp
  by_cases hfirst : first = ""
  · have hshort : (withoutEmptyEnds (first :: rest)).length ≤ rest.length := by
      rw [hfirst]
      exact (withoutEmptyEnds_sublist rest).length_le
    refine iff_of_false (fun heq => ?_) fun h => h.1 hfirst
    rw [heq, List.length_cons] at hshort
    omega
  · rw [hlast, and_iff_right hfirst, withoutEmptyEnds,
      List.dropWhile_cons_of_neg (by simpa using hfirst)]

/-- Segments are read back from their location exactly when there are none, or the first
one neither is empty nor starts with a `#` and the last one is not empty. -/
theorem split_locate_eq_self_iff (segments : List String) :
    split (locate "" segments) = segments ↔
      segments = [] ∨ ∃ first last, segments.head? = some first ∧ segments.getLast? = some last ∧
        first ≠ "" ∧ first.toList.head? ≠ some '#' ∧ last ≠ "" := by
  -- Nothing is lost when as many segments are read back.
  have hkept : split (locate "" segments) = segments ↔
      withoutHash segments = segments ∧ withoutEmptyEnds segments = segments := by
    rw [split_locate_eq]
    constructor
    · intro hread
      have hlength : (withoutEmptyEnds (withoutHash segments)).length =
          (withoutHash segments).length := by rw [hread, length_withoutHash]
      have hends := (withoutEmptyEnds_sublist (withoutHash segments)).eq_of_length hlength
      have hhash : withoutHash segments = segments := hends.symm.trans hread
      rw [hhash] at hends
      exact ⟨hhash, hends⟩
    · rintro ⟨hhash, hends⟩
      rw [hhash, hends]
  rw [hkept]
  cases segments with
  | nil => simp [withoutHash, withoutEmptyEnds]
  | cons first rest =>
    have hlast : (first :: rest).getLast? = some ((first :: rest).getLast (List.cons_ne_nil _ _)) :=
      List.getLast?_eq_some_getLast _
    rw [withoutHash_cons_eq_self_iff, withoutEmptyEnds_cons_eq_self_iff, hlast]
    constructor
    · rintro ⟨hhash, hfirst, hends⟩
      exact Or.inr ⟨first, _, rfl, rfl, hfirst, hhash, fun hempty => hends (hempty ▸ rfl)⟩
    · rintro (hnil | ⟨_, _, hhead, hends, hfirst, hhash, hne⟩)
      · cases hnil
      · cases hhead
        cases hends
        exact ⟨hhash, hfirst, fun hempty => hne (Option.some.inj hempty)⟩

end ApiTypes.Pointer
