import ApiTypes.Document.Pointer

/-!
# Locations

A location is read back as the document and the segments that it was written
for, as long as the document has no `#` and the first segment neither is empty
nor starts with a `#`. The segments that are read from a pointer do not start
with an empty one.
-/

namespace ApiTypes

namespace Text

/-- Texts with one separator between parts that have none before it are equal
when the parts are. -/
theorem append_cons_inj {sep : Char} {first first' second second' : List Char}
    (hfirst : sep ∉ first) (hfirst' : sep ∉ first')
    (h : first ++ sep :: second = first' ++ sep :: second') :
    first = first' ∧ second = second' := by
  induction first generalizing first' with
  | nil =>
    cases first' with
    | nil => exact ⟨rfl, (List.cons.inj h).2⟩
    | cons c more => exact absurd (List.cons.inj h).1 fun heq => hfirst' (by simp [heq])
  | cons c more ih =>
    cases first' with
    | nil => exact absurd (List.cons.inj h).1 fun heq => hfirst (by simp [heq])
    | cons c' more' =>
      obtain ⟨rfl, hmore⟩ := List.cons.inj h
      obtain ⟨rfl, hsecond⟩ := ih (fun hmem => hfirst (List.mem_cons_of_mem _ hmem))
        (fun hmem => hfirst' (List.mem_cons_of_mem _ hmem)) hmore
      exact ⟨rfl, hsecond⟩

/-- A text that is not empty when it is trimmed does not start with a character
of the class. -/
theorem head?_trim {drops : Char → Bool} {text : List Char} {c : Char}
    (h : (trim drops text).head? = some c) : drops c = false := by
  have hprefix : trim drops text <+: text.dropWhile drops := by
    rw [trim, trimEnd, ← List.reverse_suffix, List.reverse_reverse]
    exact List.dropWhile_suffix _
  obtain ⟨rest, hrest⟩ := hprefix
  have hhead := List.head?_dropWhile_not drops text
  rw [← hrest, List.head?_append, h] at hhead
  simpa using hhead

/-- The first piece of a text that does not start with the separator starts like
the text. -/
theorem exists_splitAt_cons {sep c : Char} (h : c ≠ sep) (text : List Char) :
    ∃ piece pieces, splitAt sep (c :: text) = (c :: piece) :: pieces := by
  rw [splitAt, if_neg h]
  cases splitAt sep text with
  | nil => exact ⟨[], [], rfl⟩
  | cons piece pieces => exact ⟨piece, pieces, rfl⟩

end Text

namespace Pointer

open ApiTypes.Text

theorem unescapeSlash_cons {c : Char} (h : c ≠ '~') (rest : List Char) :
    unescapeSlash (c :: rest) = c :: unescapeSlash rest := by
  rw [unescapeSlash.eq_def]
  split <;> simp_all

theorem unescapeTilde_cons {c : Char} (h : c ≠ '~') (rest : List Char) :
    unescapeTilde (c :: rest) = c :: unescapeTilde rest := by
  rw [unescapeTilde.eq_def]
  split <;> simp_all

/-- A written segment is read back. -/
theorem unescapeSegment_escapeSegment (segment : List Char) :
    unescapeSegment (escapeSegment segment) = segment := by
  induction segment with
  | nil => rfl
  | cons c rest ih =>
    rw [unescapeSegment] at ih ⊢
    rw [escapeSegment, List.flatMap_cons]
    change unescapeTilde (unescapeSlash (_ ++ escapeSegment rest)) = _
    by_cases htilde : c = '~'
    · subst htilde
      simp [unescapeSlash, unescapeTilde, ih]
    · by_cases hslash : c = '/'
      · subst hslash
        simp [unescapeSlash, unescapeTilde_cons, ih]
      · rw [if_neg htilde, if_neg hslash, List.singleton_append, unescapeSlash_cons htilde,
          unescapeTilde_cons htilde, ih]

/-- Only a `#` at its start is dropped from a text. -/
theorem dropHash_eq_self {text : List Char} (h : text.head? ≠ some '#') :
    dropHash text = text := by
  rw [dropHash.eq_def]
  split
  · exact absurd rfl h
  · rfl

/-- A written segment has no slash. -/
theorem slash_not_mem_escapeSegment (segment : List Char) : '/' ∉ escapeSegment segment := by
  intro h
  obtain ⟨c, _, hc⟩ := List.mem_flatMap.mp h
  split at hc
  · simp at hc
  · split at hc
    · simp at hc
    · rename_i hslash
      exact hslash (List.mem_singleton.mp hc).symm

/-- Segments of which a location can be read back: the first one, if there is
one, is not empty and does not start with a `#`. -/
def Plain : List String → Prop
  | [] => True
  | first :: _ => first ≠ "" ∧ first.toList.head? ≠ some '#'

/-- The written form of segments starts with the first character of the first one,
or what is written for it. -/
theorem head?_joinChars {first : String} {rest : List String} (h : Plain (first :: rest)) :
    ∃ c more, joinChars ((first :: rest).map String.toList) = c :: more ∧ c ≠ '#' ∧ c ≠ '/' := by
  obtain ⟨hne, hhash⟩ := h
  obtain ⟨c, more, hfirst⟩ := List.exists_cons_of_ne_nil fun hnil =>
    hne (String.toList_eq_nil_iff.mp hnil)
  have hc : c ≠ '#' := by
    rintro rfl
    exact hhash (by rw [hfirst]; rfl)
  have hescape : ∃ d others, escapeSegment first.toList = d :: others ∧ d ≠ '#' ∧ d ≠ '/' := by
    rw [hfirst, escapeSegment, List.flatMap_cons]
    split
    · exact ⟨_, _, rfl, by decide, by decide⟩
    · split
      · exact ⟨_, _, rfl, by decide, by decide⟩
      · rename_i hslash
        exact ⟨_, _, rfl, hc, hslash⟩
  obtain ⟨d, others, hescape, hd⟩ := hescape
  cases rest with
  | nil => exact ⟨d, others, by simp [joinChars, joinWith, hescape], hd⟩
  | cons next segments => exact ⟨d, _, by simp [joinChars, joinWith, hescape]; rfl, hd⟩

/-- The characters of the location of segments: those of the document, a `#`,
and the segments after a slash if there are any. -/
theorem toList_locate (documentPoint : String) {segments : List String} (h : Plain segments) :
    (locate documentPoint segments).toList = documentPoint.toList ++ '#' ::
      if segments = [] then [] else '/' :: joinChars (segments.map String.toList) := by
  have hwritten : leadSlash (dropHash (joinChars (segments.map String.toList))) =
      if segments = [] then [] else '/' :: joinChars (segments.map String.toList) := by
    cases segments with
    | nil => rfl
    | cons first rest =>
      obtain ⟨c, more, hjoin, hhash, hslash⟩ := head?_joinChars h
      have hdrop : dropHash (c :: more) = c :: more := dropHash_eq_self (by simpa using hhash)
      have hlead : leadSlash (c :: more) = '/' :: c :: more := by
        rw [leadSlash.eq_def]
        split <;> simp_all
      rw [hjoin, if_neg (List.cons_ne_nil _ _), hdrop, hlead]
  simp [locate, locateWritten, hwritten]

/-- The written form of segments is taken apart into them. -/
theorem map_unescapeSegment_splitAt {segments : List (List Char)} (h : segments ≠ []) :
    (splitAt '/' (joinChars segments)).map unescapeSegment = segments := by
  rw [joinChars, splitAt_joinWith (by simpa using h), List.map_map]
  · refine (List.map_congr_left fun segment _ => ?_).trans (List.map_id _)
    exact unescapeSegment_escapeSegment segment
  · intro piece hpiece
    obtain ⟨segment, _, rfl⟩ := List.mem_map.mp hpiece
    exact slash_not_mem_escapeSegment segment

/-- The written form of segments is that of no others. -/
theorem joinChars_injective {segments segments' : List (List Char)} (h : segments ≠ [])
    (h' : segments' ≠ []) (heq : joinChars segments = joinChars segments') :
    segments = segments' := by
  rw [← map_unescapeSegment_splitAt h, heq, map_unescapeSegment_splitAt h']

/-- What is written after the `#` of a location is that of no other segments. -/
theorem segments_injective {segments segments' : List String}
    (h : (if segments = [] then [] else '/' :: joinChars (segments.map String.toList)) =
      if segments' = [] then [] else '/' :: joinChars (segments'.map String.toList)) :
    segments = segments' := by
  by_cases hnil : segments = []
  · by_cases hnil' : segments' = []
    · rw [hnil, hnil']
    · simp [hnil, hnil'] at h
  · by_cases hnil' : segments' = []
    · simp [hnil, hnil'] at h
    · rw [if_neg hnil, if_neg hnil', List.cons.injEq] at h
      have hmap := joinChars_injective (by simpa using hnil) (by simpa using hnil') h.2
      exact List.map_inj_right (fun _ _ => String.toList_inj.mp) |>.mp hmap

/-- The location of plain segments in a document without `#` is that of no
others. -/
theorem locate_injective {documentPoint documentPoint' : String} {segments segments' : List String}
    (hpoint : '#' ∉ documentPoint.toList) (hpoint' : '#' ∉ documentPoint'.toList)
    (hplain : Plain segments) (hplain' : Plain segments')
    (h : locate documentPoint segments = locate documentPoint' segments') :
    documentPoint = documentPoint' ∧ segments = segments' := by
  have hchars := congrArg String.toList h
  rw [toList_locate _ hplain, toList_locate _ hplain'] at hchars
  obtain ⟨hpoints, hsegments⟩ := append_cons_inj hpoint hpoint' hchars
  exact ⟨String.toList_inj.mp hpoints, segments_injective hsegments⟩

/-- In one document, the location of plain segments is that of no others. -/
theorem locate_segments_injective {documentPoint : String} {segments segments' : List String}
    (hplain : Plain segments) (hplain' : Plain segments')
    (h : locate documentPoint segments = locate documentPoint segments') :
    segments = segments' := by
  have hchars := congrArg String.toList h
  rw [toList_locate _ hplain, toList_locate _ hplain'] at hchars
  exact segments_injective (List.cons.inj (List.append_cancel_left hchars)).2

/-- What is read from a piece of a pointer is not empty unless the piece is. -/
theorem unescapeSegment_cons_ne_nil (c : Char) (written : List Char) :
    unescapeSegment (c :: written) ≠ [] := by
  have hslash : unescapeSlash (c :: written) ≠ [] := by
    rw [unescapeSlash.eq_def]
    split <;> simp_all
  have htilde {text : List Char} (h : text ≠ []) : unescapeTilde text ≠ [] := by
    rw [unescapeTilde.eq_def]
    split <;> simp_all
  exact htilde hslash

/-- The first segment of a pointer is not empty. -/
theorem split_first_ne_empty {written first : String} {rest : List String}
    (h : split written = first :: rest) : first ≠ "" := by
  rw [split, splitChars] at h
  cases hbody : trim (· == '/') (dropHash written.toList) with
  | nil => simp [hbody] at h
  | cons c body =>
    have hc : c ≠ '/' := by
      have hhead := head?_trim (by rw [hbody]; rfl)
      simpa using hhead
    obtain ⟨piece, pieces, hsplit⟩ := exists_splitAt_cons hc body
    simp only [hbody, List.isEmpty_cons, Bool.false_eq_true, ↓reduceIte, hsplit, List.map_cons,
      List.cons.injEq] at h
    intro hempty
    rw [hempty] at h
    exact unescapeSegment_cons_ne_nil c piece (String.ofList_eq_empty_iff.mp h.1)

end Pointer

end ApiTypes
