import ApiTypes.Document.Point

/-!
# Points in normal form

The normal form of a point is its own normal form. It has no other characters
than the point and slashes, and so has a directory or a path that is read from
one.
-/

namespace ApiTypes

namespace Text

/-- A character of joined pieces is a separator or one of a piece. -/
theorem mem_joinWith {sep c : Char} {pieces : List (List Char)} :
    c ∈ joinWith sep pieces → c = sep ∨ ∃ piece ∈ pieces, c ∈ piece := by
  induction pieces with
  | nil => nofun
  | cons piece rest ih =>
    intro h
    cases rest with
    | nil => exact Or.inr ⟨piece, List.mem_cons_self .., h⟩
    | cons next more =>
      rw [joinWith, List.mem_append, List.mem_cons] at h
      rcases h with h | h | h
      · exact Or.inr ⟨piece, List.mem_cons_self .., h⟩
      · exact Or.inl h
      · rcases ih h with h | ⟨other, hother, h⟩
        · exact Or.inl h
        · exact Or.inr ⟨other, List.mem_cons_of_mem _ hother, h⟩

/-- A piece has no other characters than the pieces joined. -/
theorem mem_joinWith_of_mem {sep c : Char} {piece : List Char} {pieces : List (List Char)}
    (hpiece : piece ∈ pieces) (hc : c ∈ piece) : c ∈ joinWith sep pieces := by
  induction pieces with
  | nil => cases hpiece
  | cons first rest ih =>
    cases rest with
    | nil =>
      obtain rfl := List.mem_singleton.mp hpiece
      exact hc
    | cons next more =>
      rw [joinWith, List.mem_append, List.mem_cons]
      rcases List.mem_cons.mp hpiece with rfl | hmore
      · exact Or.inl hc
      · exact Or.inr (Or.inr (ih hmore))

/-- A piece of a text has no other characters than the text. -/
theorem mem_of_mem_splitAt {sep c : Char} {text piece : List Char}
    (hpiece : piece ∈ splitAt sep text) (hc : c ∈ piece) : c ∈ text :=
  joinWith_splitAt sep text ▸ mem_joinWith_of_mem hpiece hc

theorem mem_of_mem_trimEnd {drops : Char → Bool} {text : List Char} {c : Char}
    (h : c ∈ trimEnd drops text) : c ∈ text := by
  have hreversed := (List.dropWhile_sublist drops).subset (List.mem_reverse.mp h)
  exact List.mem_reverse.mp hreversed

end Text

namespace Point

open ApiTypes.Text

/-- What is kept of a path, the last part of which comes first: parts with a
name, and in a relative path parts `..` before them. -/
def Kept (rooted : Bool) : List (List Char) → Prop
  | [] => True
  | part :: rest => (part ≠ [] ∧ part ≠ ['.'] ∧ '/' ∉ part) ∧
    (part = up → rooted = false ∧ ∀ other ∈ rest, other = up) ∧ Kept rooted rest

variable {rooted : Bool}

/-- Every kept part has a name and no slash. -/
theorem Kept.named {kept : List (List Char)} (h : Kept rooted kept) :
    ∀ part ∈ kept, part ≠ [] ∧ '/' ∉ part := by
  induction kept with
  | nil => nofun
  | cons first rest ih =>
    intro part hmem
    rcases List.mem_cons.mp hmem with rfl | hmem
    · exact ⟨h.1.1, h.1.2.2⟩
    · exact ih h.2.2 part hmem

theorem Kept.push {kept : List (List Char)} (h : Kept rooted kept) {part : List Char}
    (hpart : '/' ∉ part) : Kept rooted (push rooted kept part) := by
  unfold Point.push
  split
  · exact h
  · rename_i hnamed
    rw [not_or] at hnamed
    split
    · rename_i hup
      subst hup
      cases kept with
      | nil =>
        cases rooted with
        | true => trivial
        | false => exact ⟨⟨hnamed.1, hnamed.2, hpart⟩, fun _ => ⟨rfl, nofun⟩, trivial⟩
      | cons last rest =>
        dsimp only
        split
        · rename_i hlast
          obtain ⟨hrooted, hrest⟩ := h.2.1 hlast
          refine ⟨⟨hnamed.1, hnamed.2, hpart⟩, fun _ => ⟨hrooted, fun other hmem => ?_⟩, h⟩
          rcases List.mem_cons.mp hmem with rfl | hmem
          · exact hlast
          · exact hrest other hmem
        · exact h.2.2
    · rename_i hup
      exact ⟨⟨hnamed.1, hnamed.2, hpart⟩, fun heq => absurd heq hup, h⟩

theorem Kept.foldl {kept : List (List Char)} (h : Kept rooted kept) {parts : List (List Char)}
    (hparts : ∀ part ∈ parts, '/' ∉ part) : Kept rooted (parts.foldl (Point.push rooted) kept) := by
  induction parts generalizing kept with
  | nil => exact h
  | cons part rest ih =>
    exact ih (h.push (hparts part (List.mem_cons_self ..)))
      fun other hmem => hparts other (List.mem_cons_of_mem _ hmem)

/-- A part that may be kept beside others is kept. -/
theorem Kept.push_eq {part : List Char} {kept : List (List Char)}
    (h : Kept rooted (part :: kept)) : Point.push rooted kept part = part :: kept := by
  obtain ⟨⟨hne, hdot, _⟩, hups, _⟩ := h
  unfold Point.push
  rw [if_neg (not_or.mpr ⟨hne, hdot⟩)]
  split
  · rename_i hup
    obtain ⟨rfl, hrest⟩ := hups hup
    cases kept with
    | nil => rw [hup]; rfl
    | cons last rest => simp [hrest last (List.mem_cons_self ..), hup]
  · rfl

/-- Parts that may be kept are kept as they are. -/
theorem Kept.foldl_eq {kept : List (List Char)} (h : Kept rooted kept) :
    kept.reverse.foldl (Point.push rooted) [] = kept := by
  induction kept with
  | nil => rfl
  | cons part rest ih =>
    rw [List.reverse_cons, List.foldl_append, ih h.2.2]
    exact h.push_eq

/-- Nothing is kept that is not a part. -/
theorem mem_of_mem_foldl_push {part : List Char} {parts kept : List (List Char)}
    (h : part ∈ parts.foldl (push rooted) kept) : part ∈ kept ∨ part ∈ parts := by
  induction parts generalizing kept with
  | nil => exact Or.inl h
  | cons first rest ih =>
    rcases ih h with h | h
    · have hpush : part ∈ kept ∨ part = first := by
        unfold push at h
        split at h
        · exact Or.inl h
        · split at h
          · rename_i hup
            split at h
            · split at h
              · cases h
              · exact Or.inr (hup ▸ List.mem_singleton.mp h)
            · split at h
              · exact (List.mem_cons.mp h).symm.imp_right fun heq => hup ▸ heq
              · exact Or.inl (List.mem_cons_of_mem _ h)
          · exact (List.mem_cons.mp h).symm
      rcases hpush with h | rfl
      · exact Or.inl h
      · exact Or.inr (List.mem_cons_self ..)
    · exact Or.inr (List.mem_cons_of_mem _ h)

/-- A path in normal form has no other characters than the path and slashes. -/
theorem mem_normalChars {c : Char} {path : List Char} (h : c ∈ normalChars path) :
    c = '/' ∨ c ∈ path := by
  rcases List.mem_append.mp h with h | h
  · exact Or.inl (List.eq_of_mem_replicate h)
  · rcases mem_joinWith h with h | ⟨part, hpart, hc⟩
    · exact Or.inl h
    · rcases mem_of_mem_foldl_push (List.mem_reverse.mp hpart) with hnone | hmem
      · cases hnone
      · exact Or.inr (mem_of_mem_splitAt hmem hc)

/-- The parts of a path in normal form may be kept. -/
theorem kept_normalParts (path : List Char) :
    Kept (rootSlashes path != 0) (normalParts path).reverse := by
  have hempty : Kept (rootSlashes path != 0) [] := trivial
  rw [normalParts, List.reverse_reverse]
  exact hempty.foldl fun part hmem => not_mem_of_mem_splitAt hmem

/-- Kept parts do not start with a slash when they are joined. -/
theorem Kept.head?_joinWith {parts : List (List Char)} (h : Kept rooted parts.reverse) :
    (joinWith '/' parts).head? ≠ some '/' := by
  cases parts with
  | nil => nofun
  | cons part rest =>
    obtain ⟨hne, hslash⟩ := h.named part (by simp)
    obtain ⟨c, more, rfl⟩ := List.exists_cons_of_ne_nil hne
    have hc : c ≠ '/' := fun heq => hslash (heq ▸ List.mem_cons_self ..)
    cases rest with
    | nil => simpa [joinWith] using hc
    | cons next others => simpa [joinWith] using hc

theorem rootSlashes_le (path : List Char) : rootSlashes path ≤ 2 := by
  unfold rootSlashes
  split <;> omega

/-- Up to two slashes before a text without one at its start stay. -/
theorem rootSlashes_replicate {n : Nat} (hn : n ≤ 2) {text : List Char}
    (h : text.head? ≠ some '/') : rootSlashes (List.replicate n '/' ++ text) = n := by
  have hcases : n = 0 ∨ n = 1 ∨ n = 2 := by omega
  rcases hcases with rfl | rfl | rfl <;> cases text <;> simp_all [rootSlashes, List.replicate]

/-- Slashes at the start of a path add empty parts, which are not kept. -/
theorem foldl_push_splitAt_replicate (n : Nat) (text : List Char) :
    (splitAt '/' (List.replicate n '/' ++ text)).foldl (Point.push rooted) [] =
      (splitAt '/' text).foldl (Point.push rooted) [] := by
  induction n with
  | zero => rfl
  | succ n ih =>
    rw [List.replicate_succ, List.cons_append, splitAt, if_pos rfl, List.foldl_cons]
    exact ih

/-- Kept parts are kept when they are joined and read again. -/
theorem Kept.foldl_push_splitAt {parts : List (List Char)} (h : Kept rooted parts.reverse) :
    (splitAt '/' (joinWith '/' parts)).foldl (Point.push rooted) [] = parts.reverse := by
  by_cases hne : parts = []
  · subst hne
    rfl
  · have hparts : ∀ part ∈ parts, '/' ∉ part := fun part hmem =>
      (h.named part (List.mem_reverse.mpr hmem)).2
    have hfold := h.foldl_eq
    rw [List.reverse_reverse] at hfold
    rw [splitAt_joinWith hne hparts, hfold]

/-- A normal form has the slashes at the start that it keeps. -/
theorem rootSlashes_normalChars (path : List Char) :
    rootSlashes (normalChars path) = rootSlashes path :=
  rootSlashes_replicate (rootSlashes_le path) (kept_normalParts path).head?_joinWith

/-- A normal form has the parts that it keeps. -/
theorem normalParts_normalChars (path : List Char) :
    normalParts (normalChars path) = normalParts path := by
  rw [normalParts, rootSlashes_normalChars, normalChars, foldl_push_splitAt_replicate,
    (kept_normalParts path).foldl_push_splitAt, List.reverse_reverse]

/-- A path in normal form is its own normal form. -/
theorem normalChars_normalChars (path : List Char) :
    normalChars (normalChars path) = normalChars path := by
  rw [normalChars, rootSlashes_normalChars, normalParts_normalChars, normalChars]

/-- Paths have one normal form when they start with as many slashes and keep the same
parts. -/
theorem normalChars_eq_iff {path other : List Char} :
    normalChars path = normalChars other ↔
      rootSlashes path = rootSlashes other ∧ normalParts path = normalParts other := by
  constructor
  · intro h
    constructor
    · rw [← rootSlashes_normalChars path, h, rootSlashes_normalChars]
    · rw [← normalParts_normalChars path, h, normalParts_normalChars]
  · rintro ⟨hroot, hparts⟩
    rw [normalChars, normalChars, hroot, hparts]

/-- A point has no other characters in normal form than before, and slashes. -/
theorem mem_normalize {c : Char} {point : String} (h : c ∈ (normalize point).toList) :
    c = '/' ∨ c ∈ point.toList := by
  rw [normalize, String.toList_ofList] at h
  rcases mem_normalChars h with h | hmem
  · exact Or.inl h
  · obtain ⟨c', hc', rfl⟩ := List.mem_map.mp hmem
    split
    · exact Or.inl rfl
    · exact Or.inr hc'

/-- The characters of a path, with slashes for backslashes. -/
def slashed (path : String) : List Char := path.toList.map fun c => if c = '\\' then '/' else c

/-- A point in normal form has no backslashes. -/
theorem slashed_normalize (point : String) :
    slashed (normalize point) = (normalize point).toList := by
  refine (List.map_congr_left fun c hc => ?_).trans (List.map_id _)
  rw [normalize, String.toList_ofList] at hc
  rcases mem_normalChars hc with rfl | hmem
  · rfl
  · obtain ⟨c', _, rfl⟩ := List.mem_map.mp hmem
    split <;> simp_all

/-- A point in normal form is its own normal form. -/
theorem normalize_normalize (point : String) : normalize (normalize point) = normalize point := by
  have hslashed := slashed_normalize point
  rw [slashed] at hslashed
  rw [normalize.eq_def (normalize point), hslashed, normalize, String.toList_ofList,
    normalChars_normalChars]

/-- A directory has no other characters than the path. -/
theorem mem_directory {c : Char} {path : String} (h : c ∈ (directory path).toList) :
    c ∈ path.toList := by
  have hhead : c ∈ throughLastSlash path.toList := by
    rw [directory, String.toList_ofList, directoryChars] at h
    split at h
    · exact h
    · exact mem_of_mem_trimEnd h
  exact List.mem_reverse.mp ((List.dropWhile_sublist _).subset (List.mem_reverse.mp hhead))

/-- A path that is read from a directory has no other characters than both, and
slashes. -/
theorem mem_join {c : Char} {directory path : String} (h : c ∈ (join directory path).toList) :
    c = '/' ∨ c ∈ directory.toList ∨ c ∈ path.toList := by
  unfold join at h
  split at h
  · exact Or.inr (Or.inr h)
  · split at h
    · rw [String.toList_append] at h
      exact Or.inr (List.mem_append.mp h)
    · simp only [String.toList_append, List.mem_append] at h
      rcases h with (h | h) | h
      · exact Or.inr (Or.inl h)
      · exact Or.inl (by simpa using h)
      · exact Or.inr (Or.inr h)

end Point

end ApiTypes
