import ApiTypes.Proofs.Document.Meeting
import ApiTypes.Proofs.Document.Place

/-!
# Points as lists of names

A point in normal form that stays inside the directory it is read from is a list of names,
through which it goes down. Directories, paths that are read from them and the way from one
directory to a point are then operations on lists. What is put before the names of a directory
comes before the names of every point that is read from it, as long as the path to that point
does not go up out of the directory.
-/

namespace ApiTypes.Point

open Text

/-- Parts of a path that lead down. -/
def AreNames (names : List (List Char)) : Prop :=
  ∀ name ∈ names, (name ≠ [] ∧ name ≠ ['.'] ∧ name ≠ up) ∧ '/' ∉ name ∧ '\\' ∉ name

/-- The point that goes down through names. -/
def ofNames (names : List (List Char)) : String := String.ofList (joinWith '/' names)

/-- Names and names are names. -/
theorem AreNames.append {names more : List (List Char)} (h : AreNames names)
    (hmore : AreNames more) : AreNames (names ++ more) := fun name hmem =>
  (List.mem_append.mp hmem).elim (h name) (hmore name)

/-- A beginning of names has names only. -/
theorem AreNames.of_append_left {names more : List (List Char)} (h : AreNames (names ++ more)) :
    AreNames names := fun name hmem => h name (List.mem_append_left _ hmem)

/-- Names are kept, in an absolute path too. -/
theorem AreNames.kept {names : List (List Char)} (h : AreNames names) (rooted : Bool) :
    Kept rooted names := by
  induction names with
  | nil => trivial
  | cons name rest ih =>
    obtain ⟨⟨⟨hne, hdot, hup⟩, hslash, _⟩, hrest⟩ := List.forall_mem_cons.mp h
    exact ⟨⟨hne, hdot, hslash⟩, fun heq => absurd heq hup, ih hrest⟩

/-- Names are joined by slashes. -/
theorem toList_ofNames (names : List (List Char)) :
    (ofNames names).toList = joinWith '/' names := String.toList_ofList

section Names

variable {names : List (List Char)} (h : AreNames names)

include h

/-- Names are kept in a path. -/
theorem AreNames.kept_reverse (rooted : Bool) : Kept rooted names.reverse :=
  AreNames.kept (fun name hmem => h name (List.mem_reverse.mp hmem)) rooted

/-- Names have no backslashes. -/
theorem slashed_ofNames : slashed (ofNames names) = joinWith '/' names := by
  refine (congrArg _ (toList_ofNames names)).trans ((List.map_congr_left fun c hc => ?_).trans
    (List.map_id _))
  have hne : c ≠ '\\' := by
    rintro rfl
    rcases mem_joinWith hc with heq | ⟨name, hname, hmem⟩
    · cases heq
    · exact (h name hname).2.2 hmem
  rw [if_neg hne, id]

/-- The point of names is relative. -/
theorem head?_ofNames : (joinWith '/' names).head? ≠ some '/' :=
  (h.kept_reverse false).head?_joinWith

/-- Names have no slash in front. -/
theorem rootSlashes_ofNames : rootSlashes (slashed (ofNames names)) = 0 := by
  have hzero := rootSlashes_replicate (Nat.zero_le 2) (head?_ofNames h)
  rwa [slashed_ofNames h]

/-- The names of a point are its parts. -/
theorem route_ofNames : route (ofNames names) = names := by
  have hroot := rootSlashes_ofNames h
  rw [slashed_ofNames h] at hroot
  rw [route, slashed_ofNames h, normalParts, hroot, (h.kept_reverse _).foldl_push_splitAt,
    List.reverse_reverse]

/-- A path of names is in normal form. -/
theorem normalize_ofNames : normalize (ofNames names) = ofNames names := by
  have hroot := rootSlashes_ofNames h
  have hroute := route_ofNames h
  rw [route] at hroute
  change String.ofList (normalChars (slashed (ofNames names))) = _
  rw [normalChars, hroot, hroute]
  rfl

/-- Only the path of no names is empty. -/
theorem ofNames_eq_empty_iff : ofNames names = "" ↔ names = [] := by
  constructor
  · intro hempty
    have hroute := route_ofNames h
    rw [hempty] at hroute
    exact hroute.symm
  · rintro rfl
    rfl

/-- The names of a point are those between its slashes. -/
theorem parts_ofNames (hne : names ≠ []) : parts (ofNames names) = names.map String.ofList := by
  rw [parts, toList_ofNames, splitAt_joinWith hne fun name hmem => (h name hmem).2.1]

/-- Nothing is known of the way to the working directory, and then the names follow. -/
theorem namesFromRoot_ofNames (levels : Nat) :
    namesFromRoot levels (ofNames names) =
      List.replicate levels none ++ names.map fun name => some (String.ofList name) := by
  have hroot := rootSlashes_ofNames h
  have hroute := route_ofNames h
  rw [route] at hroute
  rw [slashed_ofNames h] at hroot hroute
  have hups : names.takeWhile (fun name => decide (name = up)) = [] := by
    cases names with
    | nil => rfl
    | cons name rest =>
      have hup : name ≠ up := (h name (List.mem_cons_self ..)).1.2.2
      simp [hup]
  simp only [namesFromRoot, toList_ofNames, hroot, hroute, hups, if_true, List.length_nil,
    List.drop_zero, Nat.sub_zero]

end Names

/-- A point in normal form that stays inside the directory it is read from is one of names. -/
theorem exists_names {point : String} (hnormal : normalize point = point)
    (hinside : StaysInside point) : ∃ names, AreNames names ∧ point = ofNames names := by
  have hchars := toList_of_relative hnormal hinside.relative
  have hroot := rootSlashes_of_relative hnormal hinside.relative
  obtain ⟨_, hup, hnames⟩ := route_eq_append hroot
  rw [descent, hinside.climb_eq, List.drop_zero] at hup hnames
  have hslashed := slashed_normalize point
  rw [hnormal] at hslashed
  refine ⟨route point, fun name hmem => ⟨⟨(hnames name hmem).1, (hnames name hmem).2, ?_⟩, ?_, ?_⟩,
    String.toList_injective (hchars.trans String.toList_ofList.symm)⟩
  · rintro rfl
    exact hup hmem
  · exact ((kept_normalParts (slashed point)).named name (List.mem_reverse.mpr hmem)).2
  · intro hbackslash
    have hc : '\\' ∈ slashed point := by
      rw [hslashed, hchars]
      exact mem_joinWith_of_mem hmem hbackslash
    obtain ⟨c, _, heq⟩ := List.mem_map.mp hc
    split at heq
    · cases heq
    · exact absurd heq (by assumption)

/-! ### Directories -/

/-- What stands up to the last slash of a path is what its last part follows. -/
theorem throughLastSlash_append {head last : List Char} (hlast : '/' ∉ last)
    (hhead : head = [] ∨ ∃ before, head = before ++ ['/']) :
    throughLastSlash (head ++ last) = head := by
  have hsplit : throughLastSlash (head ++ last) ++ afterLastSlash (head ++ last) =
      head ++ last := by
    rw [throughLastSlash, afterLastSlash, ← List.reverse_append, List.takeWhile_append_dropWhile,
      List.reverse_reverse]
  rw [afterLastSlash_append hlast hhead] at hsplit
  exact List.append_cancel_right hsplit

/-- The last character of the point of names is no slash. -/
theorem getLast?_joinWith {names : List (List Char)} (h : AreNames names) :
    ∀ c ∈ (joinWith '/' names).getLast?, (c == '/') = false := by
  intro c hc
  rcases List.eq_nil_or_concat' names with rfl | ⟨init, last, rfl⟩
  · cases hc
  · obtain ⟨⟨hne, _⟩, hslash, _⟩ := h last (by simp)
    have hmem : c ∈ last := by
      by_cases hinit : init = []
      · rw [hinit] at hc
        exact List.mem_of_getLast? hc
      · rw [joinWith_concat '/' hinit, List.getLast?_append_cons,
          List.getLast?_cons_of_ne_nil hne] at hc
        exact List.mem_of_getLast? hc
    have hc' : c ≠ '/' := fun heq => hslash (heq ▸ hmem)
    simpa using hc'

/-- The directory of a point has its names but for the last one. -/
theorem directory_ofNames {names : List (List Char)} {last : List Char}
    (h : AreNames (names ++ [last])) : directory (ofNames (names ++ [last])) = ofNames names := by
  have hnames := h.of_append_left
  have hlast : '/' ∉ last := (h last (by simp)).2.1
  rw [directory, toList_ofNames]
  refine congrArg String.ofList ?_
  by_cases hnil : names = []
  · subst hnil
    have hthrough : throughLastSlash last = [] := throughLastSlash_append hlast (Or.inl rfl)
    simp only [List.nil_append, joinWith, directoryChars, hthrough]
    rfl
  · have hsplit : joinWith '/' (names ++ [last]) = (joinWith '/' names ++ ['/']) ++ last := by
      rw [joinWith_concat '/' hnil]
      simp
    have hthrough : throughLastSlash (joinWith '/' (names ++ [last])) =
        joinWith '/' names ++ ['/'] :=
      hsplit ▸ throughLastSlash_append hlast (Or.inr ⟨_, rfl⟩)
    have hne : joinWith '/' names ≠ [] := fun hempty =>
      hnil ((ofNames_eq_empty_iff hnames).mp (String.ofList_eq_empty_iff.mpr hempty))
    have hend := getLast?_joinWith hnames
    have hslashes : (joinWith '/' names ++ ['/']).all (· == '/') = false := by
      have hc := hend _ (List.getLast_mem_getLast? hne)
      rw [List.all_append, List.all_eq_false.mpr ⟨_, List.getLast_mem hne, by simp [hc]⟩]
      rfl
    have htrimmed : trimEnd (· == '/') (joinWith '/' names ++ ['/']) = joinWith '/' names :=
      (List.rdropWhile_concat_pos _ _ _ (by decide)).trans (trimEnd_eq_self hend)
    simp only [directoryChars, hthrough, hslashes, htrimmed, Bool.false_eq_true, if_false]

/-! ### Paths that are read from a directory -/

/-- Going up never takes back that a path has left its directory. -/
theorem up_mem_foldl_push {kept : List (List Char)} (h : up ∈ kept) (parts : List (List Char)) :
    up ∈ parts.foldl (push false) kept := by
  induction parts generalizing kept with
  | nil => exact h
  | cons part rest ih =>
    refine ih ?_
    unfold push
    split
    · exact h
    · split
      · cases kept with
        | nil => exact List.mem_singleton_self _
        | cons last more =>
          dsimp only
          split
          · exact List.mem_cons_self ..
          · rename_i hlast
            exact (List.mem_cons.mp h).resolve_left (Ne.symm hlast)
      · exact List.mem_cons_of_mem _ h

/-- A path that does not leave its directory keeps the names that lead there. -/
theorem foldl_push_append {kept base parts : List (List Char)}
    (h : up ∉ parts.foldl (push false) kept) :
    parts.foldl (push false) (kept ++ base) = parts.foldl (push false) kept ++ base := by
  induction parts generalizing kept with
  | nil => rfl
  | cons part rest ih =>
    have hstep : up ∉ push false kept part := fun hmem => h (up_mem_foldl_push hmem rest)
    have hpush : push false (kept ++ base) part = push false kept part ++ base := by
      unfold push at hstep ⊢
      split
      · rfl
      · rename_i hnamed
        rw [if_neg hnamed] at hstep
        split
        · rename_i hup
          rw [if_pos hup] at hstep
          cases kept with
          | nil => exact absurd (List.mem_singleton_self _) hstep
          | cons last more =>
            dsimp only [List.cons_append] at hstep ⊢
            split
            · rename_i hlast
              rw [if_pos hlast] at hstep
              exact absurd (List.mem_cons_self ..) hstep
            · rfl
        · rfl
    rw [List.foldl_cons, List.foldl_cons, hpush]
    exact ih h

/-- A path that starts at the root of the file system has slashes there. -/
theorem rootSlashes_of_isAbsolute {path : String} (h : IsAbsolute path) :
    rootSlashes (slashed path) ≠ 0 := by
  obtain ⟨rest, hrest⟩ := List.head?_eq_some_iff.mp h
  have hslashed : slashed path = '/' :: rest.map fun c => if c = '\\' then '/' else c := by
    rw [slashed, hrest]
    rfl
  rw [hslashed]
  unfold rootSlashes
  split <;> simp_all

/-- A path from nowhere stays. -/
theorem join_empty (path : String) : join "" path = path := by
  have hempty : ("".isEmpty || decide ("".toList.getLast? = some '/')) = true := rfl
  rw [join, if_pos hempty, String.empty_append, ite_self]

section Directory

variable {names : List (List Char)} (h : AreNames names)

include h

/-- The names of a directory stand before the paths in it. -/
theorem slashed_opening_ofNames (hne : names ≠ []) :
    slashed (opening (ofNames names)) = joinWith '/' names ++ ['/'] := by
  have hempty : (ofNames names).isEmpty = false := by
    rw [String.isEmpty_eq_false_iff]
    exact fun heq => hne ((ofNames_eq_empty_iff h).mp heq)
  have hlast : (ofNames names).toList.getLast? ≠ some '/' := by
    rw [toList_ofNames]
    intro heq
    exact absurd (getLast?_joinWith h '/' heq) (by decide)
  rw [opening, if_neg (by simp [hempty, hlast]), slashed_append, slashed_ofNames h]
  rfl

/-- The names of a directory are kept before a path is read from it. -/
theorem foldl_push_opening :
    (splitAt '/' (slashed (opening (ofNames names)))).foldl (push false) [] = names.reverse := by
  by_cases hne : names = []
  · rw [hne]
    rfl
  · rw [slashed_opening_ofNames h hne, splitAt_append_cons, List.foldl_append,
      (h.kept_reverse false).foldl_push_splitAt]
    rfl

/-- A path that is read from a directory with names is relative. -/
theorem rootSlashes_join_ofNames (hne : names ≠ []) {path : String} (hpath : ¬ IsAbsolute path) :
    rootSlashes (slashed (join (ofNames names) path)) = 0 := by
  have hhead : (joinWith '/' names ++ ['/'] ++ slashed path).head? ≠ some '/' := by
    have hjoin := head?_ofNames h
    cases hchars : joinWith '/' names with
    | nil => exact absurd ((ofNames_eq_empty_iff h).mp (String.ofList_eq_empty_iff.mpr hchars)) hne
    | cons c rest =>
      rw [hchars] at hjoin
      exact hjoin
  rw [join_eq_append hpath, slashed_append, slashed_opening_ofNames h hne]
  exact rootSlashes_replicate (Nat.zero_le 2) hhead

/-- The parts of a path are pushed on the names of the directory that it is read from. -/
theorem route_join_ofNames {path : String} (hpath : ¬ IsAbsolute path)
    (hroot : rootSlashes (slashed (join (ofNames names) path)) = 0) :
    route (join (ofNames names) path) =
      ((splitAt '/' (slashed path)).foldl (push false) names.reverse).reverse := by
  rw [route, normalParts, hroot, join_eq_append hpath, slashed_append,
    foldl_push_splitAt_append (slashed_opening _)]
  exact congrArg (fun kept => ((splitAt '/' (slashed path)).foldl (push false) kept).reverse)
    (foldl_push_opening h)

end Directory

/-- A path that stays inside the directory above leads from a directory that is put below
others to the same point below them. -/
theorem normalize_join_append {above names reached : List (List Char)} (habove : AreNames above)
    (hnames : AreNames names) (hreached : AreNames reached) {path : String}
    (h : normalize (join (ofNames names) path) = ofNames reached) :
    normalize (join (ofNames (above ++ names)) path) = ofNames (above ++ reached) := by
  by_cases hnil : above ++ names = []
  · obtain ⟨rfl, rfl⟩ := List.append_eq_nil_iff.mp hnil
    exact h
  · rw [← normalize_ofNames hreached, normalize_eq_iff, rootSlashes_ofNames hreached,
      route_ofNames hreached] at h
    obtain ⟨hroot, hroute⟩ := h
    have hpath : ¬ IsAbsolute path := by
      intro habsolute
      have hjoin : join (ofNames names) path = path := if_pos habsolute
      rw [hjoin] at hroot
      exact rootSlashes_of_isAbsolute habsolute hroot
    rw [route_join_ofNames hnames hpath hroot] at hroute
    have hinside : up ∉ (splitAt '/' (slashed path)).foldl (push false) names.reverse := by
      intro hmem
      rw [← List.mem_reverse, hroute] at hmem
      exact (hreached up hmem).1.2.2 rfl
    have hboth := habove.append hnames
    have hmoved := habove.append hreached
    have hroot' := rootSlashes_join_ofNames hboth hnil hpath
    rw [← normalize_ofNames hmoved, normalize_eq_iff, hroot', rootSlashes_ofNames hmoved,
      route_ofNames hmoved, route_join_ofNames hboth hpath hroot', List.reverse_append,
      foldl_push_append hinside, List.reverse_append, List.reverse_reverse, hroute]
    exact ⟨rfl, rfl⟩

/-! ### The way from a directory to a point -/

/-- The parts of a point as seen from a directory, both given by their names. -/
def partsBetween (directory names : List (List Char)) : List (Option String) :=
  let (back, forth) := dropCommon (directory.map fun name => some (String.ofList name))
    (names.map fun name => some (String.ofList name))
  List.replicate back.length (some "..") ++ forth

/-- A common beginning is dropped. -/
theorem dropCommon_append {α : Type} [DecidableEq α] (common first second : List α) :
    dropCommon (common ++ first) (common ++ second) = dropCommon first second := by
  induction common with
  | nil => rfl
  | cons a rest ih =>
    rw [List.cons_append, List.cons_append, dropCommon, if_pos rfl, ih]

/-- Names that a directory and a point have in common do not show between them. -/
theorem partsBetween_append (above directory names : List (List Char)) :
    partsBetween (above ++ directory) (above ++ names) = partsBetween directory names := by
  simp only [partsBetween, List.map_append, dropCommon_append]

/-- The way from one directory to a point is that between their names. -/
theorem partsFrom_ofNames {directory names : List (List Char)} (hdirectory : AreNames directory)
    (hnames : AreNames names) (levels : Nat) :
    partsFrom levels (ofNames directory) (ofNames names) = partsBetween directory names := by
  simp only [partsFrom, namesFromRoot_ofNames hdirectory, namesFromRoot_ofNames hnames,
    dropCommon_append, partsBetween]

/-- A point is seen as it is from the directory of all points. -/
theorem partsBetween_nil (names : List (List Char)) :
    partsBetween [] names = names.map fun name => some (String.ofList name) := rfl

end ApiTypes.Point
