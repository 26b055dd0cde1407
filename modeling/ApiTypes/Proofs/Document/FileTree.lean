import ApiTypes.Document.FileTree
import ApiTypes.Proofs.Document.Point
import Mathlib.Data.Finset.Prod

/-!
# Where documents are

A point leads some levels up from the directory of the entry document, and then down.
Where it ends is known when a document is read there: at one of the known files. If no
path of these starts at the root of the file system, two points lead to the same file
only if they go up unequally far and not both beyond the directories that are written
in the path of the entry document. So there are few points under which a file can be
read.
-/

namespace ApiTypes

open Text

namespace Point

variable {rooted : Bool} {kept : List (List Char)}

/-- Every kept part is one that a path can have as a name. -/
theorem Kept.isName (h : Kept rooted kept) : ∀ part ∈ kept, part ≠ [] ∧ part ≠ ['.'] := by
  induction kept with
  | nil => nofun
  | cons first rest ih =>
    intro part hmem
    rcases List.mem_cons.mp hmem with rfl | hmem
    · exact ⟨h.1.1, h.1.2.1⟩
    · exact ih h.2.2 part hmem

/-- What is kept of a relative path goes down from some level above. -/
theorem Kept.exists_levels (h : Kept false kept) :
    ∃ down levels, kept = down ++ List.replicate levels up ∧ up ∉ down := by
  induction kept with
  | nil => exact ⟨[], 0, rfl, nofun⟩
  | cons part rest ih =>
    obtain ⟨down, levels, rfl, hdown⟩ := ih h.2.2
    by_cases hup : part = up
    · have hrest := (h.2.1 hup).2
      have hnil : down = [] := List.eq_nil_iff_forall_not_mem.mpr fun other hmem =>
        hdown (hrest other (List.mem_append_left _ hmem) ▸ hmem)
      exact ⟨[], levels + 1, by rw [hup, hnil]; rfl, nofun⟩
    · refine ⟨part :: down, levels, rfl, fun hmem => ?_⟩
      rcases List.mem_cons.mp hmem with heq | hmem
      · exact hup heq.symm
      · exact hdown hmem

/-- Going up takes back what was gone down, and then goes on. -/
theorem foldl_push_ups {down : List (List Char)} (hdown : up ∉ down) (above levels : Nat) :
    (List.replicate levels up).foldl (push false) (down ++ List.replicate above up) =
      down.drop levels ++ List.replicate (above + (levels - down.length)) up := by
  induction levels generalizing down above with
  | zero => simp
  | succ levels ih =>
    rw [List.replicate_succ, List.foldl_cons]
    cases down with
    | nil =>
      have hpush : push false ([] ++ List.replicate above up) up =
          [] ++ List.replicate (above + 1) up := by
        cases above <;> rfl
      rw [hpush, ih hdown]
      simp only [List.drop_nil, List.length_nil, List.nil_append]
      congr 1
      omega
    | cons name rest =>
      have hname : name ≠ up := fun heq => hdown (heq ▸ List.mem_cons_self ..)
      have hpush : push false (name :: rest ++ List.replicate above up) up =
          rest ++ List.replicate above up := by
        rw [List.cons_append, push, if_neg (by decide), if_pos rfl]
        exact if_neg hname
      rw [hpush, ih fun hmem => hdown (List.mem_cons_of_mem _ hmem), List.drop_succ_cons,
        List.length_cons, Nat.add_sub_add_right]

/-- Going down adds names. -/
theorem foldl_push_down {down : List (List Char)} (hnames : ∀ part ∈ down, part ≠ [] ∧ part ≠ ['.'])
    (hdown : up ∉ down) (above : List (List Char)) :
    down.reverse.foldl (push rooted) above = down ++ above := by
  induction down with
  | nil => rfl
  | cons name rest ih =>
    obtain ⟨hname, hrest⟩ := List.forall_mem_cons.mp hnames
    have hup : name ≠ up := fun heq => hdown (heq ▸ List.mem_cons_self ..)
    rw [List.reverse_cons, List.foldl_append,
      ih hrest fun hmem => hdown (List.mem_cons_of_mem _ hmem),
      List.foldl_cons, List.foldl_nil, push.eq_def, if_neg (not_or.mpr hname), if_neg hup,
      List.cons_append]

/-- A part adds at most one kept part. -/
theorem length_foldl_push_le (kept parts : List (List Char)) :
    (parts.foldl (push rooted) kept).length ≤ kept.length + parts.length := by
  induction parts generalizing kept with
  | nil => exact Nat.le_refl _
  | cons part rest ih =>
    have hpush : (push rooted kept part).length ≤ kept.length + 1 := by
      unfold push
      split
      · exact Nat.le_succ _
      · split
        · split
          · split <;> simp
          · split
            · exact Nat.le_refl _
            · simp only [List.length_cons]
              omega
        · exact Nat.le_refl _
    have hrest := ih (push rooted kept part)
    rw [List.foldl_cons, List.length_cons]
    omega

/-- How many levels a path goes up before it goes down. -/
def levels (parts : List (List Char)) : Nat := (parts.takeWhile (· = up)).length

theorem levels_replicate_append {down : List (List Char)} (hdown : up ∉ down) (n : Nat) :
    levels (List.replicate n up ++ down) = n := by
  have hall : ∀ part ∈ List.replicate n up, decide (part = up) = true := fun part hmem =>
    decide_eq_true (List.eq_of_mem_replicate hmem)
  have hnone : down.takeWhile (fun part => decide (part = up)) = [] := by
    cases down with
    | nil => rfl
    | cons part rest =>
      have hpart : part ≠ up := fun heq => hdown (heq ▸ List.mem_cons_self ..)
      rw [List.takeWhile_cons_of_neg (by simpa using hpart)]
  rw [levels, List.takeWhile_append_of_pos hall, hnone, List.append_nil, List.length_replicate]

/-- Two paths that lead from one place to the same place are the same if they go up
equally far, or both at least as far as the place goes down. -/
theorem Kept.eq_of_foldl_push_eq {place parts parts' : List (List Char)} {bound : Nat}
    (hplace : Kept false place) (hparts : Kept false parts.reverse)
    (hparts' : Kept false parts'.reverse)
    (heq : parts.foldl (Point.push false) place = parts'.foldl (Point.push false) place)
    (hbound : place.length ≤ bound)
    (hlevels : min (levels parts) bound = min (levels parts') bound) :
    parts = parts' := by
  obtain ⟨below, above, rfl, hbelow⟩ := hplace.exists_levels
  -- A path that may be kept goes up first; where it leads can be written down.
  have hleads : ∀ parts : List (List Char), Kept false parts.reverse →
      ∃ down n, parts = List.replicate n up ++ down.reverse ∧ up ∉ down ∧ levels parts = n ∧
        parts.foldl (Point.push false) (below ++ List.replicate above up) =
          down ++ (below.drop n ++ List.replicate (above + (n - below.length)) up) := by
    intro parts hkept
    obtain ⟨down, n, hreverse, hdown⟩ := hkept.exists_levels
    have hparts : parts = List.replicate n up ++ down.reverse := by
      rw [← List.reverse_reverse parts, hreverse, List.reverse_append, List.reverse_replicate]
    refine ⟨down, n, hparts, hdown, ?_, ?_⟩
    · rw [hparts, levels_replicate_append]
      exact fun hmem => hdown (List.mem_reverse.mp hmem)
    · have hnames : ∀ part ∈ down, part ≠ [] ∧ part ≠ ['.'] := fun part hmem =>
        hkept.isName part (hreverse ▸ List.mem_append_left _ hmem)
      rw [hparts, List.foldl_append, foldl_push_ups hbelow, foldl_push_down hnames hdown]
  obtain ⟨down, n, rfl, hdown, hn, hfold⟩ := hleads parts hparts
  obtain ⟨down', n', rfl, hdown', hn', hfold'⟩ := hleads parts' hparts'
  rw [hfold, hfold'] at heq
  rw [hn, hn'] at hlevels
  rw [List.length_append, List.length_replicate] at hbound
  have hups : ∀ names : List (List Char), up ∉ names → ∀ n,
      (names ++ (below.drop n ++ List.replicate (above + (n - below.length)) up)).count up =
        above + (n - below.length) := by
    intro names hnames n
    rw [List.count_append, List.count_append, List.count_eq_zero_of_not_mem hnames,
      List.count_eq_zero_of_not_mem fun hmem => hbelow ((List.drop_sublist n below).subset hmem),
      List.count_replicate_self]
    omega
  have hcount := congrArg (List.count up) heq
  rw [hups down hdown, hups down' hdown'] at hcount
  obtain rfl : n = n' := by omega
  rw [List.append_cancel_right heq]

end Point

namespace FileTree

variable {tree : FileTree} {rooted : Bool}

/-- Where a path leads, by the names on the way there, the last one first. -/
def place (path : String) : List (List Char) :=
  (names path).foldl (Point.push (isRooted path)) []

theorem kept_place (path : String) : Point.Kept (isRooted path) (place path) := by
  have hempty : Point.Kept (isRooted path) [] := trivial
  exact hempty.foldl fun part hmem => not_mem_of_mem_splitAt (List.mem_filter.mp hmem).1

/-- Names that may be kept are those on the path that they make. -/
theorem names_pathTo {place : List (List Char)} (h : Point.Kept rooted place) :
    names (pathTo rooted place) = place.reverse := by
  have hfilter : (place.reverse).filter (fun name => name != [] && name != ['.']) =
      place.reverse := by
    rw [List.filter_eq_self]
    intro name hmem
    obtain ⟨hne, hdot⟩ := h.isName name (List.mem_reverse.mp hmem)
    simp [hne, hdot]
  have hjoined : (splitAt '/' (joinWith '/' place.reverse)).filter
      (fun name => name != [] && name != ['.']) = place.reverse := by
    by_cases hempty : place = []
    · rw [hempty]
      rfl
    · rw [splitAt_joinWith (by simpa using hempty) fun name hmem =>
        (h.named name (List.mem_reverse.mp hmem)).2, hfilter]
  rw [names, pathTo, String.toList_ofList]
  cases rooted with
  | false => exact hjoined
  | true => exact hjoined

theorem isRooted_pathTo {place : List (List Char)} (h : Point.Kept rooted place) :
    isRooted (pathTo rooted place) = rooted := by
  rw [isRooted, pathTo, String.toList_ofList]
  cases rooted with
  | false =>
    have hkept : Point.Kept false place.reverse.reverse := by rwa [List.reverse_reverse]
    simpa using hkept.head?_joinWith
  | true => rfl

/-- The shortest path to a place leads there. -/
theorem place_pathTo {place : List (List Char)} (h : Point.Kept rooted place) :
    FileTree.place (pathTo rooted place) = place := by
  rw [FileTree.place, isRooted_pathTo h, names_pathTo h, h.foldl_eq]

/-- Paths with the same shortest path to where they lead lead to the same place. -/
theorem place_eq_of_normal_eq {path other : String} (h : normal path = normal other) :
    isRooted path = isRooted other ∧ place path = place other := by
  have hrooted := congrArg isRooted h
  have hplace := congrArg place h
  change isRooted (pathTo _ (place path)) = isRooted (pathTo _ (place other)) at hrooted
  change place (pathTo _ (place path)) = place (pathTo _ (place other)) at hplace
  rw [isRooted_pathTo (kept_place path), isRooted_pathTo (kept_place other)] at hrooted
  rw [place_pathTo (kept_place path), place_pathTo (kept_place other)] at hplace
  exact ⟨hrooted, hplace⟩

/-- What is at the end of names is what is at the place that they lead to. -/
theorem entryAt_of_follow {names place : List (List Char)} {text : String}
    (h : tree.follow rooted place names = .file text) :
    tree.entryAt rooted (names.foldl (Point.push rooted) place) = .file text := by
  induction names generalizing place with
  | nil => exact h
  | cons name rest ih =>
    rw [follow] at h
    split at h
    · split at h
      · cases h
      · exact ih h
    · cases h

/-- A text that is read is that of a known file whose path leads to the same place. -/
theorem exists_file_of_entry {path text : String} (h : tree.entry path = .file text) :
    ∃ file ∈ tree.files, isRooted file.1 = isRooted path ∧ place file.1 = place path := by
  have hat : tree.entryAt (isRooted path) (place path) = .file text := by
    unfold entry at h
    split at h
    · cases h
    · split at h
      · cases h
      · exact entryAt_of_follow h
  unfold entryAt at hat
  split at hat
  · cases hat
  · dsimp only at hat
    split at hat
    · rename_i found htext
      obtain ⟨file, hfile, _⟩ := Option.map_eq_some_iff.mp htext
      have hnormal : normal file.1 = normal (pathTo (isRooted path) (place path)) := by
        simpa using List.find?_some hfile
      obtain ⟨hrooted, hplace⟩ := place_eq_of_normal_eq hnormal
      rw [isRooted_pathTo (kept_place path)] at hrooted
      rw [place_pathTo (kept_place path)] at hplace
      exact ⟨file, List.mem_of_find?_eq_some hfile, hrooted, hplace⟩
    · split at hat <;> cases hat

/-- The names on a path that is read from a directory are those on the way to the
directory and those on the path. -/
theorem names_join {directory path : String} (h : isRooted path = false) :
    names (Point.join directory path) = names directory ++ names path := by
  have hhead : ¬ path.toList.head? = some '/' := by simpa [isRooted] using h
  have hslash (before : List Char) : (splitAt '/' (before ++ '/' :: path.toList)).filter
      (fun name => name != [] && name != ['.']) = (splitAt '/' before).filter
        (fun name => name != [] && name != ['.']) ++ names path := by
    rw [splitAt_append_cons, List.filter_append, names]
  rw [Point.join, if_neg hhead]
  split
  · rename_i hends
    rcases Bool.or_eq_true_iff.mp hends with hempty | hlast
    · have hnil : directory = "" := by simpa using hempty
      rw [hnil, String.empty_append]
      rfl
    · obtain ⟨before, hbefore⟩ := List.getLast?_eq_some_iff.mp (of_decide_eq_true hlast)
      rw [names, names, String.toList_append, hbefore, List.append_assoc, List.singleton_append,
        hslash, splitAt_append_cons, List.filter_append]
      simp [splitAt]
  · rw [names, String.toList_append, String.toList_append, List.append_assoc]
    exact hslash _

theorem isRooted_of_join {directory path : String}
    (h : isRooted (Point.join directory path) = false) : isRooted path = false := by
  by_contra hrooted
  have hhead : path.toList.head? = some '/' := by simpa [isRooted] using hrooted
  rw [Point.join, if_pos hhead] at h
  exact hrooted h

/-- No known file has a path that starts at the root of the file system. -/
def IsRelative (tree : FileTree) : Prop := ∀ file ∈ tree.files, isRooted file.1 = false

instance (tree : FileTree) : Decidable tree.IsRelative :=
  inferInstanceAs (Decidable (∀ file ∈ tree.files, isRooted file.1 = false))

/-- A relative path that is the shortest one to where it leads. -/
structure IsShort (path : String) : Prop where
  /-- Its names may be kept. -/
  kept : Point.Kept false (names path).reverse
  /-- There is nothing else in it. -/
  pathTo_eq : pathTo false (names path).reverse = path

theorem IsShort.of_kept {place : List (List Char)} (h : Point.Kept false place) :
    IsShort (pathTo false place) := by
  constructor <;> rw [names_pathTo h, List.reverse_reverse]
  exact h

/-- A point in normal form is short if it is relative. -/
theorem IsShort.normalize {point : String} (h : isRooted (Point.normalize point) = false) :
    IsShort (Point.normalize point) := by
  rw [Point.normalize] at h ⊢
  generalize point.toList.map (fun c => if c = '\\' then '/' else c) = path at h ⊢
  have hroot : Point.rootSlashes path = 0 := by
    by_contra hne
    obtain ⟨n, hn⟩ := Nat.exists_eq_succ_of_ne_zero hne
    rw [isRooted, String.toList_ofList, Point.normalChars, hn] at h
    cases h
  have hkept := Point.kept_normalParts path
  rw [hroot] at hkept
  have hpath : String.ofList (Point.normalChars path) =
      pathTo false (Point.normalParts path).reverse := by
    rw [Point.normalChars, hroot, pathTo, List.reverse_reverse]
    rfl
  rw [hpath]
  exact .of_kept hkept

/-- What is read at a short point is a known file, at the place that the point leads to
from the directory. -/
theorem IsRelative.exists_file (h : tree.IsRelative) {base point text : String}
    (hentry : tree.entry (Point.join base point) = .file text) :
    isRooted point = false ∧ ∃ file ∈ tree.files,
      place file.1 = (names point).foldl (Point.push false)
        ((names base).foldl (Point.push false) []) := by
  obtain ⟨file, hfile, hrooted, hplace⟩ := exists_file_of_entry hentry
  rw [h file hfile] at hrooted
  have hpoint := isRooted_of_join hrooted.symm
  refine ⟨hpoint, file, hfile, ?_⟩
  rw [hplace, place, ← hrooted, names_join hpoint, List.foldl_append]

/-- There are few points under which files can be read from a directory. -/
theorem IsRelative.length_le (h : tree.IsRelative) {base : String} {points : List String}
    (hnodup : points.Nodup) (hread : ∀ point ∈ points, ∃ text,
      tree.entry (Point.join base point) = .file text)
    (hshort : ∀ point ∈ points, isRooted point = false → IsShort point) :
    points.length ≤ tree.files.length * ((names base).length + 1) := by
  let start := (names base).foldl (Point.push false) []
  have hempty : Point.Kept false [] := trivial
  have hstart : Point.Kept false start :=
    hempty.foldl fun part hmem => not_mem_of_mem_splitAt (List.mem_filter.mp hmem).1
  have hlength : start.length ≤ (names base).length :=
    (Point.length_foldl_push_le [] (names base)).trans_eq (Nat.zero_add _)
  -- A point is known by where it leads and how far it goes up within the directory.
  let code (point : String) := ((names point).foldl (Point.push false) start,
    min (Point.levels (names point)) (names base).length)
  let codes := (tree.files.map fun file => place file.1).toFinset ×ˢ
    Finset.range ((names base).length + 1)
  have hmaps : ∀ point ∈ points.toFinset, code point ∈ codes := by
    intro point hmem
    obtain ⟨text, hentry⟩ := hread point (List.mem_toFinset.mp hmem)
    obtain ⟨_, file, hfile, hplace⟩ := h.exists_file hentry
    refine Finset.mem_product.mpr ⟨?_, ?_⟩
    · exact List.mem_toFinset.mpr (List.mem_map.mpr ⟨file, hfile, hplace⟩)
    · exact Finset.mem_range.mpr (Nat.lt_succ_of_le (Nat.min_le_right _ _))
  have hinjective : Set.InjOn code points.toFinset := by
    intro point hmem other hother hcode
    have hshortPoint : ∀ point ∈ points, IsShort point := fun point hmem => by
      obtain ⟨text, hentry⟩ := hread point hmem
      exact hshort point hmem (h.exists_file hentry).1
    have hp := hshortPoint point (by simpa using hmem)
    have ho := hshortPoint other (by simpa using hother)
    obtain ⟨hfold, hlevels⟩ := Prod.mk.inj hcode
    have hnames := hstart.eq_of_foldl_push_eq hp.kept ho.kept hfold hlength hlevels
    rw [← hp.pathTo_eq, ← ho.pathTo_eq, hnames]
  calc points.length
    _ = points.toFinset.card := (List.toFinset_card_of_nodup hnodup).symm
    _ ≤ codes.card := Finset.card_le_card_of_injOn code hmaps hinjective
    _ = (tree.files.map fun file => place file.1).toFinset.card *
        ((names base).length + 1) := by rw [Finset.card_product, Finset.card_range]
    _ ≤ tree.files.length * ((names base).length + 1) :=
      Nat.mul_le_mul_right _ ((List.toFinset_card_le _).trans_eq (List.length_map _))

end FileTree

end ApiTypes
