import ApiTypes.Proofs.Document.Reachable

/-!
# Points that lead to one file

Points are kept relative to the directory of the entry document, and their normal form
is a matter of their text. The names of that directory are not looked at. So one
file has several points: a point can go up out of the directory and come down again
through its names, or write out the whole path. Apart from these two ways different
points of a loaded graph lead to different files.
-/

namespace ApiTypes

open Text

namespace Point

/-- Slashes at the end of a start do not matter for those at the start. -/
theorem rootSlashes_append {start rest : List Char}
    (hstart : start = [] ∨ ∃ before, start = before ++ ['/']) (hrest : rest.head? ≠ some '/') :
    rootSlashes (start ++ rest) = rootSlashes start := by
  have hnone : rootSlashes rest = 0 := by
    have hzero := rootSlashes_replicate (Nat.zero_le 2) hrest
    rwa [List.replicate_zero, List.nil_append] at hzero
  rcases hstart with rfl | ⟨before, rfl⟩
  · exact hnone
  · -- Only the first three characters count.
    rcases before with _ | ⟨first, _ | ⟨second, _ | ⟨third, more⟩⟩⟩
    · cases rest <;> simp_all [rootSlashes]
    · by_cases hfirst : first = '/' <;> cases rest <;> simp_all [rootSlashes]
    · by_cases hfirst : first = '/' <;> by_cases hsecond : second = '/' <;>
        simp_all [rootSlashes]
    · by_cases hfirst : first = '/' <;> by_cases hsecond : second = '/' <;>
        by_cases hthird : third = '/' <;> simp_all [rootSlashes]

/-- Parts after a start are added to those of the start. -/
theorem foldl_push_splitAt_append {rooted : Bool} {start rest : List Char}
    (hstart : start = [] ∨ ∃ before, start = before ++ ['/']) :
    (splitAt '/' (start ++ rest)).foldl (push rooted) [] =
      (splitAt '/' rest).foldl (push rooted) ((splitAt '/' start).foldl (push rooted) []) := by
  rcases hstart with rfl | ⟨before, rfl⟩
  · rfl
  · rw [List.append_assoc, List.singleton_append, splitAt_append_cons, splitAt_append_cons,
      List.foldl_append, List.foldl_append]
    rfl

/-- Backslashes are replaced in both parts of a path. -/
theorem slashed_append (path rest : String) :
    slashed (path ++ rest) = slashed path ++ slashed rest := by
  rw [slashed, String.toList_append, List.map_append]
  rfl

/-- The parts of a path in normal form. -/
def route (path : String) : List (List Char) := normalParts (slashed path)

/-- How many levels a path goes up. -/
def climb (path : String) : Nat := levels (route path)

/-- The names through which a path goes down when it has gone up. -/
def descent (path : String) : List (List Char) := (route path).drop (climb path)

/-- Paths have one normal form when they start with as many slashes and have the same
parts. -/
theorem normalize_eq_iff {path other : String} :
    normalize path = normalize other ↔
      rootSlashes (slashed path) = rootSlashes (slashed other) ∧ route path = route other :=
  String.ofList_inj.trans normalChars_eq_iff

/-- A path that starts at the root of the file system. -/
abbrev IsAbsolute (path : String) : Prop := path.toList.head? = some '/'

/-- A path that does not start with a slash goes up first, and then down. -/
theorem route_eq_append {path : String} (hroot : rootSlashes (slashed path) = 0) :
    route path = List.replicate (climb path) up ++ descent path ∧ up ∉ descent path ∧
      ∀ part ∈ descent path, part ≠ [] ∧ part ≠ ['.'] := by
  have hkept := kept_normalParts (slashed path)
  rw [hroot] at hkept
  change Kept false (route path).reverse at hkept
  obtain ⟨down, n, hreverse, hdown⟩ := hkept.exists_levels
  have hroute : route path = List.replicate n up ++ down.reverse := by
    rw [← List.reverse_reverse (route path), hreverse, List.reverse_append, List.reverse_replicate]
  have hup : up ∉ down.reverse := fun hmem => hdown (List.mem_reverse.mp hmem)
  have hclimb : climb path = n := by rw [climb, hroute, levels_replicate_append hup]
  have hdescent : descent path = down.reverse := by
    rw [descent, hclimb, hroute, List.drop_left' (List.length_replicate)]
  rw [hclimb, hdescent]
  refine ⟨hroute, hup, fun part hmem => hkept.isName part ?_⟩
  rw [hreverse]
  exact List.mem_append_left _ (List.mem_reverse.mp hmem)

section Relative

variable {point : String} (hnormal : normalize point = point) (hrelative : ¬ IsAbsolute point)

include hnormal hrelative

/-- A point that is not absolute has no slashes in front. -/
theorem rootSlashes_of_relative : rootSlashes (slashed point) = 0 := by
  have hslashed := slashed_normalize point
  have hzero := rootSlashes_replicate (Nat.zero_le 2) hrelative
  rw [hnormal] at hslashed
  rwa [hslashed]

/-- A relative point in normal form is made of its parts. -/
theorem toList_of_relative : point.toList = joinWith '/' (route point) := by
  have hchars := congrArg String.toList hnormal
  rw [normalize, String.toList_ofList] at hchars
  change normalChars (slashed point) = _ at hchars
  rw [← hchars, normalChars, rootSlashes_of_relative hnormal hrelative]
  rfl

end Relative

/-- A directory as it is written before the paths in it. -/
def opening (directory : String) : String :=
  if directory.isEmpty || directory.toList.getLast? = some '/' then directory else directory ++ "/"

/-- A directory before the paths in it is nothing or ends with a slash. -/
theorem slashed_opening (directory : String) :
    slashed (opening directory) = [] ∨ ∃ before, slashed (opening directory) = before ++ ['/'] := by
  unfold opening
  split
  · rename_i hends
    rcases Bool.or_eq_true_iff.mp hends with hempty | hlast
    · have hnil : directory = "" := by simpa using hempty
      rw [hnil]
      exact Or.inl rfl
    · obtain ⟨before, hbefore⟩ := List.getLast?_eq_some_iff.mp (of_decide_eq_true hlast)
      refine Or.inr ⟨before.map fun c => if c = '\\' then '/' else c, ?_⟩
      rw [slashed, hbefore, List.map_append]
      rfl
  · exact Or.inr ⟨slashed directory, slashed_append directory "/"⟩

/-- Whether the names of a directory are counted from the root of the file system. -/
def isRootedAt (directory : String) : Bool := rootSlashes (slashed (opening directory)) != 0

/-- The directory in which a point turns: where it leads by going up only. Its names are
counted from the last one on. -/
def turn (directory point : String) : List (List Char) :=
  (List.replicate (climb point) up).foldl (push (isRootedAt directory))
    (route (opening directory)).reverse

/-- A path that is read from a directory stands behind it. -/
theorem join_eq_append {path : String} (hrelative : ¬ IsAbsolute path) (directory : String) :
    join directory path = opening directory ++ path := by
  rw [join, if_neg hrelative, opening]
  split <;> rfl

section Joined

variable {point : String} (hnormal : normalize point = point) (hrelative : ¬ IsAbsolute point)
  (directory : String)

include hnormal hrelative

/-- A path that is read from a directory is rooted like the directory. -/
theorem rootSlashes_join :
    rootSlashes (slashed (join directory point)) = rootSlashes (slashed (opening directory)) := by
  have hslashed := slashed_normalize point
  rw [hnormal] at hslashed
  rw [join_eq_append hrelative, slashed_append, hslashed]
  exact rootSlashes_append (slashed_opening directory) hrelative

/-- A path that is read from a directory leads to the directory in which it turns, and
down from there. -/
theorem route_join :
    route (join directory point) = (turn directory point).reverse ++ descent point := by
  obtain ⟨hroute, hup, hnames⟩ := route_eq_append (rootSlashes_of_relative hnormal hrelative)
  have hslashed := slashed_normalize point
  rw [hnormal] at hslashed
  have hroot := rootSlashes_join hnormal hrelative directory
  have happend : slashed (join directory point) = slashed (opening directory) ++ point.toList := by
    rw [join_eq_append hrelative, slashed_append, hslashed]
  -- The parts of the point are pushed on those of the directory one after another.
  have hparts (kept : List (List Char)) :
      (splitAt '/' point.toList).foldl (push (isRootedAt directory)) kept =
        (route point).foldl (push (isRootedAt directory)) kept := by
    rw [toList_of_relative hnormal hrelative]
    by_cases hempty : route point = []
    · rw [hempty]
      rfl
    · rw [splitAt_joinWith hempty fun part hmem => ?_]
      exact ((kept_normalParts (slashed point)).named part (List.mem_reverse.mpr hmem)).2
  have hdown : up ∉ (descent point).reverse := fun hmem => hup (List.mem_reverse.mp hmem)
  have hfold : (descent point).reverse.reverse.foldl (push (isRootedAt directory))
      (turn directory point) = (descent point).reverse ++ turn directory point :=
    foldl_push_down (fun part hmem => hnames part (List.mem_reverse.mp hmem)) hdown _
  rw [List.reverse_reverse] at hfold
  rw [route, normalParts, hroot, happend, foldl_push_splitAt_append (slashed_opening directory)]
  change ((splitAt '/' point.toList).foldl (push (isRootedAt directory)) _).reverse = _
  rw [hparts, hroute, List.foldl_append]
  have hstart : (splitAt '/' (slashed (opening directory))).foldl
      (push (rootSlashes (slashed (opening directory)) != 0)) [] =
        (route (opening directory)).reverse := by
    rw [route, normalParts, List.reverse_reverse]
  rw [hstart]
  change ((descent point).foldl (push (isRootedAt directory)) (turn directory point)).reverse = _
  rw [hfold, List.reverse_append, List.reverse_reverse]

end Joined

/-- How a point leads from a directory to where another one leads, by a way of its own. -/
inductive Meets (directory point other : String) : Prop
  /-- It goes up to a directory above and comes back down, through the names on the way,
  to the directory in which the other point turns, and goes on like that one. -/
  | returns (hpoint : ¬ IsAbsolute point) (hother : ¬ IsAbsolute other)
    (names : List (List Char))
    (hturn : turn directory other = names.reverse ++ turn directory point)
    (hdescent : descent point = names ++ descent other) : Meets directory point other
  /-- It writes out the whole path to which the other point leads. -/
  | spells (hpoint : IsAbsolute point) (hother : ¬ IsAbsolute other)
    (hroot : rootSlashes (slashed point) = rootSlashes (slashed (opening directory)))
    (hroute : route point = (turn directory other).reverse ++ descent other) :
    Meets directory point other

/-- A point that stays inside the directory that it is read from. -/
structure StaysInside (point : String) : Prop where
  /-- It does not start at the root of the file system. -/
  relative : ¬ IsAbsolute point
  /-- It does not go up. -/
  climb_eq : climb point = 0

instance (point : String) : Decidable (StaysInside point) :=
  decidable_of_iff (¬ IsAbsolute point ∧ climb point = 0)
    ⟨fun h => ⟨h.1, h.2⟩, fun h => ⟨h.relative, h.climb_eq⟩⟩

variable {directory point other : String}

/-- Relative points lead to one place when they go down to it from where they turn. -/
theorem normalize_join_eq_iff_of_relative (hnormal : normalize point = point)
    (hpoint : ¬ IsAbsolute point) (hnormal' : normalize other = other)
    (hother : ¬ IsAbsolute other) :
    normalize (join directory point) = normalize (join directory other) ↔
      (turn directory point).reverse ++ descent point =
        (turn directory other).reverse ++ descent other := by
  rw [normalize_eq_iff, rootSlashes_join hnormal hpoint, rootSlashes_join hnormal' hother,
    route_join hnormal hpoint, route_join hnormal' hother]
  exact and_iff_right rfl

/-- An absolute point leads to where a relative one does when it spells that out. -/
theorem normalize_join_eq_iff_of_absolute (hpoint : IsAbsolute point)
    (hnormal : normalize other = other) (hother : ¬ IsAbsolute other) :
    normalize (join directory point) = normalize (join directory other) ↔
      rootSlashes (slashed point) = rootSlashes (slashed (opening directory)) ∧
        route point = (turn directory other).reverse ++ descent other := by
  have hjoin : join directory point = point := if_pos hpoint
  rw [normalize_eq_iff, rootSlashes_join hnormal hother, route_join hnormal hother, hjoin]

/-- A way of its own leads to where the other point leads. -/
theorem Meets.normalize_join_eq (h : Meets directory point other)
    (hnormal : normalize point = point) (hnormal' : normalize other = other) :
    normalize (join directory point) = normalize (join directory other) := by
  cases h with
  | returns hpoint hother names hturn hdescent =>
    rw [normalize_join_eq_iff_of_relative hnormal hpoint hnormal' hother, hturn, hdescent,
      List.reverse_append, List.reverse_reverse, List.append_assoc]
  | spells hpoint hother hroot hroute =>
    exact (normalize_join_eq_iff_of_absolute hpoint hnormal' hother).mpr ⟨hroot, hroute⟩

/-- Different points in normal form lead to one place exactly when one of them has a way
of its own to where the other leads. -/
theorem normalize_join_eq_iff (hnormal : normalize point = point)
    (hnormal' : normalize other = other) (hne : point ≠ other) :
    normalize (join directory point) = normalize (join directory other) ↔
      Meets directory point other ∨ Meets directory other point := by
  constructor
  · intro heq
    by_cases hpoint : IsAbsolute point
    · by_cases hother : IsAbsolute other
      · -- Absolute points stand for themselves.
        have hjoin : join directory point = point := if_pos hpoint
        have hjoin' : join directory other = other := if_pos hother
        rw [hjoin, hjoin', hnormal, hnormal'] at heq
        exact absurd heq hne
      · obtain ⟨hroot, hroute⟩ :=
          (normalize_join_eq_iff_of_absolute hpoint hnormal' hother).mp heq
        exact Or.inl (.spells hpoint hother hroot hroute)
    · by_cases hother : IsAbsolute other
      · obtain ⟨hroot, hroute⟩ :=
          (normalize_join_eq_iff_of_absolute hother hnormal hpoint).mp heq.symm
        exact Or.inr (.spells hother hpoint hroot hroute)
      · -- One of the two turns further up, and goes down to where the other one turns.
        rw [normalize_join_eq_iff_of_relative hnormal hpoint hnormal' hother] at heq
        rcases List.append_eq_append_iff.mp heq with
          ⟨names, hturn, hdescent⟩ | ⟨names, hturn, hdescent⟩
        · refine Or.inl (.returns hpoint hother names ?_ hdescent)
          rw [← List.reverse_inj, hturn, List.reverse_append, List.reverse_reverse]
        · refine Or.inr (.returns hother hpoint names ?_ hdescent)
          rw [← List.reverse_inj, hturn, List.reverse_append, List.reverse_reverse]
  · rintro (h | h)
    · exact h.normalize_join_eq hnormal hnormal'
    · exact (h.normalize_join_eq hnormal' hnormal).symm

/-- Points that stay inside their directory lead to one place only if they are the same. -/
theorem StaysInside.eq (h : StaysInside point) (h' : StaysInside other)
    (hnormal : normalize point = point) (hnormal' : normalize other = other)
    (heq : normalize (join directory point) = normalize (join directory other)) :
    point = other := by
  rw [normalize_join_eq_iff_of_relative hnormal h.relative hnormal' h'.relative, turn, turn,
    h.climb_eq, h'.climb_eq] at heq
  have hdescent : descent point = descent other := List.append_cancel_left heq
  have hroute : route point = route other := by
    rwa [descent, descent, h.climb_eq, h'.climb_eq] at hdescent
  rw [← hnormal, ← hnormal', normalize_eq_iff, rootSlashes_of_relative hnormal h.relative,
    rootSlashes_of_relative hnormal' h'.relative]
  exact ⟨rfl, hroute⟩

end Point

/-- The points of a loaded graph are in normal form. -/
theorem loadGraph_normal {yaml : YamlReader} {tree : FileTree} {entryPath : String}
    {settings : Settings} {graph : Graph} (h : yaml.loadGraph tree entryPath settings = .ok graph)
    {point : String} (hpoint : point ∈ graph.points) : Point.normalize point = point := by
  obtain ⟨documents, directories, _, hgraph⟩ := exists_of_loadGraph_ok h
  exact Graph.normalize_of_mem_points hgraph hpoint

/-- However YAML is read, a loaded graph has one file under two points only where one of these
leaves the directory of the entry document. Read from that directory, different points lead to one
path exactly when one of them goes up out of it and comes back through its own names to
where the other one turns, or writes out the whole path to which the other one leads.
Points that stay inside the directory are points of different files. -/
theorem loadGraph_meets_iff {yaml : YamlReader} {tree : FileTree} {entryPath : String}
    {settings : Settings} {graph : Graph}
    (h : yaml.loadGraph tree entryPath settings = .ok graph) {point other : String}
    (hpoint : point ∈ graph.points) (hother : other ∈ graph.points) (hne : point ≠ other) :
    (Point.normalize (Point.join (splitFile entryPath).1 point) =
        Point.normalize (Point.join (splitFile entryPath).1 other) ↔
      Point.Meets (splitFile entryPath).1 point other ∨
        Point.Meets (splitFile entryPath).1 other point) ∧
    (Point.StaysInside point → Point.StaysInside other →
      Point.normalize (Point.join (splitFile entryPath).1 point) ≠
        Point.normalize (Point.join (splitFile entryPath).1 other)) := by
  have hnormal := loadGraph_normal h hpoint
  have hnormal' := loadGraph_normal h hother
  exact ⟨Point.normalize_join_eq_iff hnormal hnormal' hne,
    fun hinside hinside' heq => hne (hinside.eq hinside' hnormal hnormal' heq)⟩

/-- The text of an entry document with two references to one file and one to another. -/
def sharedTwiceText : String :=
  "- $ref: shared.json#/Pet\n- $ref: ../api/shared.json#/Pet\n- $ref: pets/owner.json\n"

/-- Three files, the entry document among them. -/
def FileTree.sharedTwice : FileTree where
  files := [
    ("api/openapi.yml", sharedTwiceText),
    ("api/shared.json", (Json.obj [("Pet", .obj [("type", .str "string")])]).text),
    ("api/pets/owner.json", (Json.obj []).text)]

/-- What the entry document writes is known. -/
def YamlReader.sharedTwice : YamlReader := .knowing [
  (sharedTwiceText, .arr [
    .obj [("$ref", .str "shared.json#/Pet")],
    .obj [("$ref", .str "../api/shared.json#/Pet")],
    .obj [("$ref", .str "pets/owner.json")]])]

/-- The points under which the files are loaded: one of them has two. -/
theorem sharedTwice_points :
    (YamlReader.sharedTwice.loadGraph .sharedTwice "api/openapi.yml" {}).toOption.map (·.points) =
      some ["openapi.yml", "pets/owner.json", "../api/shared.json", "shared.json"] := by
  decide +kernel

/-- It is not so that different points of a loaded graph always lead to different files. -/
theorem shared_file_loaded_twice :
    ¬ ∀ (yaml : YamlReader) (tree : FileTree) (entryPath : String) (settings : Settings)
        (graph : Graph), yaml.loadGraph tree entryPath settings = .ok graph →
      ∀ point ∈ graph.points, ∀ other ∈ graph.points, point ≠ other →
        Point.normalize (Point.join (splitFile entryPath).1 point) ≠
          Point.normalize (Point.join (splitFile entryPath).1 other) := by
  intro hapart
  have hloaded := sharedTwice_points
  cases hload : YamlReader.sharedTwice.loadGraph .sharedTwice "api/openapi.yml" {} with
  | error failure =>
    rw [hload] at hloaded
    cases hloaded
  | ok graph =>
    rw [hload] at hloaded
    have hpoints : graph.points =
        ["openapi.yml", "pets/owner.json", "../api/shared.json", "shared.json"] :=
      Option.some.inj hloaded
    refine hapart .sharedTwice .sharedTwice "api/openapi.yml" {} graph hload
      "../api/shared.json" ?_ "shared.json" ?_ (by decide) (by decide +kernel)
    · rw [hpoints]
      decide
    · rw [hpoints]
      decide

/-- One file is loaded under two points, one of which goes up and comes back. The file
beside it has another path. -/
theorem sharedTwice_meets :
    ∃ graph, YamlReader.sharedTwice.loadGraph .sharedTwice "api/openapi.yml" {} = .ok graph ∧
      "../api/shared.json" ∈ graph.points ∧ "shared.json" ∈ graph.points ∧
      Point.normalize (Point.join "api" "../api/shared.json") =
        Point.normalize (Point.join "api" "shared.json") ∧
      Point.normalize (Point.join "api" "pets/owner.json") ≠
        Point.normalize (Point.join "api" "shared.json") := by
  have hsplit : splitFile "api/openapi.yml" = ("api", "openapi.yml") := by decide +kernel
  have hloaded := sharedTwice_points
  cases hload : YamlReader.sharedTwice.loadGraph .sharedTwice "api/openapi.yml" {} with
  | error failure =>
    rw [hload] at hloaded
    cases hloaded
  | ok graph =>
    rw [hload] at hloaded
    have hpoints : graph.points =
        ["openapi.yml", "pets/owner.json", "../api/shared.json", "shared.json"] :=
      Option.some.inj hloaded
    have hreturning : "../api/shared.json" ∈ graph.points := by rw [hpoints]; decide
    have hshared : "shared.json" ∈ graph.points := by rw [hpoints]; decide
    have howner : "pets/owner.json" ∈ graph.points := by rw [hpoints]; decide
    have hmeets : Point.Meets "api" "../api/shared.json" "shared.json" :=
      .returns (by decide) (by decide) ["api".toList] (by decide +kernel) (by decide +kernel)
    have hsame := (loadGraph_meets_iff hload hreturning hshared (by decide)).1
    have hapart := (loadGraph_meets_iff hload howner hshared (by decide)).2
    rw [hsplit] at hsame hapart
    exact ⟨graph, rfl, hreturning, hshared, hsame.mpr (Or.inl hmeets),
      hapart (by decide +kernel) (by decide +kernel)⟩

end ApiTypes
