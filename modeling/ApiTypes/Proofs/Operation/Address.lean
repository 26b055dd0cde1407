import Mathlib.Data.List.Chain
import Mathlib.Data.List.Infix
import ApiTypes.Operation.Address

/-!
# Address templates are exact

A request path is read from left to right. Where placeholders start, the one that was declared
first is a parameter, and everything between parameters is literal text. Nothing is lost or
doubled on the way, and no placeholder is hidden in the literal text: one that overlaps a
parameter starts inside of it, and one that starts in literal text would have been met there.
-/

namespace ApiTypes.AddressPart

/-- What a part stands for in the path. -/
def written : AddressPart → List Char
  | .text value => value.toList
  | .parameter name => placeholder name

/-- Not both of two parts are literal text. -/
def Separate : AddressPart → AddressPart → Prop
  | .text _, .text _ => False
  | _, _ => True

/-- The parts into which a path is divided, given the names of its parameters. -/
structure Divides (path : String) (names : List Json) (parts : List AddressPart) : Prop where
  /-- One after another, they are the path. -/
  written_eq : parts.flatMap written = path.toList
  /-- Every parameter has one of the names. -/
  declared : ∀ name, .parameter name ∈ parts → name ∈ names
  /-- No literal text contains a placeholder. -/
  literal : ∀ value, .text value ∈ parts → ∀ name ∈ names, ¬ placeholder name <:+: value.toList
  /-- No literal text stands beside another one. -/
  separate : parts.IsChain Separate
  /-- Literal text is empty only where there are no names. -/
  nonempty : ∀ value, .text value ∈ parts → value = "" → names = []

/-! ### Placeholders -/

/-- A placeholder has a brace. -/
theorem placeholder_ne_nil (name : Json) : placeholder name ≠ [] := List.cons_ne_nil _ _

/-- Placeholders of names. -/
abbrev Marks := List (List Char × Json)

/-- A placeholder that is put there is the new one or an old one. -/
theorem mem_putPlaceholder {mark : List Char} {name : Json} {marks : Marks}
    {pair : List Char × Json} (h : pair ∈ putPlaceholder mark name marks) :
    pair = (mark, name) ∨ pair ∈ marks := by
  induction marks with
  | nil => exact Or.inl (List.mem_singleton.mp h)
  | cons first rest ih =>
    obtain ⟨m, n⟩ := first
    rw [putPlaceholder] at h
    split at h
    · rename_i heq
      exact (List.mem_cons.mp h).imp (heq ▸ ·) (List.mem_cons_of_mem _)
    · rcases List.mem_cons.mp h with rfl | h
      · exact Or.inr (List.mem_cons_self ..)
      · exact (ih h).imp_right (List.mem_cons_of_mem _)

/-- Putting a placeholder there adds its mark. -/
theorem mem_map_fst_putPlaceholder {mark other : List Char} {name : Json} {marks : Marks} :
    other ∈ (putPlaceholder mark name marks).map Prod.fst ↔
      other = mark ∨ other ∈ marks.map Prod.fst := by
  induction marks with
  | nil => simp [putPlaceholder]
  | cons first rest ih =>
    obtain ⟨m, n⟩ := first
    rw [putPlaceholder]
    split
    · rename_i heq
      simp [heq]
    · simp only [List.map_cons, List.mem_cons, ih]
      exact or_left_comm

/-- Each mark is the placeholder of one of the names. -/
theorem of_mem_placeholders {names : List Json} {pair : List Char × Json}
    (h : pair ∈ placeholders names) : pair.2 ∈ names ∧ pair.1 = placeholder pair.2 := by
  unfold placeholders at h
  induction names using List.reverseRecOn with
  | nil => cases h
  | append_singleton rest name ih =>
    rw [List.foldl_concat] at h
    rcases mem_putPlaceholder h with rfl | h
    · exact ⟨List.mem_concat_self, rfl⟩
    · exact ⟨List.mem_append_left _ (ih h).1, (ih h).2⟩

/-- Each name has its placeholder among the marks. -/
theorem placeholder_mem {names : List Json} {name : Json} (h : name ∈ names) :
    placeholder name ∈ (placeholders names).map Prod.fst := by
  unfold placeholders
  induction names using List.reverseRecOn with
  | nil => cases h
  | append_singleton rest last ih =>
    rw [List.foldl_concat, mem_map_fst_putPlaceholder]
    rcases List.mem_append.mp h with h | h
    · exact Or.inr (ih h)
    · exact Or.inl (congrArg placeholder (List.mem_singleton.mp h))

/-! ### Reading a path -/

/-- A literal is written as it was read. -/
theorem flatMap_written_flush (literal : List Char) :
    (flush literal).flatMap written = literal.reverse := by
  unfold flush
  split
  · rename_i hempty
    rw [List.isEmpty_iff.mp hempty]
    rfl
  · simp [written]

/-- The only text of a literal is that of its characters, if any. -/
theorem text_mem_flush {value : String} {literal : List Char} (h : .text value ∈ flush literal) :
    value.toList = literal.reverse ∧ literal ≠ [] := by
  unfold flush at h
  split at h
  · cases h
  · rename_i hempty
    cases List.mem_singleton.mp h
    exact ⟨String.toList_ofList, by simpa using hempty⟩

/-- A literal has no parameter. -/
theorem parameter_not_mem_flush (name : Json) (literal : List Char) :
    .parameter name ∉ flush literal := by
  unfold flush
  split <;> simp

/-- Literal text before a parameter touches no other text. -/
theorem isChain_flush_append (literal : List Char) (name : Json) {parts : List AddressPart}
    (h : parts.IsChain Separate) :
    (flush literal ++ .parameter name :: parts).IsChain Separate := by
  have hparameter : (.parameter name :: parts : List AddressPart).IsChain Separate :=
    List.isChain_cons.mpr ⟨fun part _ => by cases part <;> trivial, h⟩
  unfold flush
  split
  · exact hparameter
  · exact List.isChain_cons_cons.mpr ⟨trivial, hparameter⟩

/-- Whatever was read or is skipped, the parts make up what was read and what is left. -/
theorem flatMap_written_scan {marks : Marks} (hmarks : ∀ pair ∈ marks, pair.1 = placeholder pair.2)
    (literal : List Char) (skip : Nat) (path : List Char) :
    (scan marks literal skip path).flatMap written = literal.reverse ++ path.drop skip := by
  fun_induction scan marks literal skip path with
  | case1 literal skip => simp [flatMap_written_flush]
  | case2 literal c rest skip ih => exact ih
  | case3 literal c rest mark name hfind ih =>
    obtain ⟨behind, hbehind⟩ : mark <+: c :: rest := by simpa using List.find?_some hfind
    obtain rfl : mark = placeholder name := hmarks _ (List.mem_of_find?_eq_some hfind)
    have hrest : rest.drop ((placeholder name).length - 1) = behind := by
      have hpos := List.length_pos_of_ne_nil (placeholder_ne_nil name)
      calc rest.drop ((placeholder name).length - 1)
        _ = (c :: rest).drop ((placeholder name).length - 1 + 1) := rfl
        _ = (placeholder name ++ behind).drop (placeholder name).length := by
          rw [hbehind, Nat.sub_add_cancel hpos]
        _ = behind := List.drop_left
    rw [List.flatMap_append, flatMap_written_flush, List.flatMap_cons, ih, hrest,
      List.drop_zero, ← hbehind]
    rfl
  | case4 literal c rest hfind ih => simpa using ih

/-- Parameters come from the marks. -/
theorem exists_of_parameter_mem_scan {marks : Marks} {literal : List Char} {skip : Nat}
    {path : List Char} {name : Json} (h : .parameter name ∈ scan marks literal skip path) :
    ∃ mark, (mark, name) ∈ marks := by
  fun_induction scan marks literal skip path with
  | case1 literal skip => exact absurd h (parameter_not_mem_flush _ _)
  | case2 literal c rest skip ih => exact ih h
  | case3 literal c rest mark other hfind ih =>
    rcases List.mem_append.mp h with h | h
    · exact absurd h (parameter_not_mem_flush _ _)
    · rcases List.mem_cons.mp h with heq | h
      · cases heq
        exact ⟨mark, List.mem_of_find?_eq_some hfind⟩
      · exact ih h
  | case4 literal c rest hfind ih => exact ih h

/-- Parts of literal text are apart. -/
theorem isChain_scan (marks : Marks) (literal : List Char) (skip : Nat) (path : List Char) :
    (scan marks literal skip path).IsChain Separate := by
  fun_induction scan marks literal skip path with
  | case1 literal skip =>
    unfold flush
    split
    · exact .nil
    · exact .singleton _
  | case2 literal c rest skip ih => exact ih
  | case3 literal c rest mark name hfind ih => exact isChain_flush_append _ _ ih
  | case4 literal c rest hfind ih => exact ih

/-- No mark starts in the text that was read, even if it goes on in what is left. -/
def Passed (marks : Marks) (literal rest : List Char) : Prop :=
  ∀ pair ∈ marks, ∀ tail, tail <:+ literal.reverse → tail ≠ [] → ¬ pair.1 <+: tail ++ rest

namespace Passed

variable {marks : Marks} {literal rest : List Char}

/-- No placeholder was passed in no characters. -/
theorem nil (marks : Marks) (rest : List Char) : Passed marks [] rest :=
  fun _ _ _ htail hne => absurd (List.suffix_nil.mp htail) hne

/-- A character where no mark starts is passed. -/
theorem cons {c : Char} (h : Passed marks literal (c :: rest))
    (hnone : ∀ pair ∈ marks, ¬ pair.1 <+: c :: rest) : Passed marks (c :: literal) rest := by
  intro pair hpair tail htail hne
  rw [List.reverse_cons, List.suffix_concat_iff] at htail
  rcases htail with rfl | ⟨read, rfl, hread⟩
  · exact absurd rfl hne
  · rw [List.append_assoc, List.singleton_append]
    by_cases hempty : read = []
    · rw [hempty]
      exact hnone pair hpair
    · exact h pair hpair read hread hempty

/-- The text that was read contains no mark. -/
theorem not_isInfix (h : Passed marks literal rest) {pair : List Char × Json}
    (hpair : pair ∈ marks) (hne : pair.1 ≠ []) : ¬ pair.1 <:+: literal.reverse := by
  rintro ⟨before, behind, heq⟩
  have htail : pair.1 ++ behind <:+ literal.reverse := ⟨before, by rw [← heq, List.append_assoc]⟩
  refine h pair hpair _ htail (by simp [hne]) ?_
  rw [List.append_assoc]
  exact List.prefix_append _ _

end Passed

/-- Literal text is not empty and contains no mark. -/
theorem literal_of_mem_scan {marks : Marks} (hmarks : ∀ pair ∈ marks, pair.1 ≠ [])
    {literal : List Char} {skip : Nat} {path : List Char}
    (hpassed : Passed marks literal (path.drop skip)) {value : String}
    (h : .text value ∈ scan marks literal skip path) :
    value ≠ "" ∧ ∀ pair ∈ marks, ¬ pair.1 <:+: value.toList := by
  have hflush {literal rest : List Char} (hpassed : Passed marks literal rest)
      (h : .text value ∈ flush literal) :
      value ≠ "" ∧ ∀ pair ∈ marks, ¬ pair.1 <:+: value.toList := by
    obtain ⟨heq, hne⟩ := text_mem_flush h
    refine ⟨?_, fun pair hpair => ?_⟩
    · rintro rfl
      exact hne (by simpa using heq.symm)
    · rw [heq]
      exact hpassed.not_isInfix hpair (hmarks pair hpair)
  fun_induction scan marks literal skip path with
  | case1 literal skip => exact hflush hpassed h
  | case2 literal c rest skip ih => exact ih hpassed h
  | case3 literal c rest mark name hfind ih =>
    rcases List.mem_append.mp h with h | h
    · exact hflush hpassed h
    · rcases List.mem_cons.mp h with heq | h
      · cases heq
      · exact ih (.nil _ _) h
  | case4 literal c rest hfind ih =>
    refine ih (hpassed.cons fun pair hpair => ?_) h
    simpa using List.find?_eq_none.mp hfind pair hpair

/-- The division of a path by the names of its parameters is exact, also where names occur
more than once, are empty, hold braces or begin alike. -/
theorem ofPath_divides (path : String) (names : List Json) :
    Divides path names (ofPath path names) := by
  have hmarks : ∀ pair ∈ placeholders names, pair.1 = placeholder pair.2 :=
    fun pair hpair => (of_mem_placeholders hpair).2
  by_cases hnames : names = []
  · subst hnames
    exact {
      written_eq := List.append_nil _
      declared := fun name h => nomatch List.mem_singleton.mp h
      literal := fun _ _ _ hmem => nomatch hmem
      separate := .singleton _
      nonempty := fun _ _ _ => rfl }
  · have hscan : ofPath path names = scan (placeholders names) [] 0 path.toList := by
      rw [ofPath, if_neg (by simpa using hnames)]
    rw [hscan]
    have hliteral {value : String}
        (h : .text value ∈ scan (placeholders names) [] 0 path.toList) :=
      literal_of_mem_scan (fun pair hpair => hmarks pair hpair ▸ placeholder_ne_nil _)
        (.nil _ _) h
    exact {
      written_eq := flatMap_written_scan hmarks [] 0 path.toList
      declared := fun name h => by
        obtain ⟨mark, hmem⟩ := exists_of_parameter_mem_scan h
        exact (of_mem_placeholders hmem).1
      literal := fun value h name hname => by
        obtain ⟨pair, hpair, heq⟩ := List.mem_map.mp (placeholder_mem hname)
        exact heq ▸ (hliteral h).2 pair hpair
      separate := isChain_scan _ _ _ _
      nonempty := fun value h heq => absurd heq (hliteral h).1 }

/-- Of placeholders that begin alike, the one that is there is met; braces that are no
placeholder are literal text. -/
example : ofPath "/a/\x7bx\x7d\x7bxy\x7d\x7bz\x7d" [.str "x", .str "xy"] =
    [.text "/a/", .parameter (.str "x"), .parameter (.str "xy"), .text "\x7bz\x7d"] := by
  rfl

end ApiTypes.AddressPart
