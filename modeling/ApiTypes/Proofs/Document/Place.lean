import ApiTypes.Proofs.Calculation
import ApiTypes.Proofs.Document.Pointer
import Mathlib.Data.List.DropRight
import Mathlib.Tactic.IntervalCases

/-!
# Places in documents

The pointer of a schema is made on the way to it, segment by segment, and it is read
in one piece. Both agree as long as no segment is empty, because slashes at the end of
a pointer do not count. So a value in a document of distinct keys that are not empty is
found again at the pointer that was made for it.
-/

namespace ApiTypes

namespace Text

/-- A digit is read with its value. -/
theorem decimalValue?_digitChar {d : Nat} (h : d < 10) :
    decimalValue? (Nat.digitChar d) = some d := by
  interval_cases d <;> decide +kernel

/-- The digits of a number are digits. -/
theorem all_isDigit_toDigits (n : Nat) : (Nat.toDigits 10 n).all isDigit = true := by
  have hdigit {d : Nat} (h : d < 10) : isDigit (Nat.digitChar d) = true := by
    rw [isDigit, decimalValue?_digitChar h]
    rfl
  induction n using Nat.strongRecOn with
  | ind n ih =>
    rw [Nat.toDigits_eq_if (by decide)]
    split
    · rename_i hlt
      simp [hdigit hlt]
    · have hmod : n % 10 < 10 := by omega
      have hrest := ih (n / 10) (by omega)
      rw [List.all_append, hrest]
      simp [hdigit hmod]

/-- The digits of a number are read with its value. -/
theorem foldlM_toDigits (n : Nat) :
    (Nat.toDigits 10 n).foldlM (fun n c => (decimalValue? c).map (n * 10 + ·)) 0 = some n := by
  induction n using Nat.strongRecOn with
  | ind n ih =>
    rw [Nat.toDigits_eq_if (by decide)]
    split
    · rename_i hlt
      simp [decimalValue?_digitChar hlt]
    · have hmod : n % 10 < 10 := by omega
      have hdiv : n / 10 * 10 + n % 10 = n := by omega
      have hrest := ih (n / 10) (by omega)
      rw [List.foldlM_append, hrest]
      simp [decimalValue?_digitChar hmod, hdiv]

/-- A number is read from its numeral, unless that is too long. -/
theorem numeral?_toString {n : Nat} (h : n < 10 ^ numeralLimit) :
    numeral? (toString n).toList = some n := by
  have hlength : (Nat.toDigits 10 n).length ≤ numeralLimit :=
    (Nat.length_toDigits_le_iff (by decide) (by decide)).mpr h
  rw [Nat.toString_eq_repr, Nat.toList_repr, numeral?, if_pos hlength, foldlM_toDigits]

theorem isDigits_toString (n : Nat) : isDigits (toString n).toList = true := by
  have hne : (Nat.toDigits 10 n).isEmpty = false := by
    rw [List.isEmpty_eq_false_iff]
    exact Nat.toDigits_ne_nil
  rw [Nat.toString_eq_repr, Nat.toList_repr, isDigits, all_isDigit_toDigits, hne]
  rfl

/-- A text that does not end with a character of a class stays as it is. -/
theorem trimEnd_eq_self {drops : Char → Bool} {text : List Char}
    (h : ∀ c ∈ text.getLast?, drops c = false) : trimEnd drops text = text := by
  change text.rdropWhile drops = text
  rw [List.rdropWhile_eq_self_iff]
  intro hne
  rw [h _ (List.getLast_mem_getLast? hne)]
  exact Bool.false_ne_true

theorem trimEnd_cons {drops : Char → Bool} {text : List Char} (h : trimEnd drops text ≠ [])
    (c : Char) : trimEnd drops (c :: text) = c :: trimEnd drops text := by
  have hrest : (text.reverse.dropWhile drops).isEmpty = false := by
    rw [List.isEmpty_eq_false_iff]
    exact fun hnil => h (by rw [trimEnd, hnil, List.reverse_nil])
  rw [trimEnd, List.reverse_cons, List.dropWhile_append, hrest]
  simp [trimEnd]

theorem trimEnd_cons_of_not_drops {drops : Char → Bool} {c : Char} (hc : drops c = false)
    (text : List Char) : trimEnd drops (c :: text) = c :: trimEnd drops text := by
  cases htext : trimEnd drops text with
  | cons d rest => rw [trimEnd_cons (by simp [htext]), htext]
  | nil =>
    have hall : ∀ d ∈ text, drops d = true := List.rdropWhile_eq_nil_iff.mp htext
    have hrest : text.reverse.dropWhile drops = [] := by simpa using hall
    rw [trimEnd, List.reverse_cons, List.dropWhile_append, hrest]
    simp [hc]

/-- What does not end with characters of a class alone is trimmed at its own end. -/
theorem trimEnd_append {drops : Char → Bool} {second : List Char}
    (h : trimEnd drops second ≠ []) (first : List Char) :
    trimEnd drops (first ++ second) = first ++ trimEnd drops second := by
  induction first with
  | nil => rfl
  | cons c rest ih =>
    have hne : trimEnd drops (rest ++ second) ≠ [] := by
      rw [ih]
      exact List.append_ne_nil_of_right_ne_nil rest h
    rw [List.cons_append, trimEnd_cons hne, ih, List.cons_append]

/-- The order in which both ends of a text are trimmed does not matter. -/
theorem trim_eq (drops : Char → Bool) (text : List Char) :
    trim drops text = (trimEnd drops text).dropWhile drops := by
  rw [trim]
  induction text with
  | nil => rfl
  | cons c rest ih =>
    by_cases hc : drops c = true
    · rw [List.dropWhile_cons_of_pos hc, ih]
      by_cases hrest : trimEnd drops rest = []
      · have hall : ∀ d ∈ rest, drops d = true := List.rdropWhile_eq_nil_iff.mp hrest
        have hnil : trimEnd drops (c :: rest) = [] :=
          List.rdropWhile_eq_nil_iff.mpr (List.forall_mem_cons.mpr ⟨hc, hall⟩)
        rw [hrest, hnil]
      · rw [trimEnd_cons hrest, List.dropWhile_cons_of_pos hc]
    · have hno : drops c = false := by simpa using hc
      rw [List.dropWhile_cons_of_neg hc, trimEnd_cons_of_not_drops hno,
        List.dropWhile_cons_of_neg hc]

end Text

namespace Pointer

open ApiTypes.Text

/-- Segments that are read back from the pointer that is written for them: the first one
does not start with a `#`, and none of them is empty. -/
structure Clear (segments : List String) : Prop where
  /-- A location of the segments can be read back. -/
  plain : Plain segments
  /-- No slash of the pointer is dropped. -/
  empty_not_mem : "" ∉ segments

/-- The characters of segments, each with a slash before it. -/
def writtenChars (segments : List String) : List Char :=
  segments.flatMap fun segment => '/' :: escapeSegment segment.toList

/-- The pointer of segments, each with a slash before it. -/
def written (segments : List String) : String := String.ofList (writtenChars segments)

theorem writtenChars_append (first second : List String) :
    writtenChars (first ++ second) = writtenChars first ++ writtenChars second :=
  List.flatMap_append

/-- The slash before the first segment comes on top of those between segments. -/
theorem writtenChars_cons (first : String) (rest : List String) :
    writtenChars (first :: rest) = '/' :: joinChars ((first :: rest).map String.toList) := by
  induction rest generalizing first with
  | nil => simp [writtenChars, joinChars, joinWith]
  | cons next more ih =>
    have hnext := ih next
    simp only [writtenChars, joinChars, List.flatMap_cons, List.map_cons, joinWith] at hnext ⊢
    rw [hnext]
    rfl

/-- A pointer is empty or starts with a slash. -/
theorem written_eq_empty_or (segments : List String) :
    written segments = "" ∨ (written segments).toList.head? = some '/' := by
  cases segments with
  | nil => exact Or.inl rfl
  | cons first rest =>
    rw [written, String.toList_ofList, writtenChars_cons]
    exact Or.inr rfl

/-- The location of segments is the document and their pointer. -/
theorem locate_eq (documentPoint : String) {segments : List String} (h : Plain segments) :
    locate documentPoint segments = documentPoint ++ "#" ++ written segments := by
  rw [← String.toList_inj, toList_locate documentPoint h]
  cases segments with
  | nil => simp [written, writtenChars]
  | cons first rest => simp [written, writtenChars_cons]

/-- The location of a pointer that was written without a document. -/
theorem locateWritten_locate (documentPoint : String) {segments : List String}
    (h : Plain segments) :
    locateWritten documentPoint (locate "" segments) = locate documentPoint segments := by
  rw [locate_eq documentPoint h, locate_eq "" h, locateWritten]
  have hlead : leadSlash (dropHash ("" ++ "#" ++ written segments).toList) =
      writtenChars segments := by
    cases segments with
    | nil => rfl
    | cons first rest => simp [written, writtenChars_cons, dropHash, leadSlash]
  rw [hlead, written]

theorem escapeSegment_ne_nil {segment : String} (h : segment ≠ "") :
    escapeSegment segment.toList ≠ [] := by
  intro hnil
  have hread := unescapeSegment_escapeSegment segment.toList
  rw [hnil] at hread
  exact h (String.toList_eq_nil_iff.mp hread.symm)

/-- The pointer of segments ends with no slash if the last one is not empty. -/
theorem getLast?_writtenChars_concat_ne_slash (before : List Char) (init : List String)
    {last : String} (hlast : last ≠ "") :
    ∀ c ∈ (before ++ writtenChars (init ++ [last])).getLast?, c ≠ '/' := by
  intro c hc
  have hmem : c ∈ escapeSegment last.toList := by
    have hsplit : before ++ writtenChars (init ++ [last]) =
        (before ++ writtenChars init ++ ['/']) ++ escapeSegment last.toList := by
      simp [writtenChars]
    rw [hsplit, List.getLast?_append_of_ne_nil _ (escapeSegment_ne_nil hlast)] at hc
    exact List.mem_of_getLast? hc
  rintro rfl
  exact slash_not_mem_escapeSegment _ hmem

/-- The pointer of segments that are not empty ends with no slash. -/
theorem getLast?_writtenChars_ne_slash {segments : List String} (h : "" ∉ segments)
    {before : List Char} (hbefore : ∀ c ∈ before.getLast?, c ≠ '/') :
    ∀ c ∈ (before ++ writtenChars segments).getLast?, c ≠ '/' := by
  rcases List.eq_nil_or_concat' segments with rfl | ⟨init, last, rfl⟩
  · simpa [writtenChars] using hbefore
  · have hlast : last ≠ "" := fun heq => h (by simp [heq])
    exact getLast?_writtenChars_concat_ne_slash before init hlast

/-- The pointer of a child is that of its own segments. -/
theorem child_locate {segments more : List String} (h : Clear segments)
    (hmore : Plain (segments ++ more)) :
    child (locate "" segments) more = locate "" (segments ++ more) := by
  have hend : ∀ c ∈ ('#' :: writtenChars segments).getLast?, (c == '/') = false := by
    intro c hc
    have hhash : ∀ c ∈ ['#'].getLast?, c ≠ '/' := by simp
    simpa using getLast?_writtenChars_ne_slash h.empty_not_mem hhash c hc
  have hparent : ("" ++ "#" ++ written segments).toList = '#' :: writtenChars segments := by
    simp [written]
  rw [locate_eq "" h.plain, locate_eq "" hmore, child, hparent, trimEnd_eq_self hend]
  rw [← String.toList_inj]
  simp [written, writtenChars_append]
  rfl

/-- The slashes at the end of a pointer are those before empty segments. -/
theorem trimEnd_writtenChars (segments : List String) :
    trimEnd (· == '/') (writtenChars segments) =
      writtenChars (segments.rdropWhile (·.isEmpty)) := by
  induction segments using List.reverseRecOn with
  | nil => rfl
  | append_singleton init last ih =>
    by_cases hlast : last = ""
    · have hslash : writtenChars (init ++ [last]) = writtenChars init ++ ['/'] := by
        simp [writtenChars, hlast, escapeSegment]
      rw [hslash, List.rdropWhile_concat_pos _ _ _ (by simp [hlast]), ← ih]
      exact List.rdropWhile_concat_pos _ _ _ (by decide)
    · have hend := getLast?_writtenChars_concat_ne_slash [] init hlast
      rw [List.rdropWhile_concat_neg _ _ _ (by simpa using hlast)]
      exact trimEnd_eq_self fun c hc => by simpa using hend c hc

/-- Only empty segments are dropped from the end, so the first one of a location stays. -/
theorem exists_rdropWhile_eq_cons {first : String} (hfirst : first ≠ "") (rest : List String) :
    ∃ others, (first :: rest).rdropWhile (·.isEmpty) = first :: others := by
  have hne : (first :: rest).rdropWhile (·.isEmpty) ≠ [] := by
    rw [Ne, List.rdropWhile_eq_nil_iff]
    exact fun hall => hfirst (by simpa using hall first (List.mem_cons_self ..))
  obtain ⟨kept, others, heq⟩ := List.exists_cons_of_ne_nil hne
  have hprefix := List.rdropWhile_prefix (·.isEmpty) (first :: rest)
  rw [heq] at hprefix
  exact ⟨others, by rw [heq, (List.cons_prefix_cons.mp hprefix).1]⟩

/-- The written form of segments does not start with a slash if the first one is not empty. -/
theorem exists_joinChars_eq_cons {first : String} (hfirst : first ≠ "") (rest : List String) :
    ∃ c more, joinChars ((first :: rest).map String.toList) = c :: more ∧ c ≠ '/' := by
  obtain ⟨c, more, hescape⟩ := List.exists_cons_of_ne_nil (escapeSegment_ne_nil hfirst)
  have hslash : c ≠ '/' := by
    rintro rfl
    exact slash_not_mem_escapeSegment first.toList (by simp [hescape])
  cases rest with
  | nil => exact ⟨c, more, by simp [joinChars, joinWith, hescape], hslash⟩
  | cons next segments => exact ⟨c, _, by simp [joinChars, joinWith, hescape]; rfl, hslash⟩

/-- What is not dropped from the start of a pointer stays when slashes are dropped from its
end. -/
theorem dropHash_trimEnd_append {more : List Char} (hmore : more.head? = some '/')
    (text : List Char) :
    dropHash (trimEnd (· == '/') text ++ more) = trimEnd (· == '/') (dropHash text) ++ more := by
  by_cases hhash : text.head? = some '#'
  · obtain ⟨rest, rfl⟩ := List.head?_eq_some_iff.mp hhash
    rw [trimEnd_cons_of_not_drops (by decide)]
    rfl
  · rw [dropHash_eq_self hhash]
    refine dropHash_eq_self fun h => ?_
    rw [List.head?_append] at h
    cases htrimmed : (trimEnd (· == '/') text).head? with
    | none =>
      rw [htrimmed, hmore] at h
      exact absurd h (by decide)
    | some c =>
      have hprefix : trimEnd (· == '/') text <+: text := List.rdropWhile_prefix _ _
      obtain ⟨others, hothers⟩ := hprefix
      rw [htrimmed] at h
      rw [← hothers, List.head?_append, htrimmed] at hhash
      exact hhash h

/-- What a pointer is split into, apart from slashes at either end and a `#`. -/
theorem split_eq (written : String) :
    split written = if trim (· == '/') (dropHash written.toList) = [] then [] else
      (splitAt '/' (trim (· == '/') (dropHash written.toList))).map fun piece =>
        String.ofList (unescapeSegment piece) := by
  rw [split, splitChars, apply_ite (List.map String.ofList), List.map_map]
  simp only [List.isEmpty_iff]
  rfl

/-- The pointer of a child is split into the segments of its parent and its own, but for
empty ones at its end. -/
theorem split_child (parent : String) {first : String} (hfirst : first ≠ "")
    (rest : List String) : split (child parent (first :: rest)) =
      split parent ++ (first :: rest).rdropWhile (·.isEmpty) := by
  obtain ⟨others, hothers⟩ := exists_rdropWhile_eq_cons hfirst rest
  obtain ⟨c, more, hjoin, hslash⟩ := exists_joinChars_eq_cons hfirst rest
  have hne : joinChars ((first :: others).map String.toList) ≠ [] := by
    obtain ⟨_, _, hothers, _⟩ := exists_joinChars_eq_cons hfirst others
    rw [hothers]
    exact List.cons_ne_nil _ _
  have hwritten := writtenChars_cons first rest
  have htrimmed : trimEnd (· == '/') (writtenChars (first :: rest)) =
      '/' :: joinChars ((first :: others).map String.toList) := by
    rw [trimEnd_writtenChars, hothers, writtenChars_cons]
  have hpieces : (splitAt '/' (joinChars ((first :: others).map String.toList))).map
      (fun piece => String.ofList (unescapeSegment piece)) = first :: others := by
    have hmap := congrArg (List.map String.ofList)
      (@map_unescapeSegment_splitAt ((first :: others).map String.toList) (by simp))
    simpa [Function.comp_def] using hmap
  have hhead : (writtenChars (first :: rest)).head? = some '/' := by rw [hwritten]; rfl
  have hbody : dropHash (child parent (first :: rest)).toList =
      trimEnd (· == '/') (dropHash parent.toList) ++ writtenChars (first :: rest) := by
    rw [child, String.toList_ofList]
    exact dropHash_trimEnd_append hhead _
  rw [hothers, split_eq, split_eq, hbody, trim_eq _ (dropHash parent.toList), trim,
    List.dropWhile_append]
  cases hparent : (trimEnd (· == '/') (dropHash parent.toList)).dropWhile (· == '/') with
  | nil =>
    have hdropped : (writtenChars (first :: rest)).dropWhile (· == '/') = c :: more := by
      rw [hwritten, hjoin]
      simp [hslash]
    have hkept : trimEnd (· == '/') (c :: more) =
        joinChars ((first :: others).map String.toList) := by
      rw [hwritten, hjoin] at htrimmed
      have hstays : trimEnd (· == '/') (c :: more) = c :: trimEnd (· == '/') more :=
        trimEnd_cons_of_not_drops (by simpa using hslash) more
      rw [trimEnd_cons (by simp [hstays])] at htrimmed
      exact (List.cons.inj htrimmed).2
    rw [List.isEmpty_nil, if_pos rfl, if_pos rfl, hdropped, hkept, if_neg hne,
      hpieces, List.nil_append]
  | cons d kept =>
    have hstays : trimEnd (· == '/') (writtenChars (first :: rest)) ≠ [] := by simp [htrimmed]
    rw [List.isEmpty_cons, if_neg Bool.false_ne_true, trimEnd_append hstays, htrimmed,
      if_neg (by simp), if_neg (by simp), splitAt_append_cons, List.map_append, hpieces]

theorem rdropWhile_eq_self {segments : List String} (h : "" ∉ segments) :
    segments.rdropWhile (·.isEmpty) = segments :=
  List.rdropWhile_eq_self_iff.mpr fun hne hempty =>
    h (String.isEmpty_iff.mp hempty ▸ List.getLast_mem hne)

theorem filter_eq_self {segments : List String} (h : "" ∉ segments) :
    segments.filter (!·.isEmpty) = segments := by
  refine List.filter_eq_self.mpr fun segment hmem => ?_
  rw [Bool.not_eq_true', String.isEmpty_eq_false_iff]
  exact fun hempty => h (hempty ▸ hmem)

/-- If only the last one of some segments can be empty, dropping empty ones from the end
leaves those that are not empty. -/
theorem rdropWhile_concat_eq_filter {init : List String} (hinit : "" ∉ init) (last : String) :
    (init ++ [last]).rdropWhile (·.isEmpty) = (init ++ [last]).filter (!·.isEmpty) := by
  by_cases hlast : last = ""
  · rw [List.rdropWhile_concat_pos _ _ _ (by simp [hlast]), rdropWhile_eq_self hinit,
      List.filter_append, filter_eq_self hinit]
    simp [hlast]
  · have hmem : "" ∉ init ++ [last] := by simp [hinit, Ne.symm hlast]
    rw [rdropWhile_eq_self hmem, filter_eq_self hmem]

/-- The segments of a pointer are those that it was written for, but for empty ones at its
end. -/
theorem split_written_eq {segments : List String} (h : segments.head? ≠ some "") :
    split (written segments) = segments.rdropWhile (·.isEmpty) := by
  cases segments with
  | nil => rfl
  | cons first rest => exact split_child "" (fun hempty => h (by rw [hempty]; rfl)) rest

/-- A pointer that is written for segments has no `#` before it. -/
theorem dropHash_written (segments : List String) :
    dropHash (written segments).toList = (written segments).toList := by
  rcases written_eq_empty_or segments with hempty | hhead
  · rw [hempty]
    rfl
  · exact dropHash_eq_self (by simp [hhead])

/-- A `#` before a pointer does not count. -/
theorem split_hash_written (segments : List String) :
    split ("#" ++ written segments) = split (written segments) := by
  rw [split, split, splitChars, splitChars, dropHash_written, String.toList_append]
  rfl

/-- The segments of a pointer are those that it was written for, if none is empty. -/
theorem split_written {segments : List String} (h : "" ∉ segments) :
    split (written segments) = segments := by
  rw [split_written_eq fun hhead => h (List.mem_of_head? hhead), rdropWhile_eq_self h]

/-- The location of segments without a document is read like their pointer. -/
theorem split_locate {segments : List String} (h : Plain segments) :
    split (locate "" segments) = segments.rdropWhile (·.isEmpty) := by
  have hhead : segments.head? ≠ some "" := by
    cases segments with
    | nil => exact nofun
    | cons first rest => exact fun hhead => h.1 (Option.some.inj hhead)
  rw [locate_eq "" h, String.empty_append, split_hash_written, split_written_eq hhead]

end Pointer

namespace Json

mutual

/-- Whether everything inside a value can be pointed at: the keys of an object are distinct
and not empty, and the positions in a list have numerals. -/
def isAddressable : Json → Bool
  | .arr items => decide (items.length ≤ 10 ^ Text.numeralLimit) && itemsAddressable items
  | .obj members =>
    decide ((members.map Prod.fst).Nodup ∧ "" ∉ members.map Prod.fst) &&
      membersAddressable members
  | _ => true

/-- Whether everything inside items can be pointed at. -/
def itemsAddressable : List Json → Bool
  | [] => true
  | item :: rest => item.isAddressable && itemsAddressable rest

/-- Whether everything inside the values of keys can be pointed at. -/
def membersAddressable : List (String × Json) → Bool
  | [] => true
  | (_, value) :: rest => value.isAddressable && membersAddressable rest

end

theorem itemsAddressable_iff (items : List Json) :
    itemsAddressable items ↔ ∀ item ∈ items, item.isAddressable := by
  induction items with
  | nil => simp [itemsAddressable]
  | cons item rest ih => simp [itemsAddressable, ih]

theorem membersAddressable_iff (members : Members) :
    membersAddressable members ↔ ∀ pair ∈ members, pair.2.isAddressable := by
  induction members with
  | nil => simp [membersAddressable]
  | cons pair rest ih => simp [membersAddressable, ih]

theorem isAddressable_arr (items : List Json) :
    (arr items).isAddressable ↔
      items.length ≤ 10 ^ Text.numeralLimit ∧ ∀ item ∈ items, item.isAddressable := by
  rw [isAddressable, Bool.and_eq_true, decide_eq_true_iff, itemsAddressable_iff]

theorem isAddressable_obj (members : Members) :
    (obj members).isAddressable ↔
      ((members.map Prod.fst).Nodup ∧ "" ∉ members.map Prod.fst) ∧
        ∀ pair ∈ members, pair.2.isAddressable := by
  rw [isAddressable, Bool.and_eq_true, decide_eq_true_iff, membersAddressable_iff]

/-- A child that a segment leads to can be pointed at, and the segment is not empty. -/
theorem isAddressable_of_child {node value : Json} {segment : String}
    (h : node.isAddressable) (hchild : node.child segment = .ok value) :
    segment ≠ "" ∧ value.isAddressable := by
  rcases child_cases hchild with ⟨members, rfl, hget⟩ | ⟨items, position, rfl, hdigits, hget⟩
  · rw [isAddressable_obj] at h
    have hmem := Members.mem_of_get? hget
    refine ⟨?_, h.2 _ hmem⟩
    rintro rfl
    exact h.1.2 (List.mem_map_of_mem hmem)
  · rw [isAddressable_arr] at h
    refine ⟨?_, h.2 _ (List.mem_of_getElem? hget)⟩
    rintro rfl
    exact absurd hdigits (by decide)

/-- Walking along segments leads to a value that can be pointed at, and no segment is
empty. -/
theorem isAddressable_of_walk {node value : Json} {segments : List String}
    (h : node.isAddressable) (hwalk : node.walk segments = .ok value) :
    "" ∉ segments ∧ value.isAddressable := by
  induction segments generalizing node with
  | nil =>
    cases hwalk
    exact ⟨List.not_mem_nil, h⟩
  | cons segment rest ih =>
    obtain ⟨next, hchild, hrest⟩ := exists_of_walk_cons_ok hwalk
    obtain ⟨hne, hnext⟩ := isAddressable_of_child h hchild
    obtain ⟨hmem, hvalue⟩ := ih hnext hrest
    refine ⟨?_, hvalue⟩
    rw [List.mem_cons, not_or]
    exact ⟨hne.symm, hmem⟩

end Json

/-- Objects with distinct keys hold a member under its key. -/
theorem Members.get?_of_mem {members : Members} (h : (members.map Prod.fst).Nodup) {key : String}
    {value : Json} (hmem : (key, value) ∈ members) : members.get? key = some value := by
  induction members with
  | nil => cases hmem
  | cons pair rest ih =>
    obtain ⟨k, v⟩ := pair
    rw [List.map_cons, List.nodup_cons] at h
    rcases List.mem_cons.mp hmem with heq | hrest
    · cases heq
      rw [get?, if_pos rfl]
    · have hne : k ≠ key := by
        rintro rfl
        exact h.1 (List.mem_map.mpr ⟨_, hrest, rfl⟩)
      rw [get?, if_neg hne, ih h.2 hrest]

namespace Graph

/-- Whether everything in the documents can be pointed at: beside what is asked of every
value, no key of a document itself starts with a `#`. -/
def isAddressable (graph : Graph) : Bool :=
  graph.documents.all fun pair => pair.2.isAddressable &&
    (pair.2.members?.getD []).all fun member => member.1.toList.head? != some '#'

/-- The document at a point has a value that can be pointed at, and this is the pointer. -/
structure HasAt (graph : Graph) (point path : String) (value : Json) : Prop where
  /-- The document is loaded. -/
  mem_points : point ∈ graph.points
  /-- Everything inside the value can be pointed at. -/
  addressable : value.isAddressable
  /-- The pointer leads to the value. -/
  exists_segments : ∃ segments, Pointer.Clear segments ∧ path = Pointer.locate "" segments ∧
    graph.lookup point segments = .ok value

variable {graph : Graph} {point path : String}

/-- A lookup that succeeds walks into the document at the point. -/
theorem exists_walk_of_lookup_ok {segments : List String} {value : Json}
    (h : graph.lookup point segments = .ok value) :
    ∃ document, (Point.normalize point, document) ∈ graph.documents ∧
      graph.document point = .ok document ∧ document.walk segments = .ok value := by
  simp only [lookup] at h
  split at h
  · cases h
  · rename_i document hdocument
    refine ⟨document, ?_, hdocument, ?_⟩
    · simp only [Graph.document] at hdocument
      split at hdocument
      · rename_i found hget
        cases hdocument
        exact Members.mem_of_get? hget
      · cases hdocument
    · split at h
      · rename_i found hwalk
        cases h
        exact hwalk
      · cases h
      · cases h

/-- A lookup goes on from what another one has found. -/
theorem lookup_append {segments more : List String} {value found : Json}
    (h : graph.lookup point segments = .ok value) (hmore : value.walk more = .ok found) :
    graph.lookup point (segments ++ more) = .ok found := by
  obtain ⟨document, _, hdocument, hwalk⟩ := exists_walk_of_lookup_ok h
  have hboth : document.walk (segments ++ more) = .ok found := by
    rw [Json.walk_append more hwalk, hmore]
    rfl
  simp only [lookup, hdocument, hboth]

/-- What a lookup finds in a loaded document is there at the pointer of the segments. -/
theorem HasAt.of_lookup (hgraph : graph.isAddressable) (hnormal : Point.normalize point = point)
    {segments : List String} {value : Json} (h : graph.lookup point segments = .ok value) :
    graph.HasAt point (Pointer.locate "" segments) value := by
  obtain ⟨document, hmem, _, hwalk⟩ := exists_walk_of_lookup_ok h
  have hdocument := List.all_eq_true.mp hgraph _ hmem
  rw [Bool.and_eq_true] at hdocument
  obtain ⟨hempty, hvalue⟩ := Json.isAddressable_of_walk hdocument.1 hwalk
  refine ⟨?_, hvalue, segments, ⟨?_, hempty⟩, rfl, h⟩
  · rw [← hnormal]
    exact List.mem_map_of_mem hmem
  · cases segments with
    | nil => trivial
    | cons first rest =>
      refine ⟨fun heq => hempty (by simp [heq]), ?_⟩
      obtain ⟨next, hchild, _⟩ := Json.exists_of_walk_cons_ok hwalk
      rcases Json.child_cases hchild with ⟨members, rfl, hget⟩ | ⟨_, _, rfl, hdigits, _⟩
      · have hkey := List.all_eq_true.mp hdocument.2 _ (Members.mem_of_get? hget)
        simpa using hkey
      · intro hhash
        -- A `#` is no digit.
        obtain ⟨more, hmore⟩ := List.head?_eq_some_iff.mp hhash
        rw [hmore] at hdigits
        have hno : Text.isDigit '#' = false := by decide +kernel
        simp [Text.isDigits, hno] at hdigits

/-- A child of a value is at the pointer that is made from that of the value. -/
theorem HasAt.child {value found : Json} (h : graph.HasAt point path value) {first : String}
    {rest : List String} (hfirst : first ≠ "" ∧ first.toList.head? ≠ some '#')
    (hwalk : value.walk (first :: rest) = .ok found) :
    graph.HasAt point (Pointer.child path (first :: rest)) found := by
  obtain ⟨hpoint, hvalue, segments, hclear, rfl, hlookup⟩ := h
  obtain ⟨hempty, hfound⟩ := Json.isAddressable_of_walk hvalue hwalk
  have hplain : Pointer.Plain (segments ++ first :: rest) := by
    cases segments with
    | nil => exact hfirst
    | cons _ _ => exact hclear.plain
  refine ⟨hpoint, hfound, segments ++ first :: rest, ⟨hplain, ?_⟩, ?_, lookup_append hlookup hwalk⟩
  · rw [List.mem_append, not_or]
    exact ⟨hclear.empty_not_mem, hempty⟩
  · exact Pointer.child_locate hclear hplain

end Graph

end ApiTypes
