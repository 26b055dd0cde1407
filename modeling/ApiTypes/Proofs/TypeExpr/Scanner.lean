import ApiTypes.Json.Text
import ApiTypes.Text.Blank

/-!
# Symbols of a printed text

A printed type is read as a list of symbols: words, quoted texts, and marks such as
brackets and operators. Blanks and block comments stand between symbols and are passed
over. A text is read character by character, so what follows a text is read as it would
be alone, unless a word goes on.
-/

namespace ApiTypes

open Text

/-- A symbol of a printed text. -/
inductive Symbol where
  /-- A word: a name, a number or a constant. -/
  | word (text : String)
  /-- A quoted text, as it is written. -/
  | quoted (text : String)
  /-- A bracket, an operator or another mark. -/
  | mark (char : Char)
deriving DecidableEq, Repr

/-- The characters that are symbols of their own. -/
def Symbol.marks : List Char := ['|', '&', '(', ')', '[', ']', '\x7b', '\x7d', '?', ':', ';']

/-- Whether a character may stand in a word. -/
def Symbol.isWordChar (c : Char) : Bool :=
  !isBlank c && !marks.contains c && c != '"' && c != '/'

/-- Whether a text is a single word. -/
def Symbol.isWord (text : String) : Bool := !text.isEmpty && text.toList.all isWordChar

namespace Scanner

/-- What has been read of a symbol, the last character first. -/
inductive Mode where
  /-- Nothing. -/
  | between
  /-- The beginning of a word. -/
  | word (read : List Char)
  /-- The beginning of a quoted text. -/
  | quoted (read : List Char)
  /-- The beginning of a quoted text up to and with a backslash. -/
  | escaped (read : List Char)
  /-- A slash that may begin a comment. -/
  | slash
  /-- The beginning of a comment. -/
  | comment
  /-- The beginning of a comment up to and with a star. -/
  | star
deriving DecidableEq, Repr

/-- Reads a character that does not continue a symbol. -/
def start (c : Char) : List Symbol × Mode :=
  if isBlank c then ([], .between)
  else if Symbol.marks.contains c then ([.mark c], .between)
  else if c = '"' then ([], .quoted [c])
  else if c = '/' then ([], .slash)
  else ([], .word [c])

/-- Reads a character. -/
def step : Mode → Char → List Symbol × Mode
  | .between, c => start c
  | .word read, c =>
    if Symbol.isWordChar c then ([], .word (c :: read))
    else (.word (String.ofList read.reverse) :: (start c).1, (start c).2)
  | .quoted read, c =>
    if c = '"' then ([.quoted (String.ofList (c :: read).reverse)], .between)
    else if c = '\\' then ([], .escaped (c :: read))
    else ([], .quoted (c :: read))
  | .escaped read, c => ([], .quoted (c :: read))
  | .slash, c => if c = '*' then ([], .comment) else (.mark '/' :: (start c).1, (start c).2)
  | .comment, c => ([], if c = '*' then .star else .comment)
  | .star, c => ([], if c = '/' then .between else if c = '*' then .star else .comment)

/-- Reads characters one after another. -/
def run (mode : Mode) : List Char → List Symbol × Mode
  | [] => ([], mode)
  | c :: rest =>
    let (symbols, next) := step mode c
    let (others, last) := run next rest
    (symbols ++ others, last)

/-- The symbol that is complete when the text ends. Quoted texts and comments must have
ended before. -/
def Mode.rest? : Mode → Option (List Symbol)
  | .between => some []
  | .word read => some [.word (String.ofList read.reverse)]
  | _ => none

end Scanner

/-- The symbols of a text. -/
def scan (text : String) : Option (List Symbol) :=
  let (symbols, last) := Scanner.run .between text.toList
  last.rest?.map (symbols ++ ·)

namespace Scanner

/-- A text has the given symbols, all of which have ended with it. -/
def Settles (text : String) (symbols : List Symbol) : Prop :=
  run .between text.toList = (symbols, .between)

/-- A text begins with a character that does not continue a word. -/
def StartsApart (text : String) : Prop :=
  ∃ c rest, text.toList = c :: rest ∧ Symbol.isWordChar c = false

theorem run_cons (mode : Mode) (c : Char) (rest : List Char) :
    run mode (c :: rest) =
      ((step mode c).1 ++ (run (step mode c).2 rest).1, (run (step mode c).2 rest).2) := rfl

/-- Characters are read on from where those before them have led. -/
theorem run_append (mode : Mode) (first second : List Char) :
    run mode (first ++ second) =
      ((run mode first).1 ++ (run (run mode first).2 second).1,
        (run (run mode first).2 second).2) := by
  induction first generalizing mode with
  | nil => rfl
  | cons c rest ih =>
    rw [List.cons_append, run_cons, run_cons, ih, List.append_assoc]

/-- A word ends before a character that does not continue it. -/
theorem run_word_of_apart {c : Char} (h : Symbol.isWordChar c = false) (read rest : List Char) :
    run (.word read) (c :: rest) =
      (.word (String.ofList read.reverse) :: (run .between (c :: rest)).1,
        (run .between (c :: rest)).2) := by
  have hstep : step (.word read) c =
      (.word (String.ofList read.reverse) :: (start c).1, (start c).2) :=
    if_neg (by simpa using h)
  rw [run_cons, hstep]
  rfl

section

variable {first second : String} {symbols others : List Symbol}

theorem Settles.scan_eq (h : Settles first symbols) : scan first = some symbols := by
  rw [scan, h]
  simp [Mode.rest?]

/-- What follows a text that has settled is read as it would be alone. -/
theorem Settles.scan_append (h : Settles first symbols) (hsecond : scan second = some others) :
    scan (first ++ second) = some (symbols ++ others) := by
  obtain ⟨tail, htail, rfl⟩ := Option.map_eq_some_iff.mp hsecond
  rw [scan, String.toList_append, run_append, h]
  simp [htail]

theorem Settles.append (h : Settles first symbols) (hsecond : Settles second others) :
    Settles (first ++ second) (symbols ++ others) := by
  rw [Settles, String.toList_append, run_append, h, hsecond]

/-- What does not continue a word is read as it would be alone. -/
theorem run_append_of_apart (h : scan first = some symbols) (hapart : StartsApart second) :
    run .between (first ++ second).toList =
      (symbols ++ (run .between second.toList).1, (run .between second.toList).2) := by
  obtain ⟨tail, htail, rfl⟩ := Option.map_eq_some_iff.mp h
  obtain ⟨c, rest, hsecond, hc⟩ := hapart
  rw [String.toList_append, run_append]
  cases hlast : (run .between first.toList).2 with
  | between =>
    rw [hlast] at htail
    cases htail
    simp
  | word read =>
    rw [hlast] at htail
    cases htail
    rw [hsecond, run_word_of_apart hc]
    simp
  | _ =>
    rw [hlast] at htail
    cases htail

theorem scan_append (h : scan first = some symbols) (hsecond : scan second = some others)
    (hapart : StartsApart second) : scan (first ++ second) = some (symbols ++ others) := by
  obtain ⟨tail, htail, rfl⟩ := Option.map_eq_some_iff.mp hsecond
  rw [scan, run_append_of_apart h hapart]
  simp [htail]

theorem Settles.of_scan (h : scan first = some symbols) (hsecond : Settles second others)
    (hapart : StartsApart second) : Settles (first ++ second) (symbols ++ others) := by
  rw [Settles, run_append_of_apart h hapart, hsecond]

end

/-- Blanks have no symbols. -/
theorem settles_blank {text : String} (h : ∀ c ∈ text.toList, isBlank c = true) :
    Settles text [] := by
  rw [Settles]
  generalize text.toList = chars at h
  induction chars with
  | nil => rfl
  | cons c rest ih =>
    obtain ⟨hc, hrest⟩ := List.forall_mem_cons.mp h
    rw [run_cons, step, start, if_pos hc, ih hrest]
    rfl

/-- The characters of a word are read on. -/
theorem run_word {chars : List Char} (h : ∀ c ∈ chars, Symbol.isWordChar c = true)
    (read : List Char) : run (.word read) chars = ([], .word (chars.reverse ++ read)) := by
  induction chars generalizing read with
  | nil => rfl
  | cons c rest ih =>
    obtain ⟨hc, hrest⟩ := List.forall_mem_cons.mp h
    rw [run_cons, step, if_pos hc, ih hrest, List.reverse_cons, List.append_assoc]
    rfl

/-- A character of a word begins one. -/
theorem start_of_isWordChar {c : Char} (h : Symbol.isWordChar c = true) :
    start c = ([], .word [c]) := by
  simp only [Symbol.isWordChar, Bool.and_eq_true, Bool.not_eq_true', bne_iff_ne] at h
  obtain ⟨⟨⟨hblank, hmark⟩, hquote⟩, hslash⟩ := h
  simp only [start, hblank, hmark, hquote, hslash, Bool.false_eq_true, ↓reduceIte]

/-- A single word is read as that. -/
theorem scan_word {text : String} (h : Symbol.isWord text = true) :
    scan text = some [.word text] := by
  rw [Symbol.isWord, Bool.and_eq_true, List.all_eq_true] at h
  obtain ⟨hne, hall⟩ := h
  cases htext : text.toList with
  | nil => simp [String.toList_eq_nil_iff.mp htext] at hne
  | cons c rest =>
    rw [htext] at hall
    obtain ⟨hc, hrest⟩ := List.forall_mem_cons.mp hall
    have hread : String.ofList (rest.reverse ++ [c]).reverse = text := by
      rw [List.reverse_append, List.reverse_reverse, List.reverse_singleton, List.singleton_append,
        ← htext, String.ofList_toList]
    rw [scan, htext, run_cons, step, start_of_isWordChar hc, run_word hrest]
    simp only [Mode.rest?, hread]
    rfl

end Scanner

end ApiTypes
