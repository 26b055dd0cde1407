import ApiTypes.Json.Text

/-!
# Identifiers

How names taken from documents become names of type declarations. A name is
capitalised word by word, or escaped so that it is an identifier of the
printed language and none of its reserved words.
-/

namespace ApiTypes.Identifier

/-- The capitalised words of a text, one after another. A lower-case letter
that follows no letter starts a word and becomes upper-case; characters other
than ASCII letters and digits are left out. `afterLetter` says whether the
character before the text is a letter. -/
def capitalize (afterLetter : Bool) : List Char → List Char
  | [] => []
  | c :: rest =>
    if c.isLower then (if afterLetter then c else c.toUpper) :: capitalize true rest
    else if c.isUpper then c :: capitalize true rest
    else if c.isDigit then c :: capitalize false rest
    else capitalize false rest

/-- The capitalised words of a text: `first_name` gives `FirstName`. -/
def pascal (text : String) : String := String.ofList (capitalize false text.toList)

/-- The words that no declaration may be named. -/
def reservedWords : List String :=
  ["any", "boolean", "break", "case", "catch", "class", "const", "continue", "debugger",
    "default", "delete", "do", "else", "enum", "export", "extends", "false", "finally", "for",
    "function", "if", "import", "in", "instanceof", "never", "new", "null", "number", "object",
    "return", "string", "super", "switch", "symbol", "this", "throw", "true", "try", "typeof",
    "undefined", "unknown", "var", "void", "while", "with"]

/-- Whether a text is a reserved word. -/
def isReserved (text : String) : Bool := reservedWords.contains text

/-- Whether a character may start an identifier. -/
def isStart (c : Char) : Bool := c.isAlpha || c == '_' || c == '$'

/-- Whether a character may stand in an identifier. -/
def isPart (c : Char) : Bool := c.isAlphanum || c == '_' || c == '$'

/-- Whether a text is a start character followed by characters that may stand
in an identifier. -/
def isWord : List Char → Bool
  | [] => false
  | c :: rest => isStart c && rest.all isPart

/-- Whether a text can be written without quotes as a property name. One line
feed at its end is passed over. -/
def isBare (text : String) : Bool :=
  let chars := text.toList
  isWord chars || (chars.getLast? == some '\n' && isWord chars.dropLast)

/-- A text can be written without quotes when it is a name, or a name and a line feed. -/
theorem isBare_iff_isWord {text : String} : isBare text = true ↔
    isWord text.toList = true ∨
      ∃ word : String, isWord word.toList = true ∧ text = word ++ "\n" := by
  simp only [isBare, Bool.or_eq_true, Bool.and_eq_true, beq_iff_eq]
  refine or_congr_right ⟨?_, ?_⟩
  · rintro ⟨hlast, hword⟩
    obtain ⟨front, hfront⟩ := List.getLast?_eq_some_iff.mp hlast
    rw [hfront, List.dropLast_concat] at hword
    refine ⟨String.ofList front, by rwa [String.toList_ofList], String.toList_injective ?_⟩
    rw [hfront, String.toList_append, String.toList_ofList]
    rfl
  · rintro ⟨word, hword, rfl⟩
    have hchars : (word ++ "\n").toList = word.toList ++ ['\n'] := String.toList_append
    rw [hchars, List.getLast?_concat, List.dropLast_concat]
    exact ⟨rfl, hword⟩

/-- Whether a text can name a declaration as it is. -/
def isValid (text : String) : Bool := isBare text && !isReserved text

/-- Every character that may not stand in an identifier becomes an underscore. -/
def replaceInvalid (text : List Char) : List Char :=
  text.map fun c => if isPart c then c else '_'

/-- The identifier nearest to a text: invalid characters become underscores, a
digit at the start gets one before it and a reserved word gets one after it. -/
def escape (text : String) : String :=
  match replaceInvalid text.toList with
  | [] => "_"
  | c :: rest =>
    let word := String.ofList (if c.isDigit then '_' :: c :: rest else c :: rest)
    if isReserved word then word ++ "_" else word

/-- A property name as it is printed: bare when it can be, else as a quoted text. -/
def propertyName (name : String) : String := if isBare name then name else Json.quote name

end ApiTypes.Identifier
