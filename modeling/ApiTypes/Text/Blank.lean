import ApiTypes.Text.Split

/-!
# Blank characters and lines

The characters that count as blank at the ends of a comment and the
characters that end a line are the Unicode ones, not only the ASCII ones. A
line feed after a carriage return belongs to the same line end.
-/

namespace ApiTypes.Text

/-- Code points of the blank characters, in ascending ranges. -/
def blankRanges : List (Nat × Nat) :=
  [(0x09, 0x0D), (0x1C, 0x20), (0x85, 0x85), (0xA0, 0xA0), (0x1680, 0x1680), (0x2000, 0x200A),
    (0x2028, 0x2029), (0x202F, 0x202F), (0x205F, 0x205F), (0x3000, 0x3000)]

/-- Whether a code point lies in one of the ranges. -/
def inRanges (ranges : List (Nat × Nat)) (n : Nat) : Bool :=
  ranges.any fun range => range.1 ≤ n && n ≤ range.2

/-- Whether a character is blank. -/
def isBlank (c : Char) : Bool := inRanges blankRanges c.toNat

/-- Code points of the characters that end a line. -/
def lineEnds : List Nat :=
  [0x0A, 0x0B, 0x0C, 0x0D, 0x1C, 0x1D, 0x1E, 0x85, 0x2028, 0x2029]

/-- Whether a character ends a line. -/
def isLineEnd (c : Char) : Bool := lineEnds.contains c.toNat

/-- The lines of a text of which `line` is the unfinished last line, reversed. -/
def linesAfter (line : List Char) : List Char → List (List Char)
  | [] => if line.isEmpty then [] else [line.reverse]
  | '\r' :: '\n' :: rest => line.reverse :: linesAfter [] rest
  | c :: rest =>
    if isLineEnd c then line.reverse :: linesAfter [] rest
    else linesAfter (c :: line) rest

/-- The lines of a text, without their ends. A text that ends with a line end
has no empty line after it, and the empty text has no line. -/
def lines (text : List Char) : List (List Char) := linesAfter [] text

end ApiTypes.Text
