/-!
# Text on a console

A console that is no terminal cannot carry out control sequences, so they are
left out of what is shown there. A control sequence is an escape character, an
opening bracket, parameters, marks and a last character, each of a range of its
own. In a log every line ends in a line feed alone.
-/

namespace ApiTypes.Text

/-- Whether a character is a parameter of a control sequence. -/
def isControlParameter (c : Char) : Bool := '0' ≤ c && c ≤ '?'

/-- Whether a character is a mark between the parameters and the last character
of a control sequence. -/
def isControlMark (c : Char) : Bool := ' ' ≤ c && c ≤ '/'

/-- Whether a character can be the last one of a control sequence. -/
def isControlEnd (c : Char) : Bool := '@' ≤ c && c ≤ '~'

/-- The length of the control sequence at the start of a text. -/
def controlLength? : List Char → Option Nat
  | '\x1b' :: '[' :: rest =>
    let marked := rest.dropWhile isControlParameter
    match marked.dropWhile isControlMark with
    | c :: _ =>
      let parameters := rest.takeWhile isControlParameter
      let marks := marked.takeWhile isControlMark
      if isControlEnd c then some (parameters.length + marks.length + 3) else none
    | [] => none
  | _ => none

/-- A text without control sequences, of which the next `skip` characters belong
to one that was met. -/
def dropControls (skip : Nat) : List Char → List Char
  | [] => []
  | c :: rest =>
    match skip with
    | skip + 1 => dropControls skip rest
    | 0 =>
      match controlLength? (c :: rest) with
      | some length => dropControls (length - 1) rest
      | none => c :: dropControls 0 rest

/-- A text in which a line feed stands for every carriage return that a line
feed follows, and for that line feed. -/
def joinLineEnds : List Char → List Char
  | '\r' :: '\n' :: rest => '\n' :: joinLineEnds rest
  | c :: rest => c :: joinLineEnds rest
  | [] => []

/-- A text without control sequences. -/
def withoutControls (text : String) : String := String.ofList (dropControls 0 text.toList)

/-- A text whose lines end in line feeds alone. -/
def withLineFeeds (text : String) : String := String.ofList (joinLineEnds text.toList)

end ApiTypes.Text
