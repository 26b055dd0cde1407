import ApiTypes.Json.Basic
import ApiTypes.Text.Digit

/-!
# Reading JSON

Reads the text form of a value. A number with a point or an exponent is a
floating-point number, every other number a whole one, which may not have more
digits than a numeral may have; the words `NaN`, `Infinity` and `-Infinity` are
numbers too. A repeated key of an object keeps its first place and takes its
last value. Of several faults in a text the first one counts.
-/

namespace ApiTypes.Json

/-- Why a text cannot be read. -/
inductive ReadFault where
  /-- The text is not the text form of a value. -/
  | notJson
  /-- A whole number has too many digits. -/
  | longNumeral
deriving DecidableEq, Repr

/-- A part of a text that was read, or the fault where it should be. -/
def required {α : Type} : Option α → Except ReadFault α
  | some part => .ok part
  | none => .error .notJson

/-- A text without the spaces, tabs and line breaks at its start. -/
def skipBlank (text : List Char) : List Char :=
  text.dropWhile fun c => c == ' ' || c == '\t' || c == '\n' || c == '\r'

/-- The value of a hexadecimal digit. -/
def hexValue? (c : Char) : Option Nat :=
  if '0' ≤ c && c ≤ '9' then some (c.toNat - 48)
  else if 'a' ≤ c && c ≤ 'f' then some (c.toNat - 87)
  else if 'A' ≤ c && c ≤ 'F' then some (c.toNat - 55)
  else none

/-- The code that four hexadecimal digits write. -/
def hexCode? (a b c d : Char) : Option Nat := do
  return (((← hexValue? a) * 16 + (← hexValue? b)) * 16 + (← hexValue? c)) * 16 + (← hexValue? d)

/-- The code of a one-letter escape. -/
def shortEscape? (c : Char) : Option Nat :=
  if c = '"' || c = '\\' || c = '/' then some c.toNat
  else if c = 'n' then some 10
  else if c = 'r' then some 13
  else if c = 't' then some 9
  else if c = 'f' then some 12
  else if c = 'b' then some 8
  else none

/-- The codes of a quoted text up to its closing quote, and what follows it.
An escape gives one code, which may be half of a pair. -/
def readCodes? : List Char → Option (List Nat × List Char)
  | [] => none
  | '"' :: rest => some ([], rest)
  | '\\' :: 'u' :: a :: b :: c :: d :: rest => do
    let code ← hexCode? a b c d
    let (codes, after) ← readCodes? rest
    return (code :: codes, after)
  | '\\' :: c :: rest => do
    let code ← shortEscape? c
    let (codes, after) ← readCodes? rest
    return (code :: codes, after)
  | c :: rest =>
    if c = '\\' || c.toNat < 0x20 then none
    else do
      let (codes, after) ← readCodes? rest
      return (c.toNat :: codes, after)

/-- The character of one code; half of a pair is the replacement character. -/
def ofCode (code : Nat) : Char :=
  if 0xD800 ≤ code && code < 0xE000 then '\ufffd' else Char.ofNat code

/-- The characters of a list of codes. Two codes that are the halves of a pair
are one character; half of a pair that stands alone is the replacement character. -/
def ofCodes : List Nat → List Char
  | [] => []
  | high :: low :: rest =>
    if 0xD800 ≤ high && high < 0xDC00 && 0xDC00 ≤ low && low < 0xE000 then
      Char.ofNat (0x10000 + (high - 0xD800) * 0x400 + (low - 0xDC00)) :: ofCodes rest
    else ofCode high :: ofCodes (low :: rest)
  | code :: rest => ofCode code :: ofCodes rest

/-- The text up to the closing quote, and what follows it. -/
def readQuoted? (text : List Char) : Option (String × List Char) := do
  let (codes, after) ← readCodes? text
  return (String.ofList (ofCodes codes), after)

/-- The text that a quoted text, and nothing after it, writes. -/
def unquote? : List Char → Option String
  | '"' :: rest => match readQuoted? rest with
    | some (text, []) => some text
    | _ => none
  | _ => none

/-- The number that a list of ASCII digits writes. -/
def ofDigits (digits : List Char) : Nat :=
  digits.foldl (fun n c => n * 10 + (c.toNat - 48)) 0

/-- The floating-point number nearest to `digits * 10 ^ exponent`. -/
def nearestFloat (digits : List Char) (exponent : Int) : Float :=
  let significant := digits.dropWhile (· == '0')
  let magnitude := (significant.length : Int) + exponent
  if significant.isEmpty || magnitude < -400 then 0.0
  else if 400 < magnitude then 1.0 / 0.0
  else Float.ofScientific (ofDigits significant) (exponent < 0) exponent.natAbs

/-- The digits of an exponent with its sign, and what follows them. -/
def readExponent? : List Char → Option (Int × List Char)
  | e :: rest =>
    if e = 'e' || e = 'E' then
      let (negative, unsigned) := match rest with
        | '-' :: more => (true, more)
        | '+' :: more => (false, more)
        | more => (false, more)
      let digits := unsigned.takeWhile Char.isDigit
      if digits.isEmpty then none
      else
        let size : Int := ofDigits digits
        some (if negative then -size else size, unsigned.dropWhile Char.isDigit)
    else none
  | [] => none

/-- The digits after a point, and what follows them. -/
def readFraction? : List Char → Option (List Char × List Char)
  | '.' :: rest =>
    let digits := rest.takeWhile Char.isDigit
    if digits.isEmpty then none else some (digits, rest.dropWhile Char.isDigit)
  | _ => none

/-- A number without sign, and what follows it. -/
def readUnsigned (negative : Bool) (text : List Char) : Except ReadFault (Json × List Char) :=
  let (whole, rest) := match text with
    | '0' :: rest => (['0'], rest)
    | text => (text.takeWhile Char.isDigit, text.dropWhile Char.isDigit)
  if whole.isEmpty then .error .notJson
  else
    let fraction? := readFraction? rest
    let (fraction, afterFraction) := fraction?.getD ([], rest)
    let exponent? := readExponent? afterFraction
    let (exponent, after) := exponent?.getD (0, afterFraction)
    if fraction?.isNone && exponent?.isNone then
      if whole.length ≤ Text.numeralLimit then
        let size : Int := ofDigits whole
        .ok (.int (if negative then -size else size), after)
      else .error .longNumeral
    else
      let size := nearestFloat (whole ++ fraction) (exponent - fraction.length)
      .ok (.float (if negative then -size else size), after)

/-- A constant, and what follows it. -/
def readConstant? (text : List Char) : Option (Json × List Char) :=
  let word (name : String) (value : Json) : Option (Json × List Char) :=
    if name.toList.isPrefixOf text then some (value, text.drop name.length) else none
  word "null" .null <|> word "true" (.bool true) <|> word "false" (.bool false) <|>
    word "NaN" (.float (0.0 / 0.0)) <|> word "Infinity" (.float (1.0 / 0.0)) <|>
    word "-Infinity" (.float (-1.0 / 0.0))

/-- A constant or a number, and what follows it. -/
def readWord (text : List Char) : Except ReadFault (Json × List Char) :=
  match readConstant? text with
  | some constant => .ok constant
  | none => match text with
    | '-' :: rest => readUnsigned true rest
    | text => readUnsigned false text

mutual

/-- A value, and what follows it. Every step of `limit` reads at least one
character or ends. -/
def readValue (limit : Nat) (text : List Char) : Except ReadFault (Json × List Char) :=
  match limit with
  | 0 => .error .notJson
  | limit + 1 =>
    match skipBlank text with
    | '"' :: rest => do
      let (value, after) ← required (readQuoted? rest)
      return (.str value, after)
    | '[' :: rest =>
      match skipBlank rest with
      | ']' :: after => .ok (.arr [], after)
      | rest => do
        let (items, after) ← readItems limit rest
        return (.arr items, after)
    | '\x7b' :: rest =>
      match skipBlank rest with
      | '\x7d' :: after => .ok (.obj [], after)
      | rest => do
        let (pairs, after) ← readPairs limit rest
        return (.obj (Members.ofPairs pairs), after)
    | rest => readWord rest

/-- The items of a list up to its closing bracket, and what follows it. -/
def readItems (limit : Nat) (text : List Char) : Except ReadFault (List Json × List Char) :=
  match limit with
  | 0 => .error .notJson
  | limit + 1 => do
    let (item, rest) ← readValue limit text
    match skipBlank rest with
    | ',' :: rest =>
      let (items, after) ← readItems limit rest
      return (item :: items, after)
    | ']' :: after => return ([item], after)
    | _ => throw .notJson

/-- The keys and values of an object up to its closing bracket, and what follows it. -/
def readPairs (limit : Nat) (text : List Char) :
    Except ReadFault (List (String × Json) × List Char) :=
  match limit with
  | 0 => .error .notJson
  | limit + 1 =>
    match skipBlank text with
    | '"' :: rest => do
      let (key, rest) ← required (readQuoted? rest)
      match skipBlank rest with
      | ':' :: rest =>
        let (value, rest) ← readValue limit rest
        match skipBlank rest with
        | ',' :: rest =>
          let (pairs, after) ← readPairs limit rest
          return ((key, value) :: pairs, after)
        | '\x7d' :: after => return ([(key, value)], after)
        | _ => throw .notJson
      | _ => throw .notJson
    | _ => .error .notJson

end

/-- The value that a text writes, if it writes one and nothing else. -/
def read (text : String) : Except ReadFault Json := do
  let chars := text.toList
  let (value, after) ← readValue (2 * chars.length + 2) chars
  if (skipBlank after).isEmpty then return value else throw .notJson

end ApiTypes.Json
