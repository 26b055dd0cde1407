import ApiTypes.Decimal.Binary

/-!
# JSON values

Whole numbers and floating-point numbers are values of different kinds, and
the members of an object keep their order. Every object that is read has each
key once; `Members.put` keeps that.
-/

namespace ApiTypes

/-- A JSON value. -/
inductive Json where
  /-- The value `null`. -/
  | null
  /-- A truth value. -/
  | bool (value : Bool)
  /-- A whole number of any size. -/
  | int (value : Int)
  /-- A number written with a point or an exponent. -/
  | float (value : Float)
  /-- A text. -/
  | str (value : String)
  /-- A list of values. -/
  | arr (items : List Json)
  /-- An object: keys and their values, in order. -/
  | obj (members : List (String × Json))
deriving Inhabited

/-- The keys of an object and their values, in order. -/
abbrev Members := List (String × Json)

namespace Members

/-- The value of a key. -/
def get? : Members → String → Option Json
  | [], _ => none
  | (k, value) :: rest, key => if k = key then some value else get? rest key

/-- The value of a key, `null` when the key is missing. -/
def get (members : Members) (key : String) : Json := (members.get? key).getD .null

/-- Whether a key is present. -/
def has (members : Members) (key : String) : Bool := (members.get? key).isSome

/-- Sets the value of a key. A key that is present keeps its place, a new one
goes to the end. -/
def put (key : String) (value : Json) : Members → Members
  | [] => [(key, value)]
  | (k, v) :: rest => if k = key then (k, value) :: rest else (k, v) :: put key value rest

/-- Members read one after another: a repeated key keeps its first place and
takes its last value. -/
def ofPairs (pairs : List (String × Json)) : Members :=
  pairs.foldl (fun members pair => put pair.1 pair.2 members) []

@[simp] theorem get?_put (members : Members) (key other : String) (value : Json) :
    (put key value members).get? other =
      if other = key then some value else members.get? other := by
  induction members with
  | nil => simp [put, get?, eq_comm]
  | cons pair rest ih =>
    obtain ⟨k, v⟩ := pair
    by_cases hk : k = key
    · subst hk
      by_cases h : k = other
      · simp [put, get?, h]
      · simp [put, get?, h, Ne.symm h]
    · by_cases h : k = other
      · subst h; simp [put, hk, get?]
      · simp [put, hk, get?, h, ih]

/-- The keys after a key is set: unchanged when it was present, else one longer. -/
theorem keys_put (members : Members) (key : String) (value : Json) :
    (put key value members).map Prod.fst =
      if key ∈ members.map Prod.fst then members.map Prod.fst
      else members.map Prod.fst ++ [key] := by
  induction members with
  | nil => simp [put]
  | cons pair rest ih =>
    obtain ⟨k, v⟩ := pair
    by_cases hk : k = key
    · subst hk; simp [put]
    · simp only [put, if_neg hk, List.map_cons, ih, List.mem_cons, Ne.symm hk, false_or]
      split <;> simp

end Members

namespace Json

/-- Whether a value counts as present: not `null`, `false`, zero or empty. -/
def truthy : Json → Bool
  | .null => false
  | .bool b => b
  | .int n => n != 0
  | .float x => !(x == 0.0)
  | .str s => !s.isEmpty
  | .arr items => !items.isEmpty
  | .obj members => !members.isEmpty

/-- Whether a value is the given text. -/
def isText (text : String) : Json → Bool
  | .str s => s == text
  | _ => false

/-- The text of a value that is one. -/
def text? : Json → Option String
  | .str s => some s
  | _ => none

/-- The truth value of a value that is one. -/
def bool? : Json → Option Bool
  | .bool b => some b
  | _ => none

/-- The members of a value that is an object. -/
def members? : Json → Option Members
  | .obj members => some members
  | _ => none

/-- Whether a value can be a key: lists and objects cannot. -/
def isKey : Json → Bool
  | .arr _ => false
  | .obj _ => false
  | _ => true

/-- The whole number of a value that is one; truth values count as 0 and 1. -/
def wholeNumber? : Json → Option Int
  | .bool b => some (if b then 1 else 0)
  | .int n => some n
  | _ => none

/-- Whether two values are one key. Numbers are compared by value, so that
`1`, `1.0` and `true` are one key, and a number that is none is one key with itself. -/
def sameKey (a b : Json) : Bool :=
  match a, b with
  | .null, .null => true
  | .str s, .str t => s == t
  | .float x, .float y => x == y || (x.isNaN && y.isNaN)
  | .float x, b => match b.wholeNumber? with
    | some n => (Decimal.Reading.ofFloat x).isInt n
    | none => false
  | a, .float y => match a.wholeNumber? with
    | some n => (Decimal.Reading.ofFloat y).isInt n
    | none => false
  | a, b => match a.wholeNumber?, b.wholeNumber? with
    | some m, some n => m == n
    | _, _ => false

end Json

end ApiTypes
