import ApiTypes.Proofs.TypeExpr.Scanner
import Mathlib.Data.List.Basic

/-!
# Reading types

The symbols of a type are read from left to right: `[]` binds tighter than `&`, which binds
tighter than `|`. What is read is a normal form. Nested unions and nested intersections are
flattened in it, and parentheses, and unions and intersections of a single member, have left
no trace.
-/

namespace ApiTypes

/-- What stands between the operators of a type. -/
inductive Factor where
  /-- A name, a constant or a literal. -/
  | name (symbol : Symbol)
  /-- A list of items of one type. -/
  | list (item : List (List Factor))
  /-- An object: for each member what stands before its type, and the type. -/
  | record (members : List (List Symbol × List (List Factor)))
  /-- A choice between two or more alternatives. -/
  | group (alternatives : List (List Factor))

/-- The normal form of a type: its alternatives, each a list of factors. -/
abbrev Alternatives := List (List Factor)

namespace Reader

/-- The factors that a type contributes to an intersection. -/
def factors : Alternatives → List Factor
  | [only] => only
  | many => [.group many]

/-- The intersection of some factors, if there are any, with a type. -/
def joined : Option (List Factor) → Alternatives → Alternatives
  | none, operand => operand
  | some before, operand => [before ++ factors operand]

/-- The intersection of types. -/
def meet : List Alternatives → Alternatives
  | [only] => only
  | many => [many.flatMap factors]

theorem factors_meet (types : List Alternatives) :
    factors (meet types) = types.flatMap factors := by
  match types with
  | [] => rfl
  | [only] => simp [meet]
  | _ :: _ :: _ => rfl

/-- The beginning of a type. -/
structure Partial where
  /-- The alternatives before the last bar. -/
  alternatives : Alternatives := []
  /-- The factors between that bar and the last ampersand after it, if there is one. -/
  factors? : Option (List Factor) := none
  /-- What has been read after these. -/
  operand? : Option Alternatives := none

namespace Partial

/-- The beginning of a type that goes on with an operand. -/
def push (current : Partial) (operand : Alternatives) : Partial :=
  { current with operand? := some operand }

/-- The type that ends with an operand. -/
def close (current : Partial) (operand : Alternatives) : Alternatives :=
  current.alternatives ++ joined current.factors? operand

end Partial

/-- What an inner type interrupts. -/
inductive Frame where
  /-- A type in which a parenthesis was opened. -/
  | parentheses (outer : Partial)
  /-- An object in which the type of a member has begun. -/
  | member (outer : Partial) (members : List (List Symbol × Alternatives)) (heading : List Symbol)

/-- How far a text has been read. -/
inductive State where
  /-- Within a type. -/
  | type (frames : List Frame) (current : Partial)
  /-- After the opening bracket of a list of the given items. -/
  | brackets (frames : List Frame) (current : Partial) (item : Alternatives)
  /-- Within an object, before the type of its next member. -/
  | heading (frames : List Frame) (outer : Partial) (members : List (List Symbol × Alternatives))
    (symbols : List Symbol) (inBrackets : Bool)

/-- Reads a symbol where an operand begins. -/
def beginOperand (frames : List Frame) (current : Partial) : Symbol → Option State
  | .mark '(' => some (.type (.parentheses current :: frames) {})
  | .mark '\x7b' => some (.heading frames current [] [] false)
  | .mark _ => none
  | symbol => some (.type frames (current.push [[.name symbol]]))

/-- Reads a symbol after an operand. -/
def endOperand (frames : List Frame) (current : Partial) (operand : Alternatives) :
    Symbol → Option State
  | .mark '[' => some (.brackets frames current operand)
  | .mark '&' => some (.type frames { current with
      factors? := some (factors (joined current.factors? operand)), operand? := none })
  | .mark '|' => some (.type frames { alternatives := current.close operand })
  | .mark ')' => match frames with
    | .parentheses outer :: rest => some (.type rest (outer.push (current.close operand)))
    | _ => none
  | .mark ';' => match frames with
    | .member outer members heading :: rest =>
      some (.heading rest outer (members ++ [(heading, current.close operand)]) [] false)
    | _ => none
  | _ => none

/-- Reads a symbol within an object, before the type of a member. -/
def stepHeading (frames : List Frame) (outer : Partial)
    (members : List (List Symbol × Alternatives)) (symbols : List Symbol) :
    Bool → Symbol → Option State
  | false, .mark '\x7d' =>
    if symbols.isEmpty then some (.type frames (outer.push [[.record members]])) else none
  | false, .mark ':' => some (.type (.member outer members symbols :: frames) {})
  | false, .mark '[' => some (.heading frames outer members (symbols ++ [.mark '[']) true)
  | true, .mark ']' => some (.heading frames outer members (symbols ++ [.mark ']']) false)
  | inBrackets, .mark c =>
    if c = '?' || c = ':' then
      some (.heading frames outer members (symbols ++ [.mark c]) inBrackets)
    else none
  | inBrackets, symbol => some (.heading frames outer members (symbols ++ [symbol]) inBrackets)

/-- Reads a symbol. -/
def step : State → Symbol → Option State
  | .type frames current, symbol => match current.operand? with
    | none => beginOperand frames current symbol
    | some operand => endOperand frames current operand symbol
  | .brackets frames current item, symbol =>
    if symbol = .mark ']' then some (.type frames (current.push [[.list item]])) else none
  | .heading frames outer members symbols inBrackets, symbol =>
    stepHeading frames outer members symbols inBrackets symbol

/-- Reads symbols one after another. -/
def run (state : State) (symbols : List Symbol) : Option State := symbols.foldlM step state

/-- The type that symbols write. -/
def read (symbols : List Symbol) : Option Alternatives :=
  match run (.type [] {}) symbols with
  | some (.type [] current) => current.operand?.map current.close
  | _ => none

/-- The type that a text writes. -/
def readText (text : String) : Option Alternatives := (scan text).bind read

theorem run_append (state : State) (first second : List Symbol) :
    run state (first ++ second) = (run state first).bind fun next => run next second :=
  List.foldlM_append

theorem run_cons (state : State) (symbol : Symbol) (rest : List Symbol) :
    run state (symbol :: rest) = (step state symbol).bind fun next => run next rest := rfl

theorem run_append_of_some {state next : State} {first second : List Symbol}
    (h : run state first = some next) : run state (first ++ second) = run next second := by
  rw [run_append, h, Option.bind_some]

/-! ### What is read where -/

/-- Wherever a type may begin, the symbols are read as one operand. -/
def ReadsTight (symbols : List Symbol) (value : Alternatives) : Prop :=
  ∀ frames alternatives factors?,
    run (.type frames ⟨alternatives, factors?, none⟩) symbols =
      some (.type frames ⟨alternatives, factors?, some value⟩)

/-- Between ampersands, the symbols are read as the factors of a type. -/
def ReadsFactor (symbols : List Symbol) (value : Alternatives) : Prop :=
  ∀ frames alternatives factors?, ∃ next? operand,
    run (.type frames ⟨alternatives, factors?, none⟩) symbols =
        some (.type frames ⟨alternatives, next?, some operand⟩) ∧
      joined next? operand = joined factors? value

/-- Between bars, the symbols are read as the alternatives of a type. -/
def ReadsLoose (symbols : List Symbol) (value : Alternatives) : Prop :=
  ∀ frames alternatives, ∃ (next : Partial) (operand : Alternatives),
    run (.type frames ⟨alternatives, none, none⟩) symbols =
        some (.type frames (next.push operand)) ∧
      next.close operand = alternatives ++ value

section

variable {symbols : List Symbol} {value : Alternatives}

theorem ReadsTight.factor (h : ReadsTight symbols value) : ReadsFactor symbols value :=
  fun frames alternatives factors? =>
    ⟨factors?, value, h frames alternatives factors?, rfl⟩

theorem ReadsFactor.loose (h : ReadsFactor symbols value) : ReadsLoose symbols value :=
  fun frames alternatives => by
    obtain ⟨next?, operand, hrun, hjoined⟩ := h frames alternatives none
    exact ⟨⟨alternatives, next?, none⟩, operand, hrun, congrArg (alternatives ++ ·) hjoined⟩

/-- A text that is read between bars is read as a type. -/
theorem ReadsLoose.read_eq (h : ReadsLoose symbols value) : read symbols = some value := by
  obtain ⟨next, operand, hrun, hclose⟩ := h [] []
  rw [read, hrun]
  exact congrArg some hclose

theorem readsTight_word (text : String) : ReadsTight [.word text] [[.name (.word text)]] :=
  fun _ _ _ => rfl

theorem readsTight_quoted (text : String) : ReadsTight [.quoted text] [[.name (.quoted text)]] :=
  fun _ _ _ => rfl

/-- A type between parentheses becomes the operand of the type around them. -/
theorem run_parentheses {frames : List Frame} {outer next : Partial} {operand : Alternatives}
    (hnone : outer.operand? = none)
    (h : run (.type (.parentheses outer :: frames) {}) symbols =
      some (.type (.parentheses outer :: frames) (next.push operand))) :
    run (.type frames outer) (.mark '(' :: symbols ++ [.mark ')']) =
      some (.type frames (outer.push (next.close operand))) := by
  have hopen : run (.type frames outer) (.mark '(' :: symbols ++ [.mark ')']) =
      run (.type (.parentheses outer :: frames) {}) (symbols ++ [.mark ')']) := by
    rw [List.cons_append, run_cons, step, hnone]
    rfl
  rw [hopen, run_append_of_some h]
  rfl

/-- Parentheses make one operand of any type. -/
theorem ReadsLoose.parentheses (h : ReadsLoose symbols value) :
    ReadsTight (.mark '(' :: symbols ++ [.mark ')']) value := by
  intro frames alternatives factors?
  obtain ⟨next, operand, hrun, hclose⟩ :=
    h (.parentheses ⟨alternatives, factors?, none⟩ :: frames) []
  rw [run_parentheses rfl hrun, hclose]
  rfl

/-- Brackets are read after what binds as tight as they do. -/
theorem ReadsTight.list (h : ReadsTight symbols value) :
    ReadsTight (symbols ++ [.mark '[', .mark ']']) [[.list value]] := by
  intro frames alternatives factors?
  rw [run_append_of_some (h frames alternatives factors?)]
  rfl

/-- What stands before the type of a member is read as it is. -/
def ReadsHeading (heading : List Symbol) : Prop :=
  ∀ frames outer members,
    run (.heading frames outer members [] false) (heading ++ [.mark ':']) =
      some (.type (.member outer members heading :: frames) {})

/-- A member of an object is read up to its semicolon. -/
theorem run_member {heading : List Symbol} (hheading : ReadsHeading heading)
    {frames : List Frame} {outer next : Partial} {members : List (List Symbol × Alternatives)}
    {operand : Alternatives}
    (h : run (.type (.member outer members heading :: frames) {}) symbols =
      some (.type (.member outer members heading :: frames) (next.push operand))) :
    run (.heading frames outer members [] false) (heading ++ .mark ':' :: symbols ++ [.mark ';']) =
      some (.heading frames outer (members ++ [(heading, next.close operand)]) [] false) := by
  rw [← List.singleton_append, ← List.append_assoc, List.append_assoc,
    run_append_of_some (hheading frames outer members), run_append_of_some h]
  rfl

end

section

variable {α : Type} {symbols : α → List Symbol} {value : α → Alternatives} {items : List α}

/-- The members of an object are read one after another. -/
theorem run_members {heading : α → List Symbol}
    (h : ∀ item ∈ items, ReadsHeading (heading item) ∧ ReadsLoose (symbols item) (value item))
    (frames : List Frame) (outer : Partial) (members : List (List Symbol × Alternatives)) :
    run (.heading frames outer members [] false)
        (items.flatMap fun item => heading item ++ .mark ':' :: symbols item ++ [.mark ';']) =
      some (.heading frames outer
        (members ++ items.map fun item => (heading item, value item)) [] false) := by
  induction items generalizing members with
  | nil => rw [List.map_nil, List.append_nil]; rfl
  | cons item rest ih =>
    obtain ⟨⟨hheading, hvalue⟩, hrest⟩ := List.forall_mem_cons.mp h
    obtain ⟨next, operand, hrun, hclose⟩ :=
      hvalue (.member outer members (heading item) :: frames) []
    rw [List.flatMap_cons, run_append_of_some (run_member hheading hrun), hclose, ih hrest,
      List.append_assoc]
    rfl

/-- Braces make one operand of the members between them. -/
theorem run_record {frames : List Frame} {outer : Partial} {members : List Symbol}
    {given : List (List Symbol × Alternatives)} (hnone : outer.operand? = none)
    (h : run (.heading frames outer [] [] false) members =
      some (.heading frames outer given [] false)) :
    run (.type frames outer) (.mark '\x7b' :: members ++ [.mark '\x7d']) =
      some (.type frames (outer.push [[.record given]])) := by
  have hopen : run (.type frames outer) (.mark '\x7b' :: members ++ [.mark '\x7d']) =
      run (.heading frames outer [] [] false) (members ++ [.mark '\x7d']) := by
    rw [List.cons_append, run_cons, step, hnone]
    rfl
  rw [hopen, run_append_of_some h]
  rfl

/-- An object is one operand. -/
theorem readsTight_record {heading : α → List Symbol}
    (h : ∀ item ∈ items, ReadsHeading (heading item) ∧ ReadsLoose (symbols item) (value item)) :
    ReadsTight (.mark '\x7b' :: items.flatMap (fun item =>
        heading item ++ .mark ':' :: symbols item ++ [.mark ';']) ++ [.mark '\x7d'])
      [[.record (items.map fun item => (heading item, value item))]] :=
  fun frames _ _ => run_record rfl (run_members h frames _ [])

/-- Bars stand between the alternatives of a type. -/
theorem readsLoose_bars (h : ∀ item ∈ items, ReadsLoose (symbols item) (value item))
    (hne : items ≠ []) :
    ReadsLoose ([.mark '|'].intercalate (items.map symbols)) (items.flatMap value) := by
  induction items with
  | nil => exact absurd rfl hne
  | cons item rest ih =>
    obtain ⟨hitem, hrest⟩ := List.forall_mem_cons.mp h
    cases rest with
    | nil => simpa using hitem
    | cons next more =>
      intro frames alternatives
      obtain ⟨current, operand, hrun, hclose⟩ := hitem frames alternatives
      obtain ⟨last, final, hlast, hend⟩ :=
        ih hrest (List.cons_ne_nil _ _) frames (alternatives ++ value item)
      have hbar : run (.type frames (current.push operand)) [.mark '|'] =
          some (.type frames ⟨current.close operand, none, none⟩) := rfl
      refine ⟨last, final, ?_, ?_⟩
      · rw [List.map_cons, List.map_cons, List.intercalate_cons_cons, List.append_assoc,
          run_append_of_some hrun, run_append_of_some hbar, hclose]
        exact hlast
      · rw [hend, List.append_assoc, ← List.flatMap_cons]

/-- After an ampersand, further factors are added to those before it. -/
theorem run_ampersands (h : ∀ item ∈ items, ReadsFactor (symbols item) (value item))
    (hne : items ≠ []) (frames : List Frame) (alternatives : Alternatives) (before : List Factor) :
    ∃ next? operand,
      run (.type frames ⟨alternatives, some before, none⟩)
          ([.mark '&'].intercalate (items.map symbols)) =
          some (.type frames ⟨alternatives, next?, some operand⟩) ∧
        joined next? operand = [before ++ (items.map value).flatMap factors] := by
  induction items generalizing before with
  | nil => exact absurd rfl hne
  | cons item rest ih =>
    obtain ⟨hitem, hrest⟩ := List.forall_mem_cons.mp h
    obtain ⟨next?, operand, hrun, hjoined⟩ := hitem frames alternatives (some before)
    cases rest with
    | nil =>
      refine ⟨next?, operand, by rwa [List.map_singleton, List.intercalate_singleton], ?_⟩
      rw [hjoined, joined, List.map_singleton, List.flatMap_singleton]
    | cons next more =>
      obtain ⟨last?, final, hlast, hend⟩ :=
        ih hrest (List.cons_ne_nil _ _) (before ++ factors (value item))
      have hsign : run (.type frames ⟨alternatives, next?, some operand⟩) [.mark '&'] =
          some (.type frames ⟨alternatives, some (factors (joined next? operand)), none⟩) := rfl
      refine ⟨last?, final, ?_, ?_⟩
      · rw [List.map_cons, List.map_cons, List.intercalate_cons_cons, List.append_assoc,
          run_append_of_some hrun, run_append_of_some hsign, hjoined]
        exact hlast
      · rw [hend, List.append_assoc, ← List.flatMap_cons]
        rfl

/-- Ampersands stand between the factors of a type. -/
theorem readsFactor_ampersands (h : ∀ item ∈ items, ReadsFactor (symbols item) (value item))
    (hne : items ≠ []) :
    ReadsFactor ([.mark '&'].intercalate (items.map symbols)) (meet (items.map value)) := by
  match items, hne with
  | [item], _ => simpa [meet] using h item (List.mem_singleton_self item)
  | item :: next :: more, _ =>
    obtain ⟨hitem, hrest⟩ := List.forall_mem_cons.mp h
    intro frames alternatives factors?
    obtain ⟨next?, operand, hrun, hjoined⟩ := hitem frames alternatives factors?
    obtain ⟨last?, final, hlast, hend⟩ := run_ampersands hrest
      (List.cons_ne_nil _ _) frames alternatives (factors (joined next? operand))
    have hsign : run (.type frames ⟨alternatives, next?, some operand⟩) [.mark '&'] =
        some (.type frames ⟨alternatives, some (factors (joined next? operand)), none⟩) := rfl
    refine ⟨last?, final, ?_, ?_⟩
    · rw [List.map_cons, List.map_cons, List.intercalate_cons_cons, List.append_assoc,
        run_append_of_some hrun, run_append_of_some hsign]
      exact hlast
    · rw [hend, hjoined]
      cases factors? <;> simp [joined, factors, meet]

end

end Reader

end ApiTypes
