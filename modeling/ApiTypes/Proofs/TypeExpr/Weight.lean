import ApiTypes.Proofs.TypeExpr.Reader

/-!
# Missing parentheses make a type lighter

The weight of a normal form counts for every name the lists and the choices around it. Where
parentheses are missing, names are read outside the list or the choice that they belong to,
so less is counted for them. Names in a list count twice, and those in a choice twice but for
one of them, so that no other choice that is read instead makes up for it.
-/

namespace ApiTypes

namespace Factor

mutual

/-- The number of names and objects in a factor. -/
def size : Factor → Nat
  | .name _ => 1
  | .list item => sizeOfAny item
  | .record members => sizeOfMembers members + 1
  | .group alternatives => sizeOfAny alternatives

/-- The number of names and objects in the factors of a type. -/
def sizeOfAll : List Factor → Nat
  | [] => 0
  | factor :: rest => factor.size + sizeOfAll rest

/-- The number of names and objects in the alternatives of a type. -/
def sizeOfAny : List (List Factor) → Nat
  | [] => 0
  | factors :: rest => sizeOfAll factors + sizeOfAny rest

/-- The number of names and objects in the types of members. -/
def sizeOfMembers : List (List Symbol × List (List Factor)) → Nat
  | [] => 0
  | (_, type) :: rest => sizeOfAny type + sizeOfMembers rest

end

mutual

/-- The weight of a factor. -/
def weight : Factor → Nat
  | .name _ => 0
  | .list item => weightOfAny item + 2 * sizeOfAny item
  | .record members => weightOfMembers members
  | .group alternatives => weightOfAny alternatives + (2 * sizeOfAny alternatives - 1)

/-- The weight of the factors of a type. -/
def weightOfAll : List Factor → Nat
  | [] => 0
  | factor :: rest => factor.weight + weightOfAll rest

/-- The weight of the alternatives of a type. -/
def weightOfAny : List (List Factor) → Nat
  | [] => 0
  | factors :: rest => weightOfAll factors + weightOfAny rest

/-- The weight of the types of members. -/
def weightOfMembers : List (List Symbol × List (List Factor)) → Nat
  | [] => 0
  | (_, type) :: rest => weightOfAny type + weightOfMembers rest

end

/-- The sizes of factors add up. -/
@[simp] theorem sizeOfAll_append (first second : List Factor) :
    sizeOfAll (first ++ second) = sizeOfAll first + sizeOfAll second := by
  induction first with
  | nil => simp [sizeOfAll]
  | cons factor rest ih => simp [sizeOfAll, ih, Nat.add_assoc]

/-- The weights of factors add up. -/
@[simp] theorem weightOfAll_append (first second : List Factor) :
    weightOfAll (first ++ second) = weightOfAll first + weightOfAll second := by
  induction first with
  | nil => simp [weightOfAll]
  | cons factor rest ih => simp [weightOfAll, ih, Nat.add_assoc]

/-- The sizes of alternatives add up. -/
@[simp] theorem sizeOfAny_append (first second : Alternatives) :
    sizeOfAny (first ++ second) = sizeOfAny first + sizeOfAny second := by
  induction first with
  | nil => simp [sizeOfAny]
  | cons factors rest ih => simp [sizeOfAny, ih, Nat.add_assoc]

/-- The weights of alternatives add up. -/
@[simp] theorem weightOfAny_append (first second : Alternatives) :
    weightOfAny (first ++ second) = weightOfAny first + weightOfAny second := by
  induction first with
  | nil => simp [weightOfAny]
  | cons factors rest ih => simp [weightOfAny, ih, Nat.add_assoc]

end Factor

namespace Reader

open Factor

/-- What a type weighs more as a factor among others than alone. -/
def groupCost : Alternatives → Nat
  | [_] => 0
  | many => 2 * sizeOfAny many - 1

/-- A group costs less than twice its size. -/
theorem groupCost_le (type : Alternatives) : groupCost type ≤ 2 * sizeOfAny type - 1 := by
  unfold groupCost
  split <;> omega

/-- A group of several alternatives costs as much as it can. -/
theorem groupCost_of_lt {type : Alternatives} (h : 1 < type.length) :
    groupCost type = 2 * sizeOfAny type - 1 := by
  match type, h with
  | _ :: _ :: _, _ => rfl

/-- Grouping keeps the size. -/
@[simp] theorem sizeOfAll_factors (type : Alternatives) :
    sizeOfAll (factors type) = sizeOfAny type := by
  unfold factors
  split <;> simp [sizeOfAll, sizeOfAny, size]

/-- Grouping adds the cost of the group. -/
@[simp] theorem weightOfAll_factors (type : Alternatives) :
    weightOfAll (factors type) = weightOfAny type + groupCost type := by
  unfold factors groupCost
  split <;> simp [weightOfAll, weightOfAny, weight]

namespace Partial

/-- The number of names and objects that have been read before the operand. -/
def size (current : Partial) : Nat :=
  sizeOfAny current.alternatives + sizeOfAll (current.factors?.getD [])

/-- The weight of what has been read before the operand. -/
def weight (current : Partial) : Nat :=
  weightOfAny current.alternatives + weightOfAll (current.factors?.getD [])

variable (current : Partial) (operand : Alternatives)

/-- Closing an operand adds its size. -/
theorem sizeOfAny_close :
    sizeOfAny (current.close operand) = current.size + sizeOfAny operand := by
  unfold close size
  cases current.factors? <;> simp [joined, sizeOfAny, sizeOfAll, Nat.add_assoc]

/-- Closing an operand adds its weight, and its cost as a factor. -/
theorem weightOfAny_close :
    weightOfAny (current.close operand) = current.weight + weightOfAny operand +
      if current.factors?.isSome then groupCost operand else 0 := by
  unfold close weight
  cases current.factors? <;> simp [joined, weightOfAny, weightOfAll, Nat.add_assoc]

/-- Joining an operand adds its weight and its cost. -/
theorem weightOfAll_joined :
    weightOfAll (factors (joined current.factors? operand)) =
      weightOfAll (current.factors?.getD []) + weightOfAny operand + groupCost operand := by
  cases current.factors? <;> simp [joined, weightOfAny, weightOfAll, groupCost, Nat.add_assoc]

end Partial

/-! ### What is read weighs no more than what is meant -/

/-- An operand is read that brackets can follow: with the brackets, what has been read weighs
no more than it should. It weighs less if it has an operator outside brackets (`loose`), or if
parentheses are missing in it (`bad`). -/
structure LighterItem (before : Partial) (value : Alternatives) (after : Partial)
    (operand : Alternatives) (loose bad : Bool) : Prop where
  /-- Something is read. -/
  positive : 1 ≤ sizeOfAny operand
  /-- No name is read twice. -/
  total : after.size + sizeOfAny operand ≤ before.size + sizeOfAny value
  /-- The operand is no more than it should be. -/
  inner : sizeOfAny operand + loose.toNat ≤ sizeOfAny value
  /-- In a list, the operand weighs no more than it should. -/
  list : after.weight + weightOfAny operand + 2 * sizeOfAny operand + (bad || loose).toNat ≤
    before.weight + weightOfAny value + 2 * sizeOfAny value

/-- A type is read that any operator can follow. Before an ampersand it weighs less if it has a
bar outside brackets (`wide`). -/
structure Lighter (before : Partial) (value : Alternatives) (after : Partial)
    (operand : Alternatives) (wide loose bad : Bool) : Prop
    extends LighterItem before value after operand loose bad where
  /-- Before an ampersand, what has been read weighs no more than it should. -/
  factor : after.weight + weightOfAny operand + groupCost operand + (bad || wide).toNat ≤
    before.weight + weightOfAny value + groupCost value
  /-- At the end, what has been read weighs no more than it should. -/
  close : weightOfAny (after.close operand) + (bad || (before.factors?.isSome && wide)).toNat ≤
    weightOfAny (before.close value)

/-- Wherever a type may begin, the symbols are read as an operand that is no heavier in a list
than the given type. -/
def ReadsLighterItem (symbols : List Symbol) (value : Alternatives) (loose bad : Bool) : Prop :=
  ∀ frames alternatives factors?, ∃ (after : Partial) (operand : Alternatives),
    run (.type frames ⟨alternatives, factors?, none⟩) symbols =
        some (.type frames (after.push operand)) ∧
      LighterItem ⟨alternatives, factors?, none⟩ value after operand loose bad

/-- Wherever a type may begin, the symbols are read as something no heavier than the given
type. -/
def ReadsLighter (symbols : List Symbol) (value : Alternatives) (wide loose bad : Bool) : Prop :=
  ∀ frames alternatives factors?, ∃ (after : Partial) (operand : Alternatives),
    run (.type frames ⟨alternatives, factors?, none⟩) symbols =
        some (.type frames (after.push operand)) ∧
      Lighter ⟨alternatives, factors?, none⟩ value after operand wide loose bad

section

variable {symbols others : List Symbol} {value other : Alternatives}
  {wide wide' loose loose' bad bad' : Bool}

/-- What is read anywhere is read as an item. -/
theorem ReadsLighter.item (h : ReadsLighter symbols value wide loose bad) :
    ReadsLighterItem symbols value loose bad := fun frames alternatives factors? => by
  obtain ⟨after, operand, hrun, hlighter⟩ := h frames alternatives factors?
  exact ⟨after, operand, hrun, hlighter.toLighterItem⟩

/-- What is read before brackets is read without a loss. -/
theorem ReadsTight.lighter (h : ReadsTight symbols value) (hpositive : 1 ≤ sizeOfAny value) :
    ReadsLighter symbols value false false false := fun frames alternatives factors? =>
  ⟨⟨alternatives, factors?, none⟩, value, h frames alternatives factors?,
    { positive := hpositive, total := Nat.le_refl _, inner := Nat.le_refl _, list := Nat.le_refl _
      factor := Nat.le_refl _, close := by simp }⟩

/-- One of two flags counts no more than both together. -/
theorem toNat_or_le (a b : Bool) : (a || b).toNat ≤ a.toNat + b.toNat := by
  cases a <;> cases b <;> decide

/-- A flag counts no more than it or another one. -/
theorem toNat_le_or_left (a b : Bool) : a.toNat ≤ (a || b).toNat := by
  cases a <;> cases b <;> decide

/-- What has a size has alternatives. -/
theorem length_pos_of_size (h : 1 ≤ sizeOfAny value) : 1 ≤ value.length := by
  cases value with
  | nil => simp [sizeOfAny] at h
  | cons factors rest => simp

/-- An item that is read has a size. -/
theorem LighterItem.size_pos {before after : Partial} {operand : Alternatives}
    (h : LighterItem before value after operand loose bad) : 1 ≤ sizeOfAny value := by
  have hpositive := h.positive
  have hinner := h.inner
  omega

/-- What is read after a bar adds its weight to that of the type before it. -/
theorem Lighter.bar {before after last : Partial} {operand final : Alternatives}
    (h : Lighter before value after operand wide loose bad)
    (hother : Lighter ⟨after.close operand, none, none⟩ other last final wide' loose' bad') :
    Lighter before (value ++ other) last final true true (bad || bad') := by
  have hvalue := h.size_pos
  have hrest := hother.size_pos
  have hgroup : groupCost (value ++ other) = 2 * (sizeOfAny value + sizeOfAny other) - 1 := by
    have hvalueLength := length_pos_of_size hvalue
    have hotherLength := length_pos_of_size hrest
    rw [groupCost_of_lt (by rw [List.length_append]; omega), sizeOfAny_append]
  have hcost := groupCost_le value
  have hotherCost := groupCost_le other
  have hbads := toNat_or_le bad bad'
  have hbad := Bool.toNat_le bad
  have hbad' := Bool.toNat_le bad'
  obtain ⟨⟨-, htotal, -, -⟩, -, hclose⟩ := h
  obtain ⟨⟨hpositive, hlast, hinner, hlist⟩, hfactor, hend⟩ := hother
  have hclosed := Nat.le_trans (Nat.add_le_add_left (toNat_le_or_left bad _) _) hclose
  rw [Partial.weightOfAny_close before] at hclosed
  have hmiddle : (⟨after.close operand, none, none⟩ : Partial).weight =
      weightOfAny (after.close operand) := rfl
  have hmiddleSize : (⟨after.close operand, none, none⟩ : Partial).size =
      after.size + sizeOfAny operand := after.sizeOfAny_close operand
  have hmiddleClose : weightOfAny (Partial.close ⟨after.close operand, none, none⟩ other) =
      weightOfAny (after.close operand) + weightOfAny other := weightOfAny_append _ _
  have hlistOther := Nat.le_trans (Nat.add_le_add_left (toNat_le_or_left bad' _) _) hlist
  have hfactorOther := Nat.le_trans (Nat.add_le_add_left (toNat_le_or_left bad' _) _) hfactor
  have hendOther := Nat.le_trans (Nat.add_le_add_left (toNat_le_or_left bad' _) _) hend
  rw [hmiddleSize] at hlast
  rw [hmiddle] at hlistOther hfactorOther
  rw [hmiddleClose] at hendOther
  -- Nothing before the bar is in the list or the choice that follows: its names, which would
  -- count twice there, outweigh what the type before the bar costs as a factor.
  refine ⟨⟨hpositive, ?_, ?_, ?_⟩, ?_, ?_⟩
  · rw [sizeOfAny_append]
    omega
  · rw [sizeOfAny_append, Bool.toNat_true]
    omega
  · rw [sizeOfAny_append, weightOfAny_append, Bool.or_true, Bool.toNat_true]
    split at hclosed <;> omega
  · rw [hgroup, weightOfAny_append, Bool.or_true, Bool.toNat_true]
    split at hclosed <;> omega
  -- At the end the bar matters only after an ampersand, where both types should be in a choice.
  · rw [Partial.weightOfAny_close before, weightOfAny_append, hgroup]
    cases hsome : before.factors?.isSome
    · simp only [hsome, Bool.false_and, Bool.or_false, Bool.false_eq_true, if_false] at hclosed ⊢
      omega
    · simp only [hsome, Bool.and_true, Bool.or_true, Bool.toNat_true, if_true] at hclosed ⊢
      omega

/-- What is read after an ampersand adds its weight, and what it weighs more as a factor, to
that of the factors before it. -/
theorem Lighter.ampersand {before after last : Partial} {operand final : Alternatives}
    (h : Lighter before value after operand wide loose bad)
    (hother : Lighter ⟨after.alternatives, some (factors (joined after.factors? operand)), none⟩
      other last final wide' loose' bad') :
    Lighter before [factors value ++ factors other] last final (wide || wide') true
      (bad || bad' || (wide || wide')) := by
  have hvalue := h.size_pos
  have hflags : ∀ given : Bool,
      (bad || bad' || (wide || wide') || (given && (wide || wide'))).toNat ≤
        (bad || wide).toNat + (bad' || wide').toNat := by
    cases bad <;> cases bad' <;> cases wide <;> cases wide' <;> decide
  obtain ⟨⟨-, htotal, -, -⟩, hfirst, -⟩ := h
  obtain ⟨⟨hpositive, hlast, hinner, hlist⟩, hfactor, hend⟩ := hother
  have hmiddle : (⟨after.alternatives, some (factors (joined after.factors? operand)),
      none⟩ : Partial).weight = after.weight + weightOfAny operand + groupCost operand := by
    simp only [Partial.weight, Option.getD_some, Partial.weightOfAll_joined]
    omega
  have hmiddleSize : (⟨after.alternatives, some (factors (joined after.factors? operand)),
      none⟩ : Partial).size = after.size + sizeOfAny operand := by
    rw [← Partial.sizeOfAny_close]
    simp [Partial.size, Partial.close]
  have hsize : sizeOfAny [factors value ++ factors other] = sizeOfAny value + sizeOfAny other := by
    simp [sizeOfAny]
  have hweight : weightOfAny [factors value ++ factors other] =
      weightOfAny value + groupCost value + (weightOfAny other + groupCost other) := by
    simp [weightOfAny]
  have hgroup : groupCost [factors value ++ factors other] = 0 := rfl
  rw [hmiddleSize] at hlast
  rw [hmiddle] at hlist hfactor
  rw [Partial.weightOfAny_close ⟨after.alternatives, some (factors (joined after.factors? operand)),
    none⟩, hmiddle] at hend
  simp only [Option.isSome_some, Bool.true_and, ↓reduceIte] at hend
  refine ⟨⟨hpositive, ?_, ?_, ?_⟩, ?_, ?_⟩
  · rw [hsize]
    omega
  · rw [hsize, Bool.toNat_true]
    omega
  · rw [hsize, hweight, Bool.or_true, Bool.toNat_true]
    omega
  · have hflag := hflags true
    rw [Bool.true_and] at hflag
    rw [hweight, hgroup]
    omega
  · have hflag := hflags before.factors?.isSome
    rw [Partial.weightOfAny_close before, hweight, hgroup, ite_self]
    omega

/-- A bar ends a type before it, and another type begins. -/
theorem ReadsLighter.bars (h : ReadsLighter symbols value wide loose bad)
    (hother : ReadsLighter others other wide' loose' bad') :
    ReadsLighter (symbols ++ .mark '|' :: others) (value ++ other) true true (bad || bad') := by
  intro frames alternatives factors?
  obtain ⟨after, operand, hrun, hfirst⟩ := h frames alternatives factors?
  obtain ⟨last, final, hlast, hsecond⟩ := hother frames (after.close operand) none
  refine ⟨last, final, ?_, hfirst.bar hsecond⟩
  rw [run_append_of_some hrun]
  exact hlast

/-- An ampersand ends the factors before it, and another factor begins. -/
theorem ReadsLighter.ampersands (h : ReadsLighter symbols value wide loose bad)
    (hother : ReadsLighter others other wide' loose' bad') :
    ReadsLighter (symbols ++ .mark '&' :: others) [factors value ++ factors other] (wide || wide')
      true (bad || bad' || (wide || wide')) := by
  intro frames alternatives factors?
  obtain ⟨after, operand, hrun, hfirst⟩ := h frames alternatives factors?
  obtain ⟨last, final, hlast, hsecond⟩ :=
    hother frames after.alternatives (some (factors (joined after.factors? operand)))
  refine ⟨last, final, ?_, hfirst.ampersand hsecond⟩
  rw [run_append_of_some hrun]
  exact hlast

/-- A type that begins anew ends as one that is no heavier, and lighter if parentheses are
missing in it. -/
theorem ReadsLighter.whole (h : ReadsLighter symbols value wide loose bad) (frames : List Frame) :
    ∃ (after : Partial) (operand : Alternatives),
      run (.type frames {}) symbols = some (.type frames (after.push operand)) ∧
        1 ≤ sizeOfAny (after.close operand) ∧
        sizeOfAny (after.close operand) ≤ sizeOfAny value ∧
        weightOfAny (after.close operand) + bad.toNat ≤ weightOfAny value := by
  obtain ⟨after, operand, hrun, ⟨hpositive, htotal, -, -⟩, -, hclose⟩ := h frames [] none
  have hempty : (⟨[], none, none⟩ : Partial).size = 0 := rfl
  have hvalue : Partial.close ⟨[], none, none⟩ value = value := rfl
  rw [hempty, Nat.zero_add] at htotal
  rw [hvalue, Option.isSome_none, Bool.false_and, Bool.or_false] at hclose
  refine ⟨after, operand, hrun, ?_, ?_, hclose⟩
  · rw [Partial.sizeOfAny_close]
    omega
  · rw [Partial.sizeOfAny_close]
    exact htotal

/-- The symbols are read as a type that is no heavier, and lighter if parentheses are missing. -/
theorem ReadsLighter.exists_read (h : ReadsLighter symbols value wide loose bad) :
    ∃ given, read symbols = some given ∧ weightOfAny given + bad.toNat ≤ weightOfAny value := by
  obtain ⟨after, operand, hrun, -, -, hweight⟩ := h.whole []
  exact ⟨after.close operand, by rw [read, hrun]; rfl, hweight⟩

/-- Between parentheses a type is one operand. -/
theorem ReadsLighter.parentheses (h : ReadsLighter symbols value wide loose bad)
    (frames : List Frame) (alternatives : Alternatives) (factors? : Option (List Factor)) :
    ∃ operand, run (.type frames ⟨alternatives, factors?, none⟩)
        (.mark '(' :: symbols ++ [.mark ')']) =
          some (.type frames (Partial.push ⟨alternatives, factors?, none⟩ operand)) ∧
      LighterItem ⟨alternatives, factors?, none⟩ value ⟨alternatives, factors?, none⟩ operand
        false bad ∧ weightOfAny operand + bad.toNat ≤ weightOfAny value := by
  obtain ⟨after, operand, hrun, hpositive, hsize, hweight⟩ :=
    h.whole (.parentheses ⟨alternatives, factors?, none⟩ :: frames)
  refine ⟨after.close operand, run_parentheses rfl hrun, ⟨hpositive, ?_, hsize, ?_⟩, hweight⟩
  · omega
  · rw [Bool.or_false]
    omega

/-- A type between parentheses can be an item. -/
theorem ReadsLighter.parenthesesItem (h : ReadsLighter symbols value wide loose bad) :
    ReadsLighterItem (.mark '(' :: symbols ++ [.mark ')']) value false bad :=
  fun frames alternatives factors? => by
    obtain ⟨operand, hrun, hitem, -⟩ := h.parentheses frames alternatives factors?
    exact ⟨_, operand, hrun, hitem⟩

/-- A choice between parentheses can be a factor. -/
theorem ReadsLighter.parenthesesFactor (h : ReadsLighter symbols value wide loose bad)
    (hmany : 1 < value.length) :
    ReadsLighter (.mark '(' :: symbols ++ [.mark ')']) value false false bad :=
  fun frames alternatives factors? => by
    obtain ⟨operand, hrun, hitem, hweight⟩ := h.parentheses frames alternatives factors?
    have hinner := hitem.inner
    rw [Bool.toNat_false] at hinner
    have hcost := groupCost_le operand
    have hvalue := groupCost_of_lt hmany
    refine ⟨_, operand, hrun, hitem, ?_, ?_⟩
    · rw [Bool.or_false]
      omega
    · rw [Bool.and_false, Bool.or_false, Partial.weightOfAny_close, Partial.weightOfAny_close]
      split <;> omega

/-- Brackets are read after an item. They miss parentheses if the item has an operator. -/
theorem ReadsLighterItem.list (h : ReadsLighterItem symbols value loose bad)
    (hwide : wide = true → loose = true) :
    ReadsLighter (symbols ++ [.mark '[', .mark ']']) [[.list value]] wide loose (bad || loose) := by
  intro frames alternatives factors?
  obtain ⟨after, operand, hrun, hpositive, htotal, hinner, hlist⟩ := h frames alternatives factors?
  have hsize : ∀ item, sizeOfAny [[.list item]] = sizeOfAny item := fun _ => by
    simp [sizeOfAny, sizeOfAll, size]
  have hweight : ∀ item, weightOfAny [[.list item]] = weightOfAny item + 2 * sizeOfAny item :=
    fun _ => by simp [weightOfAny, weightOfAll, weight]
  have hgroup : ∀ item, groupCost [[.list item]] = 0 := fun _ => rfl
  have hflag : ∀ given : Bool, (bad || loose || (given && wide)) = (bad || loose) := by
    cases wide <;> cases loose <;> simp_all
  refine ⟨after, [[.list operand]], ?_, ⟨?_, ?_, ?_, ?_⟩, ?_, ?_⟩
  · rw [run_append_of_some hrun]
    rfl
  · rwa [hsize]
  · rwa [hsize, hsize]
  · rwa [hsize, hsize]
  · rw [hsize, hsize, hweight, hweight, Bool.or_assoc, Bool.or_self]
    omega
  · have hfactor := hflag true
    rw [Bool.true_and] at hfactor
    rw [hweight, hweight, hgroup, hgroup, hfactor]
    omega
  · rw [Partial.weightOfAny_close, Partial.weightOfAny_close, hweight, hweight, hgroup, hgroup,
      hflag, ite_self, ite_self]
    omega

end

section

variable {α : Type} {symbols : α → List Symbol} {value : α → Alternatives}
  {wide loose bad : α → Bool} {items : List α}

/-- Several types with bars between them. -/
theorem readsLighter_bars
    (h : ∀ item ∈ items,
      ReadsLighter (symbols item) (value item) (wide item) (loose item) (bad item))
    (hmany : 1 < items.length) :
    ReadsLighter ([.mark '|'].intercalate (items.map symbols)) (items.flatMap value) true true
      (items.any bad) := by
  induction items with
  | nil => cases hmany
  | cons item rest ih =>
    obtain ⟨hitem, hrest⟩ := List.forall_mem_cons.mp h
    match rest, hmany with
    | [next], _ => simpa using hitem.bars (hrest next (List.mem_singleton_self next))
    | next :: other :: more, _ => simpa using hitem.bars (ih hrest (by simp))

/-- Several types with ampersands between them. They miss parentheses if one of them has a bar
outside brackets. -/
theorem readsLighter_ampersands
    (h : ∀ item ∈ items,
      ReadsLighter (symbols item) (value item) (wide item) (loose item) (bad item))
    (hmany : 1 < items.length) :
    ReadsLighter ([.mark '&'].intercalate (items.map symbols)) (meet (items.map value))
      (items.any wide) true (items.any bad || items.any wide) := by
  induction items with
  | nil => cases hmany
  | cons item rest ih =>
    obtain ⟨hitem, hrest⟩ := List.forall_mem_cons.mp h
    match rest, hmany with
    | [next], _ =>
      have hboth := hitem.ampersands (hrest next (List.mem_singleton_self next))
      simpa [meet] using hboth
    | next :: other :: more, _ =>
      have hboth := hitem.ampersands (ih hrest (by simp))
      have hflags : ∀ b b' w w' : Bool,
          (b || (b' || w') || (w || w')) = (b || b' || (w || w')) := by decide
      rw [factors_meet, hflags] at hboth
      simpa [meet] using hboth

/-- The members of an object are read one after another. -/
theorem run_members_lighter {heading : α → List Symbol}
    (h : ∀ item ∈ items, ReadsHeading (heading item) ∧
      ReadsLighter (symbols item) (value item) (wide item) (loose item) (bad item))
    (frames : List Frame) (outer : Partial) (members : List (List Symbol × Alternatives)) :
    ∃ given, run (.heading frames outer members [] false)
        (items.flatMap fun item => heading item ++ .mark ':' :: symbols item ++ [.mark ';']) =
          some (.heading frames outer (members ++ given) [] false) ∧
      sizeOfMembers given ≤ sizeOfMembers (items.map fun item => (heading item, value item)) ∧
      weightOfMembers given + (items.any bad).toNat ≤
        weightOfMembers (items.map fun item => (heading item, value item)) := by
  induction items generalizing members with
  | nil => exact ⟨[], by rw [List.append_nil]; rfl, Nat.le_refl _, Nat.le_refl _⟩
  | cons item rest ih =>
    obtain ⟨⟨hheading, hvalue⟩, hrest⟩ := List.forall_mem_cons.mp h
    obtain ⟨after, operand, hrun, -, hsize, hweight⟩ :=
      hvalue.whole (.member outer members (heading item) :: frames)
    obtain ⟨given, hmembers, hsizes, hweights⟩ :=
      ih hrest (members ++ [(heading item, after.close operand)])
    have hflag := toNat_or_le (bad item) (rest.any bad)
    refine ⟨(heading item, after.close operand) :: given, ?_, ?_, ?_⟩
    · rw [List.flatMap_cons, run_append_of_some (run_member hheading hrun), hmembers,
        List.append_assoc]
      rfl
    · simp only [List.map_cons, sizeOfMembers]
      omega
    · simp only [List.map_cons, weightOfMembers, List.any_cons]
      omega

/-- An object is one operand, no heavier than its members should be. -/
theorem readsLighter_record {heading : α → List Symbol}
    (h : ∀ item ∈ items, ReadsHeading (heading item) ∧
      ReadsLighter (symbols item) (value item) (wide item) (loose item) (bad item)) :
    ReadsLighter (.mark '\x7b' :: items.flatMap (fun item =>
        heading item ++ .mark ':' :: symbols item ++ [.mark ';']) ++ [.mark '\x7d'])
      [[.record (items.map fun item => (heading item, value item))]] false false
      (items.any bad) := by
  intro frames alternatives factors?
  obtain ⟨given, hrun, hsizes, hweights⟩ :=
    run_members_lighter h frames ⟨alternatives, factors?, none⟩ []
  have hsize : ∀ members, sizeOfAny [[.record members]] = sizeOfMembers members + 1 := fun _ => by
    simp [sizeOfAny, sizeOfAll, size]
  have hweight : ∀ members, weightOfAny [[.record members]] = weightOfMembers members := fun _ => by
    simp [weightOfAny, weightOfAll, weight]
  have hgroup : ∀ members, groupCost [[.record members]] = 0 := fun _ => rfl
  refine ⟨⟨alternatives, factors?, none⟩, [[.record given]], run_record rfl hrun,
    ⟨?_, ?_, ?_, ?_⟩, ?_, ?_⟩
  · rw [hsize]
    omega
  · rw [hsize, hsize]
    omega
  · rw [hsize, hsize, Bool.toNat_false]
    omega
  · rw [hsize, hsize, hweight, hweight, Bool.or_false]
    omega
  · rw [hweight, hweight, hgroup, hgroup, Bool.or_false]
    omega
  · rw [Partial.weightOfAny_close, Partial.weightOfAny_close, hweight, hweight, hgroup, hgroup,
      ite_self, Bool.and_false, Bool.or_false]
    omega

end

end Reader

end ApiTypes
