import Mathlib.Data.List.Induction
import Mathlib.Data.List.Nodup
import ApiTypes.Operation.Collect
import ApiTypes.Proofs.Calculation

/-!
# Parameters by location and name

Parameters are put over those that came before, and then into groups. Two functions do this, each
with a default of its own for a location that is missing. This file connects them with the list
of all parameters: for each location and name the last parameter counts, and its group stands
where the location is first met, behind the known ones.
-/

namespace ApiTypes

/-! ### First appearances -/

section FirstAppearances

variable {α β : Type} [DecidableEq α] [DecidableEq β]

/-- An item at the end is new or was there. -/
theorem eraseDups_concat (xs : List α) (x : α) :
    (xs ++ [x]).eraseDups = if x ∈ xs then xs.eraseDups else xs.eraseDups ++ [x] := by
  rw [List.eraseDups_append]
  split
  · rename_i hmem
    simp [List.removeAll, hmem]
  · rename_i hnew
    simp [List.removeAll, hnew, List.eraseDups_cons]

theorem nodup_eraseDups (xs : List α) : xs.eraseDups.Nodup := by
  induction xs using List.reverseRecOn with
  | nil => exact List.nodup_nil
  | append_singleton rest x ih =>
    rw [eraseDups_concat]
    split
    · exact ih
    · rename_i hnew
      rw [← List.concat_eq_append]
      exact (List.nodup_concat ..).mpr ⟨mt List.mem_eraseDups.mp hnew, ih⟩

/-- What is left out first is left out later. -/
theorem eraseDups_map_eraseDups (f : α → β) (xs : List α) :
    (xs.eraseDups.map f).eraseDups = (xs.map f).eraseDups := by
  induction xs using List.reverseRecOn with
  | nil => rfl
  | append_singleton rest x ih =>
    rw [eraseDups_concat, List.map_append, List.map_singleton, eraseDups_concat (rest.map f)]
    split
    · rename_i hmem
      rw [if_pos (List.mem_map_of_mem hmem), ih]
    · have hiff : f x ∈ rest.eraseDups.map f ↔ f x ∈ rest.map f := by
        simp only [List.mem_map, List.mem_eraseDups]
      rw [List.map_append, List.map_singleton, eraseDups_concat, ih]
      simp only [hiff]

theorem filter_eraseDups (p : α → Bool) (xs : List α) :
    xs.eraseDups.filter p = (xs.filter p).eraseDups := by
  induction xs using List.reverseRecOn with
  | nil => rfl
  | append_singleton rest x ih =>
    rw [eraseDups_concat, List.filter_append, apply_ite (List.filter p), List.filter_append, ih]
    cases hx : p x with
    | false => simp [hx]
    | true =>
      have hiff : x ∈ rest.filter p ↔ x ∈ rest := by simp [hx]
      simp only [List.filter_singleton, hx, cond_true, eraseDups_concat, hiff]

end FirstAppearances

namespace Parameter

/-- Where a parameter belongs: its location and its name. -/
@[ext]
structure Slot where
  /-- The location. -/
  location : String
  /-- The name. -/
  name : String
deriving DecidableEq

/-- The slot of a parameter, when its location and its name are texts or missing. -/
def slot (parameter : LocatedParameter) : Slot where
  location := (group parameter.members).text?.getD ""
  name := (name parameter.members).text?.getD ""

/-- The location and the name of a parameter are texts or missing. -/
structure IsPlaced (parameter : LocatedParameter) : Prop where
  /-- The location, that of a query when it is missing. -/
  location : group parameter.members = .str (slot parameter).location
  /-- The name. -/
  name : name parameter.members = .str (slot parameter).name

/-- No parameter without a location has the name of one whose location is empty or that of a
query. -/
def Unmixed (parameters : List LocatedParameter) : Prop :=
  ∀ p ∈ parameters, p.members.get? "in" = none → ∀ q ∈ parameters, ∀ location ∈ ["", "query"],
    q.members.get? "in" = some (.str location) → (slot p).name ≠ (slot q).name

/-- The last parameter of a slot: one of the operation, or else one of the path. -/
def chosen (shared own : List LocatedParameter) (place : Slot) : Option LocatedParameter :=
  (own.reverse.find? (slot · = place)).or (shared.reverse.find? (slot · = place))

/-- The locations of parameters: the known ones first, then the others in the order of their
first parameters. -/
def locationsOf (parameters : List LocatedParameter) : List String :=
  let locations := parameters.map fun p => (slot p).location
  parameterLocations.filter (· ∈ locations) ++
    (locations.filter (· ∉ parameterLocations)).eraseDups

/-- The member that stands for a parameter. -/
def member (parameter : LocatedParameter) (type : TypeExpr) : Property TypeExpr where
  name := name parameter.members
  type
  optional := !((group parameter.members).isText "path" ||
    (getOr parameter.members "required" (.bool false)).truthy)
  comment := parameter.members.get "description"

/-! ### Merging -/

/-- Whether a parameter takes the place of another one. -/
def replaces (parameter other : LocatedParameter) : Bool :=
  (name other.members).sameKey (name parameter.members) &&
    (site other.members).sameKey (site parameter.members)

theorem sameKey_str (s t : String) : (Json.str s).sameKey (.str t) = decide (s = t) := rfl

/-- A location that is written tells parameters apart as it groups them. -/
theorem IsPlaced.site_cases {parameter : LocatedParameter} (h : IsPlaced parameter) :
    parameter.members.get? "in" = none ∧ site parameter.members = .str "" ∧
        (slot parameter).location = "query" ∨
      parameter.members.get? "in" = some (.str (slot parameter).location) ∧
        site parameter.members = .str (slot parameter).location := by
  have hgroup := h.location
  unfold group getOr at hgroup
  unfold site getOr
  cases hlocation : parameter.members.get? "in" with
  | none =>
    rw [hlocation] at hgroup
    exact Or.inl ⟨rfl, rfl, (Json.str.inj hgroup).symm⟩
  | some location =>
    rw [hlocation] at hgroup
    exact Or.inr ⟨congrArg some hgroup, hgroup⟩

/-- Parameters of one slot replace each other, when a missing location is never mixed with one
that is written. -/
theorem replaces_eq {parameters : List LocatedParameter} (hmixed : Unmixed parameters)
    (hplaced : ∀ p ∈ parameters, IsPlaced p) {p q : LocatedParameter} (hp : p ∈ parameters)
    (hq : q ∈ parameters) : replaces p q = decide (slot q = slot p) := by
  have hslot : slot q = slot p ↔
      (slot q).name = (slot p).name ∧ (slot q).location = (slot p).location := by
    rw [Slot.ext_iff, and_comm]
  have hsite (hname : (slot q).name = (slot p).name) :
      (site q.members).sameKey (site p.members) =
        decide ((slot q).location = (slot p).location) := by
    rcases (hplaced p hp).site_cases with ⟨hpin, hpsite, hpgroup⟩ | ⟨hpin, hpsite⟩ <;>
      rcases (hplaced q hq).site_cases with ⟨hqin, hqsite, hqgroup⟩ | ⟨hqin, hqsite⟩ <;>
      rw [hpsite, hqsite, sameKey_str]
    · rw [hpgroup, hqgroup]
      rfl
    · -- A query of the same name is written, or one whose location is empty.
      have hne (location : String) (hmem : location ∈ ["", "query"]) :
          (slot q).location ≠ location := by
        rintro rfl
        exact hmixed p hp hpin q hq _ hmem hqin hname.symm
      rw [hpgroup, decide_eq_false (hne "" (by simp)), decide_eq_false (hne "query" (by simp))]
    · have hne (location : String) (hmem : location ∈ ["", "query"]) :
          location ≠ (slot p).location := by
        rintro rfl
        exact hmixed q hq hqin p hp _ hmem hpin hname
      rw [hqgroup, decide_eq_false (hne "" (by simp)), decide_eq_false (hne "query" (by simp))]
  rw [replaces, (hplaced p hp).name, (hplaced q hq).name, sameKey_str]
  by_cases hname : (slot q).name = (slot p).name
  · simp [hname, hslot, hsite hname]
  · simp [hname, hslot]

/-- What is put over others keeps their slots, or has a new one. -/
theorem map_slot_put {parameter : LocatedParameter} {others : List LocatedParameter}
    (h : ∀ other ∈ others, replaces parameter other = decide (slot other = slot parameter)) :
    (put parameter others).map slot =
      if slot parameter ∈ others.map slot then others.map slot
      else others.map slot ++ [slot parameter] := by
  induction others with
  | nil => rfl
  | cons first rest ih =>
    obtain ⟨hfirst, hrest⟩ := List.forall_mem_cons.mp h
    rw [put, ← replaces, hfirst]
    by_cases heq : slot first = slot parameter
    · simp [heq]
    · rw [if_neg (by simpa using heq), List.map_cons, ih hrest]
      simp only [List.map_cons, List.mem_cons, Ne.symm heq, false_or]
      split <;> rfl

/-- What is put over others is alone in its slot, and the others are where they were. -/
theorem filter_put {parameter : LocatedParameter} {others : List LocatedParameter}
    (h : ∀ other ∈ others, replaces parameter other = decide (slot other = slot parameter))
    (hdistinct : (others.map slot).Nodup) (place : Slot) :
    (put parameter others).filter (slot · = place) =
      if slot parameter = place then [parameter] else others.filter (slot · = place) := by
  induction others with
  | nil => simp only [put, List.filter_singleton, List.filter_nil, Bool.cond_decide]
  | cons first rest ih =>
    obtain ⟨hfirst, hrest⟩ := List.forall_mem_cons.mp h
    obtain ⟨hnew, hdistinct⟩ := List.nodup_cons.mp hdistinct
    rw [put, ← replaces, hfirst]
    by_cases heq : slot first = slot parameter
    · have hnone : rest.filter (slot · = slot parameter) = [] := by
        refine List.filter_eq_nil_iff.mpr fun other hmem hother => hnew ?_
        rw [heq, ← of_decide_eq_true hother]
        exact List.mem_map_of_mem hmem
      rw [if_pos (by simpa using heq)]
      split
      · rename_i hplace
        subst hplace
        rw [List.filter_cons_of_pos (by simp), hnone]
      · rename_i hplace
        rw [List.filter_cons_of_neg (by simpa using hplace),
          List.filter_cons_of_neg (by simpa [heq] using hplace)]
    · rw [if_neg (by simpa using heq), List.filter_cons, ih hrest hdistinct, List.filter_cons]
      split
      · rename_i hmem
        have hother : slot parameter ≠ place := fun hplace =>
          heq ((of_decide_eq_true hmem).trans hplace.symm)
        rw [if_neg hother, if_neg hother]
      · rfl

/-- Parameters, each put over those before it. -/
def merged (parameters : List LocatedParameter) : List LocatedParameter :=
  parameters.foldl (fun others parameter => put parameter others) []

theorem mem_of_mem_merged {parameters : List LocatedParameter} {parameter : LocatedParameter}
    (h : parameter ∈ merged parameters) : parameter ∈ parameters := by
  induction parameters using List.reverseRecOn with
  | nil => cases h
  | append_singleton rest last ih =>
    rw [merged, List.foldl_concat] at h
    rcases mem_put h with rfl | h
    · exact List.mem_concat_self
    · exact List.mem_append_left _ (ih h)

/-- Parameters that replace each other exactly in their slots. -/
def ReplacesInSlot (parameters : List LocatedParameter) : Prop :=
  ∀ p ∈ parameters, ∀ q ∈ parameters, replaces p q = decide (slot q = slot p)

/-- Slots keep their first positions. -/
theorem map_slot_merged {parameters : List LocatedParameter} (h : ReplacesInSlot parameters) :
    (merged parameters).map slot = (parameters.map slot).eraseDups := by
  induction parameters using List.reverseRecOn with
  | nil => rfl
  | append_singleton rest last ih =>
    have hrest : ReplacesInSlot rest := fun p hp q hq =>
      h p (List.mem_append_left _ hp) q (List.mem_append_left _ hq)
    have hlast : ∀ other ∈ merged rest, replaces last other = decide (slot other = slot last) :=
      fun other hmem => h last List.mem_concat_self other
        (List.mem_append_left _ (mem_of_mem_merged hmem))
    rw [merged, List.foldl_concat, ← merged, map_slot_put hlast, ih hrest, List.map_append,
      List.map_singleton, eraseDups_concat]
    simp only [List.mem_eraseDups]

/-- The last parameter of each slot is there. -/
theorem filter_merged {parameters : List LocatedParameter} (h : ReplacesInSlot parameters)
    (place : Slot) :
    (merged parameters).filter (slot · = place) =
      (parameters.reverse.find? (slot · = place)).toList := by
  induction parameters using List.reverseRecOn with
  | nil => rfl
  | append_singleton rest last ih =>
    have hrest : ReplacesInSlot rest := fun p hp q hq =>
      h p (List.mem_append_left _ hp) q (List.mem_append_left _ hq)
    have hlast : ∀ other ∈ merged rest, replaces last other = decide (slot other = slot last) :=
      fun other hmem => h last List.mem_concat_self other
        (List.mem_append_left _ (mem_of_mem_merged hmem))
    have hdistinct : ((merged rest).map slot).Nodup := by
      rw [map_slot_merged hrest]
      exact nodup_eraseDups _
    rw [merged, List.foldl_concat, ← merged, filter_put hlast hdistinct, ih hrest,
      List.reverse_concat, List.find?_cons]
    by_cases hplace : slot last = place <;> simp [hplace]

/-! ### Grouping -/

/-- A parameter and the type of its schema. -/
abbrev WithType := LocatedParameter × TypeExpr

/-- Parameters with their types, each put into its group. -/
def grouped (typed : List WithType) : List (Json × List (Property TypeExpr)) :=
  typed.foldl (fun groups t => addToGroup (group t.1.members) (member t.1 t.2) groups) []

/-- The members that stand for the parameters of a location. -/
def membersAt (typed : List WithType) (location : String) : List (Property TypeExpr) :=
  (typed.filter fun t => (slot t.1).location = location).map fun t => member t.1 t.2

/-- The groups of some locations, when it is known which members they have. -/
def groupsOf (members : String → List (Property TypeExpr)) (locations : List String) :
    List (Json × List (Property TypeExpr)) :=
  locations.map fun location => (.str location, members location)

@[simp] theorem groupsOf_cons (members : String → List (Property TypeExpr)) (location : String)
    (rest : List String) :
    groupsOf members (location :: rest) =
      (.str location, members location) :: groupsOf members rest := rfl

@[simp] theorem groupsOf_append (members : String → List (Property TypeExpr))
    (first second : List String) :
    groupsOf members (first ++ second) = groupsOf members first ++ groupsOf members second :=
  List.map_append

theorem addToGroup_groupsOf {members : String → List (Property TypeExpr)}
    {locations : List String} (hdistinct : locations.Nodup) {location : String}
    (hnone : location ∉ locations → members location = []) (added : Property TypeExpr) :
    addToGroup (.str location) added (groupsOf members locations) =
      groupsOf (fun l => if l = location then members l ++ [added] else members l)
        (if location ∈ locations then locations else locations ++ [location]) := by
  induction locations with
  | nil => simp [groupsOf, addToGroup, hnone]
  | cons first rest ih =>
    obtain ⟨hnew, hdistinct⟩ := List.nodup_cons.mp hdistinct
    rw [groupsOf_cons, addToGroup, sameKey_str]
    by_cases heq : first = location
    · subst heq
      have hrest : groupsOf (fun l => if l = first then members l ++ [added] else members l) rest =
          groupsOf members rest := by
        refine List.map_congr_left fun l hmem => congrArg (Prod.mk (Json.str l)) ?_
        exact if_neg (ne_of_mem_of_not_mem hmem hnew)
      rw [if_pos (by simp), if_pos (List.mem_cons_self ..), groupsOf_cons, hrest, if_pos rfl]
    · have hmem : location ∈ first :: rest ↔ location ∈ rest := by simp [Ne.symm heq]
      rw [if_neg (by simpa using heq), ih hdistinct fun h => hnone (mt hmem.mp h)]
      simp only [hmem]
      split <;> simp [heq]

theorem membersAt_concat (typed : List WithType) (last : WithType) (location : String) :
    membersAt (typed ++ [last]) location =
      if location = (slot last.1).location then membersAt typed location ++ [member last.1 last.2]
      else membersAt typed location := by
  rw [membersAt, List.filter_append, List.map_append, ← membersAt, List.filter_singleton]
  by_cases heq : location = (slot last.1).location
  · simp [heq]
  · simp [heq, Ne.symm heq]

/-- There is one group for each location, with its members in order. -/
theorem grouped_eq {typed : List WithType} (hplaced : ∀ t ∈ typed, IsPlaced t.1) :
    grouped typed =
      groupsOf (membersAt typed) (typed.map fun t => (slot t.1).location).eraseDups := by
  induction typed using List.reverseRecOn with
  | nil => rfl
  | append_singleton rest last ih =>
    have hrest := ih fun t hmem => hplaced t (List.mem_append_left _ hmem)
    have hlast := (hplaced last List.mem_concat_self).location
    have hnone (h : (slot last.1).location ∉ (rest.map fun t => (slot t.1).location).eraseDups) :
        membersAt rest (slot last.1).location = [] := by
      refine List.map_eq_nil_iff.mpr (List.filter_eq_nil_iff.mpr fun t hmem ht => h ?_)
      rw [List.mem_eraseDups, ← of_decide_eq_true ht]
      exact List.mem_map_of_mem hmem
    rw [grouped, List.foldl_concat, ← grouped, hrest, hlast,
      addToGroup_groupsOf (nodup_eraseDups _) hnone, List.map_append, List.map_singleton,
      eraseDups_concat]
    simp only [List.mem_eraseDups, ← membersAt_concat]

theorem filter_groupsOf (p : Json → Bool) (members : String → List (Property TypeExpr))
    (locations : List String) :
    (groupsOf members locations).filter (p ·.1) =
      groupsOf members (locations.filter fun location => p (.str location)) :=
  List.filter_map

/-- The known locations come first. -/
theorem orderGroups_groupsOf (members : String → List (Property TypeExpr))
    {locations : List String} (hdistinct : locations.Nodup) :
    orderGroups (groupsOf members locations) =
      groupsOf members (parameterLocations.filter (· ∈ locations) ++
        locations.filter (· ∉ parameterLocations)) := by
  have hknown (known : List String) :
      known.flatMap (fun location => (groupsOf members locations).filter (·.1.isText location)) =
        groupsOf members (known.filter (· ∈ locations)) := by
    induction known with
    | nil => rfl
    | cons location rest ih =>
      have hone : locations.filter (fun l => (Json.str l).isText location) =
          if location ∈ locations then [location] else [] := by
        refine (List.filter_beq location).trans ?_
        rw [hdistinct.count]
        split <;> rfl
      rw [List.flatMap_cons, ih, filter_groupsOf (Json.isText location), hone]
      by_cases hmem : location ∈ locations <;> simp [hmem, groupsOf]
  have hothers : (groupsOf members locations).filter
      (fun group => !parameterLocations.any fun location => group.1.isText location) =
        groupsOf members (locations.filter (· ∉ parameterLocations)) := by
    rw [filter_groupsOf fun value => !parameterLocations.any fun location => value.isText location]
    refine congrArg _ (List.filter_congr fun location _ => ?_)
    have hany : (parameterLocations.any fun known => location == known) =
        decide (location ∈ parameterLocations) :=
      List.any_beq.trans (List.elem_eq_mem ..)
    simp [Json.isText, hany]
  rw [orderGroups, hknown, hothers, groupsOf_append]

/-- The names of the parameters in the path are those of their location. -/
theorem pathParameterNames_eq {parameters : List LocatedParameter}
    (hplaced : ∀ p ∈ parameters, IsPlaced p) {names : List Json}
    (h : Context.pathParameterNames parameters = .ok names) :
    names = (parameters.filter fun p => (slot p).location = "path").map
      fun p => name p.members := by
  induction parameters generalizing names with
  | nil => cases h; rfl
  | cons first rest ih =>
    obtain ⟨hfirst, hrest⟩ := List.forall_mem_cons.mp hplaced
    have hpath : isInPath first.members = decide ((slot first).location = "path") := by
      rcases hfirst.site_cases with ⟨hin, _, hlocation⟩ | ⟨hin, _⟩
      · rw [isInPath, Members.get, hin, hlocation]
        rfl
      · rw [isInPath, Members.get, hin]
        rfl
    rw [Context.pathParameterNames, hpath] at h
    split at h
    · rename_i hin
      split at h
      · rename_i found hname
        obtain ⟨others, hothers, hpure⟩ := Calculation.exists_of_bind_ok h
        cases hpure
        rw [List.filter_cons, if_pos hin, List.map_cons, ← ih hrest hothers, name, getOr, hname]
        rfl
      · cases h
    · rename_i hin
      rw [List.filter_cons, if_neg hin]
      exact ih hrest h

/-! ### The members of all groups -/

theorem mem_locationsOf {parameters : List LocatedParameter} {location : String} :
    location ∈ locationsOf parameters ↔ ∃ p ∈ parameters, (slot p).location = location := by
  by_cases hknown : location ∈ parameterLocations <;> simp [locationsOf, hknown]

/-- There are groups where there are parameters. -/
theorem isEmpty_merged {parameters : List LocatedParameter} (h : ReplacesInSlot parameters) :
    (merged parameters).isEmpty = (locationsOf parameters).isEmpty := by
  cases parameters with
  | nil => rfl
  | cons first rest =>
    have hslot : slot first ∈ (merged (first :: rest)).map slot := by
      rw [map_slot_merged h, List.mem_eraseDups]
      exact List.mem_cons_self ..
    have hlocation : (slot first).location ∈ locationsOf (first :: rest) :=
      mem_locationsOf.mpr ⟨first, List.mem_cons_self .., rfl⟩
    have hmerged : merged (first :: rest) ≠ [] := by
      intro hnil
      rw [hnil] at hslot
      cases hslot
    rw [List.isEmpty_eq_false_iff.mpr hmerged,
      List.isEmpty_eq_false_iff.mpr (List.ne_nil_of_mem hlocation)]

theorem mem_membersAt {typed : List WithType} {location : String} {m : Property TypeExpr} :
    m ∈ membersAt typed location ↔
      ∃ t ∈ typed, (slot t.1).location = location ∧ member t.1 t.2 = m := by
  simp [membersAt, and_assoc]

/-- The members in the path have the names of the parameters there. -/
theorem map_name_membersAt {typed : List WithType} (hplaced : ∀ t ∈ typed, IsPlaced t.1)
    {names : List Json} (hnames : Context.pathParameterNames (typed.map Prod.fst) = .ok names) :
    (membersAt typed "path").map (·.name) = names := by
  rw [pathParameterNames_eq (List.forall_mem_map.mpr hplaced) hnames, List.filter_map,
    List.map_map, membersAt, List.map_map]
  rfl

section Members

variable {shared own : List LocatedParameter} {typed : List WithType}
  (hslots : ReplacesInSlot (shared ++ own)) (hplaced : ∀ t ∈ typed, IsPlaced t.1)
  (htyped : typed.map Prod.fst = merged (shared ++ own))

include hslots htyped

/-- Of the parameters with types, those of a slot are the one that counts, if there is one. -/
theorem map_fst_filter (place : Slot) :
    (typed.filter fun t => slot t.1 = place).map Prod.fst = (chosen shared own place).toList := by
  have hmerged := filter_merged hslots place
  rw [← htyped, List.filter_map, List.reverse_append, List.find?_append, ← chosen] at hmerged
  exact hmerged

/-- A parameter with a type is the one that counts in its slot. -/
theorem chosen_of_mem {t : WithType} (ht : t ∈ typed) :
    chosen shared own (slot t.1) = some t.1 := by
  have hmem : t.1 ∈ (typed.filter fun u => slot u.1 = slot t.1).map Prod.fst :=
    List.mem_map_of_mem (List.mem_filter.mpr ⟨ht, by simp⟩)
  rwa [map_fst_filter hslots htyped, Option.mem_toList] at hmem

include hplaced

/-- The groups are those of the locations of all parameters. -/
theorem orderGroups_grouped :
    orderGroups (grouped typed) = groupsOf (membersAt typed) (locationsOf (shared ++ own)) := by
  have hlocations : (typed.map fun t => (slot t.1).location).eraseDups =
      ((shared ++ own).map fun p => (slot p).location).eraseDups := by
    have hmerged : (typed.map fun t => (slot t.1).location) =
        ((merged (shared ++ own)).map slot).map (·.location) := by
      rw [← htyped, List.map_map, List.map_map]
      rfl
    rw [hmerged, map_slot_merged hslots, eraseDups_map_eraseDups, List.map_map]
    rfl
  rw [grouped_eq hplaced, hlocations, orderGroups_groupsOf _ (nodup_eraseDups _),
    filter_eraseDups]
  simp only [List.mem_eraseDups]
  rfl

/-- One member of a group has the name of a slot: that of the parameter that counts. -/
theorem exists_member {location name : String} {parameter : LocatedParameter}
    (hchosen : chosen shared own ⟨location, name⟩ = some parameter) :
    ∃ type, (parameter, type) ∈ typed ∧
      (membersAt typed location).filter (·.name.isText name) = [member parameter type] := by
  have hfilter : (membersAt typed location).filter (·.name.isText name) =
      (typed.filter fun t => slot t.1 = ⟨location, name⟩).map fun t => member t.1 t.2 := by
    rw [membersAt, List.filter_map, List.filter_filter]
    refine congrArg _ (List.filter_congr fun t hmem => ?_)
    have hname : (member t.1 t.2).name.isText name = decide ((slot t.1).name = name) := by
      rw [member, (hplaced t hmem).name]
      rfl
    rw [Function.comp_apply, hname, Bool.eq_iff_iff]
    simp [Slot.ext_iff, and_comm]
  have hone := map_fst_filter hslots htyped ⟨location, name⟩
  rw [hchosen, Option.toList_some, List.map_eq_singleton_iff] at hone
  obtain ⟨⟨_, type⟩, hsingle, rfl⟩ := hone
  have hmem : (_, type) ∈ typed := List.mem_of_mem_filter (hsingle ▸ List.mem_singleton_self _)
  exact ⟨type, hmem, by rw [hfilter, hsingle, List.map_singleton]⟩

end Members

/-- How the parameters of an operation are listed in groups, given those of its path and its own
and what their types are. -/
structure Listed (converts : LocatedParameter → TypeExpr → Prop)
    (shared own : List LocatedParameter) (operation : Operation)
    (groups : List (String × List (Property TypeExpr))) : Prop where
  /-- The type of the parameters has a member for each group, which may be missing exactly when
  all the members of the group may. -/
  parameters_eq : operation.parameters? =
    if groups.isEmpty then none
    else some (.object (groups.map fun group =>
      { name := .str group.1
        type := .object group.2 none
        optional := group.2.all (·.optional) }) none)
  /-- There is one group for each location, in the order of all parameters. -/
  locations_eq : groups.map Prod.fst = locationsOf (shared ++ own)
  /-- For each location and name there is one member, which stands for the last parameter. -/
  listed : ∀ location members, (location, members) ∈ groups →
    ∀ name parameter, chosen shared own ⟨location, name⟩ = some parameter →
      ∃ type, converts parameter type ∧
        members.filter (·.name.isText name) = [member parameter type]
  /-- There are no other members. -/
  others : ∀ location members, (location, members) ∈ groups → ∀ m ∈ members,
    ∃ name, m.name = .str name ∧ (chosen shared own ⟨location, name⟩).isSome
  /-- Parameters in the path are never missing. -/
  required : ∀ members, ("path", members) ∈ groups → ∀ m ∈ members, m.optional = false
  /-- Their names are those of the operation, in order. -/
  names_eq : ∀ members, ("path", members) ∈ groups →
    members.map (·.name) = operation.pathParameterNames
  /-- Without parameters in the path the operation has no such names. -/
  names_nil : "path" ∉ groups.map Prod.fst → operation.pathParameterNames = []

/-- Merging and grouping agree. -/
theorem exists_listed {converts : LocatedParameter → TypeExpr → Prop}
    {shared own : List LocatedParameter} {typed : List WithType} {operation : Operation}
    (hmixed : Unmixed (shared ++ own)) (hplaced : ∀ p ∈ shared ++ own, IsPlaced p)
    (htyped : typed.map Prod.fst = merged (shared ++ own))
    (hconverts : ∀ t ∈ typed, converts t.1 t.2)
    (hparameters : operation.parameters? =
      if (merged (shared ++ own)).isEmpty then none
      else some (.object ((orderGroups (grouped typed)).map groupProperty) none))
    (hnames : Context.pathParameterNames (merged (shared ++ own)) =
      .ok operation.pathParameterNames) :
    ∃ groups, Listed converts shared own operation groups := by
  have hslots : ReplacesInSlot (shared ++ own) := fun p hp q hq =>
    replaces_eq hmixed hplaced hp hq
  have hplacedTyped : ∀ t ∈ typed, IsPlaced t.1 := fun t ht =>
    hplaced t.1 (mem_of_mem_merged (htyped ▸ List.mem_map_of_mem ht))
  have hpath : (membersAt typed "path").map (·.name) = operation.pathParameterNames :=
    map_name_membersAt hplacedTyped (htyped ▸ hnames)
  have hmembers {location : String} {members : List (Property TypeExpr)}
      (hmem : (location, members) ∈
        (locationsOf (shared ++ own)).map fun l => (l, membersAt typed l)) :
      members = membersAt typed location := by
    obtain ⟨l, _, heq⟩ := List.mem_map.mp hmem
    cases heq
    rfl
  have hlocations : ((locationsOf (shared ++ own)).map fun l => (l, membersAt typed l)).map
      Prod.fst = locationsOf (shared ++ own) := by
    rw [List.map_map]
    exact List.map_id _
  refine ⟨(locationsOf (shared ++ own)).map fun l => (l, membersAt typed l), ?_⟩
  constructor
  case parameters_eq =>
    rw [hparameters, isEmpty_merged hslots, orderGroups_grouped hslots hplacedTyped htyped,
      List.isEmpty_map, groupsOf, List.map_map, List.map_map]
    rfl
  case locations_eq => exact hlocations
  case listed =>
    intro location members hmem name parameter hchosen
    obtain rfl := hmembers hmem
    obtain ⟨type, ht, hone⟩ := exists_member hslots hplacedTyped htyped hchosen
    exact ⟨type, hconverts _ ht, hone⟩
  case others =>
    intro location members hmem m hm
    obtain rfl := hmembers hmem
    obtain ⟨t, ht, rfl, rfl⟩ := mem_membersAt.mp hm
    refine ⟨(slot t.1).name, (hplacedTyped t ht).name, ?_⟩
    exact Option.isSome_of_eq_some (chosen_of_mem hslots htyped ht)
  case required =>
    intro members hmem m hm
    obtain rfl := hmembers hmem
    obtain ⟨t, ht, hlocation, rfl⟩ := mem_membersAt.mp hm
    rw [member, (hplacedTyped t ht).location, hlocation]
    rfl
  case names_eq =>
    intro members hmem
    obtain rfl := hmembers hmem
    exact hpath
  case names_nil =>
    intro hnone
    rw [← hpath, List.map_eq_nil_iff, List.eq_nil_iff_forall_not_mem]
    intro m hm
    obtain ⟨t, ht, hlocation, _⟩ := mem_membersAt.mp hm
    have hmem : t.1 ∈ shared ++ own := mem_of_mem_merged (htyped ▸ List.mem_map_of_mem ht)
    rw [hlocations] at hnone
    exact hnone (mem_locationsOf.mpr ⟨t.1, hmem, hlocation⟩)

end Parameter

end ApiTypes
