import ApiTypes.Proofs.Document.Lookup
import ApiTypes.Proofs.Run.InFlight
import ApiTypes.Proofs.Run.Termination

/-!
# Following references from object to object

Path items, parameters, bodies and responses may be references, which are followed until an
object is no reference. This file connects that with the chain of references itself: each one
is read from the document of the object that holds it, and the chain ends at an object, at the
first location that is met again or at the first one where nothing is. A location with a position
of too many digits is a failure of its own.
-/

namespace ApiTypes

/-- What an object has as its reference, if it has any. -/
def Json.ref? (value : Json) : Option Json := value.members?.bind (·.get? "$ref")

/-- A path breaks at a position in a list that is written with too many digits. -/
def Graph.Overruns (graph : Graph) (point : String) (path : List String) : Prop :=
  ∃ before numeral, graph.BreaksAt point path (before ++ [numeral]) ∧
    ∃ items, graph.lookup point before = .ok (.arr items) ∧ Text.isDigits numeral.toList ∧
      Text.numeralLimit < numeral.toList.length

namespace Context

variable (context : Context)

/-- An object is a reference, as it is read from the document of the object. -/
def Refers (here : Located) (reference : Reference) : Prop :=
  ∃ written, here.value.ref? = some (.str written) ∧
    Reference.classify context.graph here.point written = .ok reference

/-- What a reference points at. -/
def pointee (reference : Reference) : Except Failure Json :=
  context.graph.lookup reference.documentPoint reference.path

/-- References lead from one object to another one, past locations where there is something. -/
inductive Follows : Located → (locations : List String) → Located → Prop
  /-- No reference is followed. -/
  | refl (here : Located) : Follows here [] here
  /-- A reference is followed, and others after it. -/
  | step {here last : Located} {reference : Reference} {target : Json} {locations : List String}
    (hrefers : context.Refers here reference) (hfound : context.pointee reference = .ok target)
    (hrest : Follows ⟨reference.documentPoint, target⟩ locations last) :
    Follows here (reference.canonicalPath :: locations) last

/-- All references that are met from an object on are texts that can be read, with decimal
numbers for the segments that are made of digits. -/
def Legible (start : Located) : Prop :=
  ∀ locations last ref, context.Follows start locations last → locations.Nodup →
    last.value.ref? = some ref →
      ∃ reference, context.Refers last reference ∧ Pointer.HasDecimals reference.path

/-- The end of following references from an object. -/
structure Dereferences (start : Located) (result : Except Failure Located) : Prop where
  /-- It comes. -/
  ends : result ≠ .error .exhausted
  /-- An object is found when a chain of different locations leads to it and it is no
  reference. -/
  ok_iff : ∀ located, result = .ok located ↔
    ∃ locations, context.Follows start locations located ∧ locations.Nodup ∧
      located.value.ref? = none
  /-- It is in the document at its point. -/
  found : ∀ located, result = .ok located →
    located = start ∨ ∃ segments, context.graph.lookup located.point segments = .ok located.value
  /-- A cycle is found when a chain of different locations leads to a reference to one of
  them. -/
  cycle_iff : ∀ canonicalPath chain, result = .error (.schema (.cycle canonicalPath chain)) ↔
    ∃ last reference, context.Follows start chain last ∧ chain.Nodup ∧
      context.Refers last reference ∧ reference.canonicalPath = canonicalPath ∧
        canonicalPath ∈ chain
  /-- A location is missing when a chain of different locations leads to a reference to it, it
  is none of them, and nothing is there. -/
  unresolved_iff : ∀ name location,
    result = .error (.schema (.unresolved name location)) ↔
      ∃ locations last reference, context.Follows start locations last ∧ locations.Nodup ∧
        context.Refers last reference ∧ reference.canonicalPath ∉ locations ∧
          context.pointee reference = .error (.schema (.unresolved name location))
  /-- When the references are legible, a numeral cannot be read when a chain of different
  locations leads to a reference to a location with a position of too many digits, and that is
  none of them. -/
  overrun_iff : context.Legible start → (result = .error (.malformed .badNumeral) ↔
    ∃ locations last reference, context.Follows start locations last ∧ locations.Nodup ∧
      context.Refers last reference ∧ reference.canonicalPath ∉ locations ∧
        context.graph.Overruns reference.documentPoint reference.path)
  /-- There is no other end when the references are legible. -/
  complete : context.Legible start →
    (∃ located, result = .ok located) ∨
      (∃ canonicalPath chain, result = .error (.schema (.cycle canonicalPath chain))) ∨
      (∃ name location, result = .error (.schema (.unresolved name location))) ∨
      result = .error (.malformed .badNumeral)

end Context

/-! ### Looking up what references point at -/

/-- Where the segments made of digits are decimal numbers, a lookup fails because nothing is
there or because of a position of too many digits. -/
theorem Graph.lookup_error_cases {graph : Graph} {point : String} {segments : List String}
    {failure : Failure} (hdecimals : Pointer.HasDecimals segments)
    (h : graph.lookup point segments = .error failure) :
    (∃ name location, failure = .schema (.unresolved name location)) ∨
      failure = .malformed .badNumeral ∧ graph.Overruns point segments := by
  cases hdocument : graph.document point with
  | error error =>
    simp only [lookup, hdocument] at h
    cases h
    rw [document] at hdocument
    split at hdocument
    · cases hdocument
    · cases hdocument
      exact Or.inl ⟨_, _, rfl⟩
  | ok document =>
    obtain ⟨before, segment, hbreaks, rfl | ⟨rfl, hlong⟩⟩ :=
      exists_of_lookup_error hdocument hdecimals h
    · exact Or.inl ⟨_, _, rfl⟩
    · exact Or.inr ⟨rfl, before, segment, hbreaks, hlong⟩

/-- A position of too many digits is not read. -/
theorem Graph.Overruns.lookup_eq {graph : Graph} {point : String} {segments : List String}
    (h : graph.Overruns point segments) :
    graph.lookup point segments = .error (.malformed .badNumeral) := by
  obtain ⟨before, numeral, hbreaks, items, hbefore, hdigits, hlong⟩ := h
  obtain ⟨after, rfl⟩ := hbreaks.isPrefix
  have hchild : (Json.arr items).child numeral = .error .badNumeral := by
    simp [Json.child, hdigits, Text.numeral?, Nat.not_le_of_lt hlong]
  cases hdocument : graph.document point with
  | error error => simp [lookup, hdocument] at hbefore
  | ok document =>
    rw [lookup_eq_ok_iff hdocument] at hbefore
    have hrest : (Json.arr items).walk (numeral :: after) = .error .badNumeral := by
      simp only [Json.walk, hchild]
    have hwalk : document.walk (before ++ numeral :: after) = .error .badNumeral := by
      have hdeeper :=
        List.foldr_fixed' (fun _ : String => rfl : ∀ _, WalkFault.badNumeral.deeper = _)
      rw [Json.walk_append _ hbefore, hrest]
      exact congrArg Except.error (hdeeper before)
    rw [List.append_assoc, List.singleton_append]
    simp only [lookup, hdocument, hwalk]

namespace Context

variable {context : Context}

/-! ### The chain of references -/

/-- Where a reference is read, there is one. -/
theorem Refers.ne_none {here : Located} {reference : Reference}
    (h : context.Refers here reference) : here.value.ref? ≠ none := by
  obtain ⟨written, hwritten, _⟩ := h
  rw [hwritten]
  nofun

/-- No reference leads away from an object that is none. -/
theorem Follows.of_none {here last : Located} {locations : List String}
    (h : context.Follows here locations last) (hnone : here.value.ref? = none) :
    locations = [] ∧ last = here := by
  cases h with
  | refl => exact ⟨rfl, rfl⟩
  | step hrefers _ _ => exact absurd hnone hrefers.ne_none

/-- What an object refers to is known from the object. -/
theorem Refers.unique {here : Located} {reference other : Reference}
    (h : context.Refers here reference) (h' : context.Refers here other) : reference = other := by
  obtain ⟨written, hwritten, hreference⟩ := h
  obtain ⟨written', hwritten', hother⟩ := h'
  cases hwritten.symm.trans hwritten'
  exact Except.ok.inj (hreference.symm.trans hother)

/-- References lead to one object that is none. -/
theorem Follows.unique {here last last' : Located} {locations locations' : List String}
    (h : context.Follows here locations last) (h' : context.Follows here locations' last')
    (hlast : last.value.ref? = none) (hlast' : last'.value.ref? = none) :
    locations = locations' ∧ last = last' := by
  induction h generalizing locations' with
  | refl here =>
    obtain ⟨rfl, rfl⟩ := h'.of_none hlast
    exact ⟨rfl, rfl⟩
  | step hrefers hfound _ ih =>
    cases h' with
    | refl => exact absurd hlast' hrefers.ne_none
    | step hrefers' hfound' hrest' =>
      obtain rfl := hrefers.unique hrefers'
      cases hfound.symm.trans hfound'
      obtain ⟨rfl, rfl⟩ := ih hrest' hlast
      exact ⟨rfl, rfl⟩

/-- What references lead to is in the document at its point. -/
theorem Follows.found {here last : Located} {locations : List String}
    (h : context.Follows here locations last) :
    last = here ∨ ∃ segments, context.graph.lookup last.point segments = .ok last.value := by
  induction h with
  | refl => exact Or.inl rfl
  | step _ hfound _ ih =>
    refine Or.inr (ih.elim ?_ id)
    rintro rfl
    exact ⟨_, hfound⟩

/-- The reference that an object has, as it is read from the document at a point. -/
def readReference (context : Context) (point : String) : Json → Except Failure Reference
  | .str written => Reference.classify context.graph point written
  | _ => .error (.malformed .notText)

/-- A reference that cannot be read is a defect. -/
theorem isDefect_of_unread {point : String} {ref : Json} {failure : Failure}
    (h : context.readReference point ref = .error failure) : failure.IsDefect := by
  cases ref with
  | str written =>
    have hgives := Reference.gives_classify context.graph point written
    rw [readReference] at h
    rwa [h] at hgives
  | _ => cases h; trivial

/-- What a reference points at fails for a cause of its own. -/
theorem isPlain_of_missing {reference : Reference} {failure : Failure}
    (h : context.pointee reference = .error failure) : failure.IsPlain := by
  have hfinds := context.graph.finds_lookup reference.documentPoint reference.path
  rwa [← pointee, h] at hfinds

/-- How a chain past some locations stops at its last object. -/
inductive Stops (context : Context) (met : List String) (last : Located) :
    Except Failure Located → Prop
  /-- The object is no reference. -/
  | object (h : last.value.ref? = none) : Stops context met last (.ok last)
  /-- Its reference cannot be read. -/
  | unread {ref : Json} {failure : Failure} (href : last.value.ref? = some ref)
    (hread : context.readReference last.point ref = .error failure) :
    Stops context met last (.error failure)
  /-- Its reference points at one of the locations. -/
  | repeated {reference : Reference} (hrefers : context.Refers last reference)
    (hmet : reference.canonicalPath ∈ met) :
    Stops context met last (.error (.schema (.cycle reference.canonicalPath met)))
  /-- Its reference points at nothing. -/
  | missing {reference : Reference} {failure : Failure} (hrefers : context.Refers last reference)
    (hnew : reference.canonicalPath ∉ met) (hmissing : context.pointee reference = .error failure) :
    Stops context met last (.error failure)

/-- No chain stops for want of allowance. -/
theorem Stops.ne_exhausted {met : List String} {last : Located} {result : Except Failure Located}
    (h : context.Stops met last result) : result ≠ .error .exhausted := by
  rintro rfl
  cases h with
  | unread _ hread => exact isDefect_of_unread hread
  | missing _ _ hmissing => exact isPlain_of_missing hmissing

/-- The end of following references when only the locations that were met count. -/
def followed (context : Context) : Nat → (met : List String) → Located → Except Failure Located
  | 0, _, _ => .error .exhausted
  | allowance + 1, met, here =>
    match here.value.ref? with
    | none => .ok here
    | some ref => do
      let reference ← context.readReference here.point ref
      if reference.canonicalPath ∈ met then
        .error (.schema (.cycle reference.canonicalPath met))
      else
        let target ← context.pointee reference
        context.followed allowance (met ++ [reference.canonicalPath])
          ⟨reference.documentPoint, target⟩

/-- The result of two steps is that of two calculations, if the second one is wherever the first
step ends. -/
theorem fst_run_bind {α β : Type} {m : Run α} {f : α → Run β} {g : α → Except Failure β}
    {s after : RunState} {result : Except Failure α} (hm : m.run s = (result, after))
    (h : ∀ a, ((f a).run after).1 = g a) : ((m >>= f).run s).1 = result >>= g := by
  cases result with
  | error failure => rw [Run.run_bind_of_error hm]; rfl
  | ok a => rw [Run.run_bind_of_ok hm]; exact h a

/-- Reading a reference leaves everything in flight that was. -/
theorem run_classify (context : Context) (point : String) (ref : Json) (s : RunState) :
    ∃ after, (context.classify point ref).run s = (context.readReference point ref, after) ∧
      after.inFlight = s.inFlight := by
  cases ref <;> exact ⟨_, rfl, rfl⟩

/-- The state of a run counts only by the locations that are in flight. -/
theorem run_dereferenceWithin (allowance : Nat) (point : String) (value : Json) (s : RunState) :
    ((context.dereferenceWithin allowance point value).run s).1 =
      context.followed allowance s.inFlight ⟨point, value⟩ := by
  induction allowance generalizing point value s with
  | zero => rfl
  | succ allowance ih =>
    rw [dereferenceWithin, followed, Json.ref?]
    cases value.members?.bind (·.get? "$ref") with
    | none => rfl
    | some ref =>
      obtain ⟨after, hclassify, hinFlight⟩ := context.run_classify point ref s
      refine fst_run_bind hclassify fun reference => ?_
      -- A whole document is what is looked up at no segments, so one lookup covers both cases.
      have hnext (segments : List String) :
          ((Run.lookup context reference.documentPoint segments >>=
            context.dereferenceWithin allowance reference.documentPoint).run
              (after.entering reference.canonicalPath)).1 =
          context.graph.lookup reference.documentPoint segments >>= fun target =>
            context.followed allowance (s.inFlight ++ [reference.canonicalPath])
              ⟨reference.documentPoint, target⟩ :=
        fst_run_bind rfl fun target => hinFlight ▸ ih reference.documentPoint target _
      rw [Run.run_expanding, hinFlight]
      split
      · rfl
      · dsimp only
        split
        · rename_i hempty
          rw [Run.document_eq_lookup, pointee, List.isEmpty_iff.mp hempty]
          exact hnext []
        · exact hnext reference.path

/-! ### One reference after another -/

/-- What holds no reference is where following ends. -/
theorem followed_of_none {here : Located} (h : here.value.ref? = none) (allowance : Nat)
    (met : List String) : context.followed (allowance + 1) met here = .ok here := by
  rw [followed, h]

/-- A reference that cannot be read ends it with a failure. -/
theorem followed_of_unread {here : Located} {ref : Json} {failure : Failure}
    (href : here.value.ref? = some ref)
    (hread : context.readReference here.point ref = .error failure) (allowance : Nat)
    (met : List String) : context.followed (allowance + 1) met here = .error failure := by
  rw [followed, href]
  dsimp only
  rw [hread]
  rfl

/-- A reference that is read leads on to what it points to, unless its location was met before. -/
theorem followed_of_refers {here : Located} {reference : Reference}
    (h : context.Refers here reference) (allowance : Nat) (met : List String) :
    context.followed (allowance + 1) met here =
      if reference.canonicalPath ∈ met then
        .error (.schema (.cycle reference.canonicalPath met))
      else context.pointee reference >>= fun target =>
        context.followed allowance (met ++ [reference.canonicalPath])
          ⟨reference.documentPoint, target⟩ := by
  obtain ⟨written, hwritten, hreference⟩ := h
  have hread : context.readReference here.point (.str written) = .ok reference := hreference
  rw [followed, hwritten]
  dsimp only
  rw [hread]
  rfl

/-- An object is no reference, one that cannot be read, or one that leads somewhere. -/
theorem refers_cases (context : Context) (here : Located) :
    here.value.ref? = none ∨
      (∃ ref failure, here.value.ref? = some ref ∧
        context.readReference here.point ref = .error failure) ∨
      ∃ reference, context.Refers here reference := by
  cases href : here.value.ref? with
  | none => exact Or.inl rfl
  | some ref =>
    refine Or.inr ?_
    cases hread : context.readReference here.point ref with
    | error failure => exact Or.inl ⟨ref, failure, rfl, hread⟩
    | ok reference =>
      refine Or.inr ⟨reference, ?_⟩
      cases ref with
      | str written => exact ⟨written, href, hread⟩
      | _ => cases hread

/-- Enough allowance is enough. -/
theorem followed_add {allowance : Nat} {met : List String} {here : Located}
    (h : context.followed allowance met here ≠ .error .exhausted) (more : Nat) :
    context.followed (allowance + more) met here = context.followed allowance met here := by
  induction allowance generalizing met here with
  | zero => exact absurd rfl h
  | succ allowance ih =>
    rw [Nat.succ_add]
    rcases context.refers_cases here with hnone | ⟨ref, failure, href, hread⟩ | ⟨reference, hrefers⟩
    · rw [followed_of_none hnone, followed_of_none hnone]
    · rw [followed_of_unread href hread, followed_of_unread href hread]
    · rw [followed_of_refers hrefers] at h ⊢
      rw [followed_of_refers hrefers]
      split
      · rfl
      · rename_i hnew
        rw [if_neg hnew] at h
        cases hpointee : context.pointee reference with
        | error failure => rfl
        | ok target =>
          rw [hpointee] at h
          exact ih h

/-- From the object that a chain leads to, references are followed as from its beginning. -/
theorem Follows.followed_eq {here last : Located} {locations : List String}
    (h : context.Follows here locations last) {met : List String}
    (hdistinct : (met ++ locations).Nodup) (allowance : Nat) :
    context.followed (allowance + locations.length) met here =
      context.followed allowance (met ++ locations) last := by
  induction h generalizing met with
  | refl => rw [List.append_nil]; rfl
  | @step here last reference target locations hrefers hfound _ ih =>
    rw [List.append_cons] at hdistinct ⊢
    have hnew : reference.canonicalPath ∉ met := fun hmem =>
      (List.nodup_append.mp hdistinct.of_append_left).2.2 _ hmem _ (List.mem_singleton_self _) rfl
    rw [List.length_cons, ← Nat.add_assoc, followed_of_refers hrefers, if_neg hnew, hfound]
    exact ih hdistinct

/-- Where a chain stops, references are followed no further. -/
theorem Stops.followed_eq {met : List String} {last : Located} {result : Except Failure Located}
    (h : context.Stops met last result) (allowance : Nat) :
    context.followed (allowance + 1) met last = result := by
  cases h with
  | object hnone => exact followed_of_none hnone allowance met
  | unread href hread => exact followed_of_unread href hread allowance met
  | repeated hrefers hmet => rw [followed_of_refers hrefers, if_pos hmet]
  | missing hrefers hnew hmissing =>
    rw [followed_of_refers hrefers, if_neg hnew, hmissing]
    rfl

/-- References that are followed to an end are a chain that stops there. -/
theorem exists_of_followed {allowance : Nat} {met : List String} {here : Located}
    {result : Except Failure Located} (h : context.followed allowance met here = result)
    (hends : result ≠ .error .exhausted) :
    ∃ locations last, context.Follows here locations last ∧
      (met.Nodup → (met ++ locations).Nodup) ∧ context.Stops (met ++ locations) last result := by
  induction allowance generalizing met here with
  | zero => exact absurd h.symm hends
  | succ allowance ih =>
    have hstop (hstops : context.Stops met here result) :
        ∃ locations last, context.Follows here locations last ∧
          (met.Nodup → (met ++ locations).Nodup) ∧
            context.Stops (met ++ locations) last result := by
      refine ⟨[], here, .refl here, ?_, ?_⟩ <;> rw [List.append_nil]
      · exact id
      · exact hstops
    rcases context.refers_cases here with hnone | ⟨ref, failure, href, hread⟩ | ⟨reference, hrefers⟩
    · rw [followed_of_none hnone] at h
      exact hstop (h ▸ .object hnone)
    · rw [followed_of_unread href hread] at h
      exact hstop (h ▸ .unread href hread)
    · rw [followed_of_refers hrefers] at h
      split at h
      · rename_i hagain
        exact hstop (h ▸ .repeated hrefers hagain)
      · rename_i hnew
        cases hpointee : context.pointee reference with
        | error failure =>
          rw [hpointee] at h
          exact hstop (h ▸ .missing hrefers hnew hpointee)
        | ok target =>
          rw [hpointee] at h
          obtain ⟨locations, last, hfollows, hdistinct, hstops⟩ := ih h
          rw [← List.append_cons] at hdistinct hstops
          exact ⟨_, last, .step hrefers hpointee hfollows,
            fun hmet => hdistinct (nodup_entered hmet hnew), hstops⟩

/-! ### The end of following references -/

/-- Legible references can be read. -/
theorem Legible.readable {start last : Located} {locations : List String} {ref : Json}
    {failure : Failure} (h : context.Legible start)
    (hfollows : context.Follows start locations last) (hdistinct : locations.Nodup)
    (href : last.value.ref? = some ref) :
    context.readReference last.point ref ≠ .error failure := by
  intro hread
  obtain ⟨reference, ⟨written, hwritten, hreference⟩, _⟩ :=
    h locations last ref hfollows hdistinct href
  cases href.symm.trans hwritten
  cases hread.symm.trans hreference

/-- The segments of legible references that are made of digits are decimal numbers. -/
theorem Legible.hasDecimals {start last : Located} {locations : List String}
    {reference : Reference} (h : context.Legible start)
    (hfollows : context.Follows start locations last) (hdistinct : locations.Nodup)
    (hrefers : context.Refers last reference) : Pointer.HasDecimals reference.path := by
  obtain ⟨written, hwritten, _⟩ := id hrefers
  obtain ⟨other, hother, hdecimals⟩ := h locations last _ hfollows hdistinct hwritten
  obtain rfl := hrefers.unique hother
  exact hdecimals

/-- There are fewer references to follow than the allowance. -/
theorem dereference_does (context : Context) (point : String) (value : Json) (s : RunState) :
    Run.Does context (Reading.among (context.readable point value)).only (fun _ located =>
        (Reading.among (context.readable point value)).Allows located.point located.value)
      (context.dereference point value) s :=
  .dereferenceWithin (context.readable_covers point value)
    (.inr (((Reading.atMost_card _).mono (context.card_readable_le point value)).room _))
    (context.readable_allows point value (List.subset_append_right _ _))

/-- Following references never uses up its allowance. -/
theorem dereference_ends (context : Context) (point : String) (value : Json) (s : RunState) :
    ((context.dereference point value).run s).1 ≠ .error .exhausted :=
  ((context.dereference_does point value s).endsWithin id (Reading.atMost_card _)).ne_exhausted

/-- What following references ends with is what a chain of different locations stops with. -/
theorem dereference_eq_iff {point : String} {value : Json} {s : RunState}
    (hinFlight : s.inFlight = []) {result : Except Failure Located} :
    ((context.dereference point value).run s).1 = result ↔
      ∃ locations last, context.Follows ⟨point, value⟩ locations last ∧ locations.Nodup ∧
        context.Stops locations last result := by
  have hends := context.dereference_ends point value s
  rw [dereference, run_dereferenceWithin, hinFlight] at hends ⊢
  constructor
  · intro h
    obtain ⟨locations, last, hfollows, hdistinct, hstops⟩ := exists_of_followed h (h ▸ hends)
    exact ⟨locations, last, hfollows, hdistinct List.nodup_nil, hstops⟩
  · rintro ⟨locations, last, hfollows, hdistinct, hstops⟩
    have hnew : ([] ++ locations).Nodup := hdistinct
    have hchain : context.followed (1 + locations.length) [] ⟨point, value⟩ = result :=
      (hfollows.followed_eq hnew 1).trans (hstops.followed_eq 0)
    have hchainEnds : context.followed (1 + locations.length) [] ⟨point, value⟩ ≠
        .error .exhausted := hchain ▸ hstops.ne_exhausted
    -- The allowance of the run and that of the chain both suffice, and so does their sum.
    rw [← hchain, ← followed_add hends (1 + locations.length), Nat.add_comm,
      followed_add hchainEnds]

/-- An object that is found, whatever is in flight, is no reference and has a chain to it. -/
theorem follows_of_dereference_ok {point : String} {value : Json} {s s' : RunState}
    {located : Located} (h : (context.dereference point value).run s = (.ok located, s')) :
    (∃ locations, context.Follows ⟨point, value⟩ locations located) ∧
      located.value.ref? = none := by
  have hresult : ((context.dereference point value).run s).1 = .ok located := by rw [h]
  rw [dereference, run_dereferenceWithin] at hresult
  obtain ⟨locations, _, hfollows, _, hstops⟩ := exists_of_followed hresult (by nofun)
  cases hstops with
  | object hnone => exact ⟨⟨locations, hfollows⟩, hnone⟩

/-- Following references from object to object follows the chain that they are, through any
number of documents. When nothing is in flight it ends: with the object that the chain leads to,
with the first location that the chain comes to again, whose chain has all those before, or with
the first location where nothing is. The one other end that legible references have is a position
of too many digits in the first location where nothing is. -/
theorem dereference_exact (context : Context) {s : RunState} (hinFlight : s.inFlight = [])
    (point : String) (value : Json) :
    context.Dereferences ⟨point, value⟩ ((context.dereference point value).run s).1 where
  ends := context.dereference_ends point value s
  ok_iff located := by
    rw [dereference_eq_iff hinFlight]
    constructor
    · rintro ⟨locations, _, hfollows, hdistinct, ⟨hnone⟩⟩
      exact ⟨locations, hfollows, hdistinct, hnone⟩
    · rintro ⟨locations, hfollows, hdistinct, hnone⟩
      exact ⟨locations, located, hfollows, hdistinct, .object hnone⟩
  found located h := by
    obtain ⟨locations, _, hfollows, _, ⟨_⟩⟩ := (dereference_eq_iff hinFlight).mp h
    exact hfollows.found
  cycle_iff canonicalPath chain := by
    rw [dereference_eq_iff hinFlight]
    constructor
    · rintro ⟨locations, last, hfollows, hdistinct, hstops⟩
      cases hstops with
      | unread _ hread => exact (isDefect_of_unread hread).elim
      | repeated hrefers hmet => exact ⟨last, _, hfollows, hdistinct, hrefers, rfl, hmet⟩
      | missing _ _ hmissing => exact (isPlain_of_missing hmissing).elim
    · rintro ⟨last, reference, hfollows, hdistinct, hrefers, rfl, hmet⟩
      exact ⟨chain, last, hfollows, hdistinct, .repeated hrefers hmet⟩
  unresolved_iff name location := by
    rw [dereference_eq_iff hinFlight]
    constructor
    · rintro ⟨locations, last, hfollows, hdistinct, hstops⟩
      cases hstops with
      | unread _ hread => exact (isDefect_of_unread hread).elim
      | missing hrefers hnew hmissing =>
        exact ⟨locations, last, _, hfollows, hdistinct, hrefers, hnew, hmissing⟩
    · rintro ⟨locations, last, reference, hfollows, hdistinct, hrefers, hnew, hmissing⟩
      exact ⟨locations, last, hfollows, hdistinct, .missing hrefers hnew hmissing⟩
  overrun_iff hlegible := by
    rw [dereference_eq_iff hinFlight]
    constructor
    · rintro ⟨locations, last, hfollows, hdistinct, hstops⟩
      cases hstops with
      | unread href hread => exact (hlegible.readable hfollows hdistinct href hread).elim
      | missing hrefers hnew hmissing =>
        obtain ⟨_, _, hcause⟩ | ⟨_, hoverruns⟩ :=
          Graph.lookup_error_cases (hlegible.hasDecimals hfollows hdistinct hrefers) hmissing
        · cases hcause
        · exact ⟨locations, last, _, hfollows, hdistinct, hrefers, hnew, hoverruns⟩
    · rintro ⟨locations, last, reference, hfollows, hdistinct, hrefers, hnew, hoverruns⟩
      exact ⟨locations, last, hfollows, hdistinct, .missing hrefers hnew hoverruns.lookup_eq⟩
  complete hlegible := by
    obtain ⟨locations, last, hfollows, hdistinct, hstops⟩ :=
      (dereference_eq_iff hinFlight).mp (Eq.refl ((context.dereference point value).run s).1)
    generalize ((context.dereference point value).run s).1 = result at hstops ⊢
    cases hstops with
    | object => exact Or.inl ⟨last, rfl⟩
    | unread href hread => exact (hlegible.readable hfollows hdistinct href hread).elim
    | repeated => exact Or.inr (Or.inl ⟨_, _, rfl⟩)
    | missing hrefers _ hmissing =>
      obtain ⟨name, location, rfl⟩ | ⟨rfl, _⟩ :=
        Graph.lookup_error_cases (hlegible.hasDecimals hfollows hdistinct hrefers) hmissing
      · exact Or.inr (Or.inr (Or.inl ⟨name, location, rfl⟩))
      · exact Or.inr (Or.inr (Or.inr rfl))

/-- A reference to the node of the other document, which refers back to the first one. -/
def linkedNode : Located := ⟨"a.json", .obj [("$ref", .str "b.json#/node")]⟩

/-- The reference of the first document. -/
def linkedThere : Reference := ⟨"b.json#/node", "a.json", .otherDocument, "b.json", ["node"]⟩

/-- The reference back. -/
def linkedBack : Reference := ⟨"a.json#/node", "b.json", .otherDocument, "a.json", ["node"]⟩

/-- The node is found in the first document, past the one in the other document. -/
theorem linked_dereference_exact :
    linked.Legible linkedNode ∧
    linked.Dereferences linkedNode
      ((linked.dereference linkedNode.point linkedNode.value).run (.initial linked)).1 ∧
    ∃ located, ((linked.dereference linkedNode.point linkedNode.value).run (.initial linked)).1 =
      .ok located ∧ linked.Follows linkedNode ["b.json#/node", "a.json#/node"] located := by
  have hthere : linked.Refers linkedNode linkedThere := ⟨"b.json#/node", rfl, rfl⟩
  have hfound : linked.pointee linkedThere = .ok (.obj [("$ref", .str "a.json#/node")]) := rfl
  have hback : linked.Refers ⟨"b.json", .obj [("$ref", .str "a.json#/node")]⟩ linkedBack :=
    ⟨"a.json#/node", rfl, rfl⟩
  have hnode : linked.pointee linkedBack = .ok (.obj [("type", .str "array"),
    ("items", .obj [("$ref", .str "b.json#/node")])]) := rfl
  refine ⟨?_, dereference_exact linked rfl linkedNode.point linkedNode.value, _, rfl,
    .step hthere hfound (.step hback hnode (.refl _))⟩
  intro locations last ref hfollows _ href
  cases hfollows with
  | refl => exact ⟨linkedThere, hthere, by decide +kernel⟩
  | step hrefers hfound' hrest =>
    obtain rfl := hthere.unique hrefers
    cases hfound.symm.trans hfound'
    cases hrest with
    | refl => exact ⟨linkedBack, hback, by decide +kernel⟩
    | step hrefers hnode' hrest =>
      obtain rfl := hback.unique hrefers
      cases hnode.symm.trans hnode'
      obtain ⟨_, rfl⟩ := hrest.of_none rfl
      cases href

/-- A run over a document with a list. -/
def servers : Context where
  graph := .servers

/-- A reference to an item of the list. -/
def itemLink (position : String) : Located :=
  ⟨"api/openapi.json", .obj [("$ref", .str (Pointer.locate "" ["servers", position]))]⟩

/-- The reference is read as the two segments that it was written from. -/
theorem itemLink_refers {position : String} (h : position ≠ "") :
    ∃ reference, servers.Refers (itemLink position) reference ∧
      reference.documentPoint = "api/openapi.json" ∧ reference.path = ["servers", position] := by
  have hplain : Pointer.Plain ["servers", position] := ⟨by decide, by decide +kernel⟩
  have hhash : (Pointer.locate "" ["servers", position]).toList.head? = some '#' := by
    rw [Pointer.toList_locate _ hplain]
    rfl
  have hnormal : Point.normalize "api/openapi.json" = "api/openapi.json" := by decide +kernel
  have hsplit := Pointer.split_locate hplain
  rw [List.rdropWhile_eq_self_iff.mpr (by simpa using h)] at hsplit
  refine ⟨⟨Pointer.locate "" ["servers", position], "api/openapi.json", .sameDocument,
    "api/openapi.json", ["servers", position]⟩, ⟨_, rfl, ?_⟩, rfl, rfl⟩
  rw [itemLink, Reference.classify, if_pos hhash, hnormal, hsplit]
  rfl

/-- It is not so that legible references always lead to an object, to a cycle or to a location
where nothing is. -/
theorem longPosition_not_unresolved :
    ¬ ∀ (context : Context) (s : RunState) (start : Located), s.inFlight = [] →
      context.Legible start →
      (∃ located, ((context.dereference start.point start.value).run s).1 = .ok located) ∨
        (∃ canonicalPath chain, ((context.dereference start.point start.value).run s).1 =
          .error (.schema (.cycle canonicalPath chain))) ∨
        ∃ name location, ((context.dereference start.point start.value).run s).1 =
          .error (.schema (.unresolved name location)) := by
  intro hends
  have hne : Graph.longPosition ≠ "" := by simp [Graph.longPosition]
  obtain ⟨reference, hrefers, hpoint, hpath⟩ := itemLink_refers hne
  obtain ⟨hdecimal, hdigits, hnumeral⟩ := Graph.longPosition_unread
  have hdecimals : Pointer.HasDecimals reference.path := by
    have hservers : ¬ Text.isDigits "servers".toList := by decide +kernel
    rw [hpath]
    exact List.forall_mem_cons.mpr ⟨fun h => absurd h hservers,
      List.forall_mem_singleton.mpr fun _ => hdecimal⟩
  have hmissing : servers.pointee reference = .error (.malformed .badNumeral) := by
    rw [pointee, hpoint, hpath]
    exact Graph.servers_lookup_unread hdigits hnumeral
  have hlegible : servers.Legible (itemLink Graph.longPosition) := by
    intro locations last ref hfollows _ href
    cases hfollows with
    | refl =>
      obtain ⟨written, hwritten, hreference⟩ := hrefers
      exact ⟨reference, ⟨written, hwritten, hreference⟩, hdecimals⟩
    | step hrefers' hfound =>
      obtain rfl := hrefers.unique hrefers'
      cases hmissing.symm.trans hfound
  have hresult : ((servers.dereference (itemLink Graph.longPosition).point
      (itemLink Graph.longPosition).value).run (.initial servers)).1 =
        .error (.malformed .badNumeral) :=
    (dereference_eq_iff rfl).mpr ⟨[], itemLink Graph.longPosition, .refl _, List.nodup_nil,
      .missing hrefers List.not_mem_nil hmissing⟩
  have hnone := hends servers (.initial servers) (itemLink Graph.longPosition) rfl hlegible
  rw [hresult] at hnone
  rcases hnone with ⟨_, h⟩ | ⟨_, _, h⟩ | ⟨_, _, h⟩ <;> cases h

end Context

end ApiTypes
