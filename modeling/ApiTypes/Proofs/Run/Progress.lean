import ApiTypes.Proofs.Reference
import ApiTypes.Proofs.Run.Soundness

/-!
# Progress of runs

Steps of a run read references, each of them from the document at a point. Once
it is said what they may do, this file says all that they can do to the state:
which schemas they register, which declarations they finish, what they put in
flight on the way, and what they write into the journal. Steps one after another
make progress of the same kind, so this is shown of every elementary step by
itself. What a run keeps, its soundness first of all, is kept by progress.
-/

namespace ApiTypes

/-- The references that may be read, each of them from the document at a point. -/
abbrev Reading := (point written : String) → Prop

namespace Reading

/-- All references in a value may be read from the document at a point. -/
def Allows (R : Reading) (point : String) (value : Json) : Prop := ∀ ref ∈ value.refs, R point ref

/-- All references in the documents of a graph may be read there. -/
def Covers (R : Reading) (graph : Graph) : Prop :=
  ∀ point document, graph.document point = .ok document → R.Allows point document

/-- A reference that may be read leads to a location. -/
def LeadsTo (R : Reading) (location : String) : Prop :=
  ∃ point written, R point written ∧ location = Reference.location point written

/-- Locations that can be put in flight one after another. -/
structure Fresh (R : Reading) (inFlight locations : List String) : Prop where
  /-- Each of them once. -/
  nodup : locations.Nodup
  /-- None of them is in flight. -/
  notMem : ∀ location ∈ locations, location ∉ inFlight
  /-- References lead to them. -/
  leadsTo : ∀ location ∈ locations, R.LeadsTo location

/-- Fewer than so many locations can still be put in flight. -/
def Room (R : Reading) (n : Nat) (inFlight : List String) : Prop :=
  ∀ locations, R.Fresh inFlight locations → locations.length < n

/-- References lead to at most so many locations. -/
def AtMost (R : Reading) (n : Nat) : Prop :=
  ∀ locations, R.Fresh [] locations → locations.length ≤ n

/-- A document that may be asked for: one that a reference leads to, or that of a
registered schema. -/
def Opens (R : Reading) (r : Registry) (documentPoint : String) : Prop :=
  (∃ point written, R point written ∧ documentPoint = Reference.documentOf point written) ∨
    ∃ entry ∈ r.entries, documentPoint = entry.documentPoint

variable {R R' : Reading}

/-- What has no other references may be read, too. -/
theorem Allows.of_subset {point : String} {value part : Json} (h : R.Allows point value)
    (hsubset : part.refs ⊆ value.refs) : R.Allows point part :=
  fun ref href => h ref (hsubset href)

/-- The references in what is looked up may be read where it was found. -/
theorem Covers.allows_lookup {graph : Graph} (h : R.Covers graph) {point : String}
    {segments : List String} {value : Json} (hvalue : graph.lookup point segments = .ok value) :
    R.Allows point value := by
  rw [Graph.lookup] at hvalue
  split at hvalue
  · cases hvalue
  · rename_i document hdocument
    split at hvalue
    · rename_i found hwalk
      cases hvalue
      exact (h point document hdocument).of_subset (Json.refs_subset_of_walk hwalk)
    · cases hvalue
    · cases hvalue

namespace Fresh

variable {inFlight locations : List String}

/-- No location needs to be put in flight. -/
theorem nil (inFlight : List String) : R.Fresh inFlight [] :=
  ⟨List.nodup_nil, nofun, nofun⟩

/-- More references lead to more locations. -/
theorem mono (h : R.Fresh inFlight locations)
    (hR : ∀ point written, R point written → R' point written) : R'.Fresh inFlight locations where
  nodup := h.nodup
  notMem := h.notMem
  leadsTo location hmem := by
    obtain ⟨point, written, hread, heq⟩ := h.leadsTo location hmem
    exact ⟨point, written, hR _ _ hread, heq⟩

/-- A location that is not in flight can be entered before others. -/
theorem cons {location : String} (h : R.Fresh (inFlight ++ [location]) locations)
    (hnew : location ∉ inFlight) (hleads : R.LeadsTo location) :
    R.Fresh inFlight (location :: locations) where
  nodup := by
    refine List.nodup_cons.mpr ⟨fun hmem => h.notMem location hmem ?_, h.nodup⟩
    exact List.mem_append_right _ (List.mem_singleton_self _)
  notMem other hmem := by
    rcases List.mem_cons.mp hmem with rfl | hmem
    · exact hnew
    · exact fun hother => h.notMem other hmem (List.mem_append_left _ hother)
  leadsTo other hmem := by
    rcases List.mem_cons.mp hmem with rfl | hmem
    · exact hleads
    · exact h.leadsTo other hmem

end Fresh

/-- There is never room for less than nothing. -/
theorem Room.pos {n : Nat} {inFlight : List String} (h : R.Room n inFlight) : 0 < n :=
  h [] (.nil inFlight)

/-- There is room for one location less once one is in flight. -/
theorem Room.enter {n : Nat} {inFlight : List String} (h : R.Room (n + 1) inFlight)
    {location : String} (hnew : location ∉ inFlight) (hleads : R.LeadsTo location) :
    R.Room n (inFlight ++ [location]) := by
  intro locations hfresh
  have hlength := h _ (hfresh.cons hnew hleads)
  rw [List.length_cons] at hlength
  omega

/-- There is room for one location more than references lead to. -/
theorem AtMost.room {n : Nat} (h : R.AtMost n) (inFlight : List String) :
    R.Room (n + 1) inFlight :=
  fun locations hfresh => Nat.lt_succ_of_le (h locations ⟨hfresh.nodup, nofun, hfresh.leadsTo⟩)

/-- A bound may be raised. -/
theorem AtMost.mono {n m : Nat} (h : R.AtMost n) (hle : n ≤ m) : R.AtMost m :=
  fun locations hfresh => Nat.le_trans (h locations hfresh) hle

/-- Fewer references lead to fewer locations. -/
theorem AtMost.of_imp {n : Nat} (h : R'.AtMost n)
    (hR : ∀ point written, R point written → R' point written) : R.AtMost n :=
  fun locations hfresh => h locations (hfresh.mono hR)

/-- A document may still be asked for when more schemas are registered. -/
theorem Opens.of_isPrefix {r r' : Registry} {documentPoint : String} (h : R.Opens r documentPoint)
    (hentries : r.entries <+: r'.entries) : R.Opens r' documentPoint :=
  h.imp id fun ⟨entry, hentry, heq⟩ => ⟨entry, hentries.subset hentry, heq⟩

/-- More references lead to more documents. -/
theorem Opens.mono {r : Registry} {documentPoint : String} (h : R.Opens r documentPoint)
    (hR : ∀ point written, R point written → R' point written) : R'.Opens r documentPoint :=
  h.imp (fun ⟨point, written, hread, heq⟩ => ⟨point, written, hR _ _ hread, heq⟩) id

end Reading

/-- What steps of a run may do. -/
structure Permission where
  /-- The references that may be read, each of them from the document at a point. -/
  reads : Reading
  /-- Whether documents may be asked for that no reference leads to. -/
  opens : Prop
  /-- Whether names may be asked for that no reference leads to. -/
  asks : Prop
  /-- Whether declarations may be finished. -/
  finishes : Prop
  /-- Whether an allowance may be used up. -/
  exhausts : Prop

/-- Nothing but reading these references may be done. -/
def Reading.only (R : Reading) : Permission := ⟨R, False, False, False, False⟩

/-- All references may be read, and allowances may be used up. -/
def Permission.readsAll : Permission := ⟨fun _ _ => True, False, False, False, True⟩

/-- Declarations may be finished on the way. -/
def Reading.declaring (R : Reading) : Permission := { R.only with finishes := True }

namespace Permission

/-- There is room for fewer than so many locations, if that matters. -/
def Room (may : Permission) (n : Nat) (inFlight : List String) : Prop :=
  may.exhausts ∨ may.reads.Room n inFlight

/-- References lead to at most so many locations, if that matters. -/
def AtMost (may : Permission) (n : Nat) : Prop := may.exhausts ∨ may.reads.AtMost n

/-- A document may be asked for because of what was read or registered, or in any case. -/
def Opens (may : Permission) (r : Registry) (documentPoint : String) : Prop :=
  may.opens ∨ may.reads.Opens r documentPoint

/-- Whatever one permission allows, another one allows, too. -/
structure Within (may may' : Permission) : Prop where
  /-- More references may be read. -/
  reads : ∀ point written, may.reads point written → may'.reads point written
  /-- More documents may be asked for. -/
  opens : may.opens → may'.opens
  /-- More names may be asked for. -/
  asks : may.asks → may'.asks
  /-- Declarations may still be finished. -/
  finishes : may.finishes → may'.finishes
  /-- Allowances may still be used up. -/
  exhausts : may.exhausts → may'.exhausts

variable {may : Permission} {n : Nat} {inFlight : List String}

/-- A permission allows what it allows. -/
theorem Within.refl (may : Permission) : may.Within may := ⟨fun _ _ => id, id, id, id, id⟩

/-- There is room for one location more than references lead to, if that matters. -/
theorem AtMost.room (h : may.AtMost n) (inFlight : List String) : may.Room (n + 1) inFlight :=
  h.imp id fun hatMost => hatMost.room inFlight

/-- There is room for one location less once one is in flight. -/
theorem Room.enter (h : may.Room (n + 1) inFlight) {location : String}
    (hnew : location ∉ inFlight) (hleads : may.reads.LeadsTo location) :
    may.Room n (inFlight ++ [location]) :=
  h.imp id fun hroom => hroom.enter hnew hleads

end Permission

/-- More references may be read. -/
theorem Reading.declaring_within {R R' : Reading}
    (h : ∀ point written, R point written → R' point written) :
    R.declaring.Within R'.declaring :=
  ⟨h, id, id, id, id⟩

/-- Declarations need not be finished. -/
theorem Reading.only_within_declaring {R R' : Reading}
    (h : ∀ point written, R point written → R' point written) : R.only.Within R'.declaring :=
  ⟨h, id, id, fun _ => trivial, id⟩

/-- A request for the name of what a reference leads to, which exists. -/
structure NameRequest.IsFor (request : NameRequest) (graph : Graph) (point written : String) :
    Prop where
  /-- It is about the document of the reference. -/
  documentPoint_eq : request.documentPoint = Reference.documentOf point written
  /-- It is about the segments of the reference. -/
  segments_eq : request.segments = Reference.segments written
  /-- Its path is the location of the reference. -/
  canonicalPath_eq : request.canonicalPath = Reference.location point written
  /-- There is something. -/
  exists_value : ∃ value, graph.lookup request.documentPoint request.segments = .ok value

/-- The request is for a reference that may be read and was read, unless others may
be made. -/
def NameRequest.Arises (request : NameRequest) (graph : Graph) (may : Permission)
    (journal : List Event) : Prop :=
  may.asks ∨ ∃ point written, may.reads point written ∧ .classified point written ∈ journal ∧
    request.IsFor graph point written

/-- The description in a schema. -/
def Json.description : Json → Json
  | .obj members => Members.get members "description"
  | _ => .null

/-- A declaration of an entry: its type is the conversion of what is found at the
segments of the entry in its document, and its description is from there. -/
structure Context.Defines (context : Context) (r : Registry) (entry : Entry) (d : Declaration) :
    Prop where
  /-- The declaration has the canonical path of the entry. -/
  canonicalPath_eq : d.canonicalPath = entry.canonicalPath
  /-- The declaration has the identifier of the entry. -/
  identifier_eq : d.identifier = entry.identifier
  /-- The declaration describes and converts what is found. -/
  converted : ∃ value inFlight unnamed,
    context.graph.lookup entry.documentPoint entry.segments = .ok value ∧
      d.description = value.description ∧
      (Conversion.script context (Conversion.maxNested context value + 1) (some inFlight)
        entry.documentPoint .null (Pointer.locate "" entry.segments) value).result = .ok unnamed ∧
      r.Names unnamed d.type

/-- More schemas may be registered. -/
theorem Context.Defines.ensureAll {context : Context} {r : Registry} {entry : Entry}
    {d : Declaration} (h : context.Defines r entry d) (requests : List NameRequest) :
    context.Defines (r.ensureAll requests) entry d where
  canonicalPath_eq := h.canonicalPath_eq
  identifier_eq := h.identifier_eq
  converted := by
    obtain ⟨value, inFlight, unnamed, hvalue, hdescription, hscript, hnames⟩ := h.converted
    exact ⟨value, inFlight, unnamed, hvalue, hdescription, hscript, hnames.ensureAll requests⟩

/-- A declaration that defines an entry is a declaration of it. -/
theorem Context.Defines.declares {context : Context} {r : Registry} {entry : Entry}
    {d : Declaration} (h : context.Defines r entry d) (hentry : entry ∈ r.entries) :
    context.Declares r d where
  registered := ⟨entry, hentry, h.canonicalPath_eq.symm, h.identifier_eq.symm⟩
  settled := by
    obtain ⟨_, _, unnamed, _, _, hscript, hnames⟩ := h.converted
    exact hnames.settles (Conversion.script_accounts _ _ _ _ _ _ unnamed hscript).2

/-- How events come about in steps that start with paths in flight and end with a
registry, when they read no other references than they may. -/
def Event.Arises (may : Permission) (inFlight : List String) (r : Registry) : Event → Prop
  | .classified point written => may.reads point written
  | .opened documentPoint => may.Opens r documentPoint
  | .entered paths => ∃ locations, paths = inFlight ++ locations ∧
    may.reads.Fresh inFlight locations
  | _ => True

/-- How steps fail that start with paths in flight and end with a journal. Their
allowances are not used up unless they may be, what does not exist was looked up in a
document that was asked for, and a cycle goes on from what was in flight. -/
structure Failure.Arises (graph : Graph) (may : Permission) (inFlight : List String)
    (journal : List Event) (failure : Failure) : Prop where
  /-- There was allowance left. -/
  exhausts : failure = .exhausted → may.exhausts
  /-- What does not exist was looked up. -/
  lookedUp : ∀ reference location, failure = .schema (.unresolved reference location) →
    ∃ point segments, .opened point ∈ journal ∧ graph.lookup point segments = .error failure
  /-- A cycle leads back to a location that was put in flight or was in flight before. -/
  cycle : ∀ canonicalPath chain, failure = .schema (.cycle canonicalPath chain) →
    canonicalPath ∈ chain ∧
      ∃ locations, chain = inFlight ++ locations ∧ may.reads.Fresh inFlight locations

/-- A defect does not lie in a lookup, and is no cycle. -/
theorem Failure.IsDefect.arises {failure : Failure} (h : failure.IsDefect) (graph : Graph)
    (may : Permission) (inFlight : List String) (journal : List Event) :
    failure.Arises graph may inFlight journal := by
  constructor
  · rintro rfl
    exact h.elim
  · rintro reference location rfl
    exact h.elim
  · rintro canonicalPath chain rfl
    exact h.elim

/-- What steps can do between two states when they do no more than they may. -/
structure RunState.Progress (context : Context) (may : Permission) (s s' : RunState) :
    Prop where
  /-- They register what references lead to. -/
  registry : ∃ requests, s'.registry = s.registry.ensureAll requests ∧
    ∀ request ∈ requests, request.Arises context.graph may s'.journal
  /-- In the end the same paths are in flight. -/
  inFlight_eq : s'.inFlight = s.inFlight
  /-- They finish declarations of entries, if they may. -/
  finished : ∃ declared, s'.finished = declared ++ s.finished ∧
    ∀ d ∈ declared, may.finishes ∧
      ∃ entry ∈ s'.registry.entries, context.Defines s'.registry entry d
  /-- They write events into the journal. -/
  journal : ∃ events, s'.journal = events ++ s.journal ∧
    ∀ event ∈ events, event.Arises may s.inFlight s'.registry

namespace RunState.Progress

variable {context : Context} {may : Permission} {s s' : RunState}

/-- Doing nothing is progress. -/
theorem refl (s : RunState) : s.Progress context may s where
  registry := ⟨[], rfl, nofun⟩
  inFlight_eq := rfl
  finished := ⟨[], rfl, nofun⟩
  journal := ⟨[], rfl, nofun⟩

/-- Entries are only added, at the end. -/
theorem entries_isPrefix (h : s.Progress context may s') :
    s.registry.entries <+: s'.registry.entries := by
  obtain ⟨requests, hregistry, _⟩ := h.registry
  rw [hregistry]
  exact s.registry.entries_prefix_ensureAll requests

/-- Events stay in the journal. -/
theorem journal_subset (h : s.Progress context may s') : s.journal ⊆ s'.journal := by
  obtain ⟨events, hjournal, _⟩ := h.journal
  rw [hjournal]
  exact List.subset_append_right events s.journal

/-- An event is an old one or comes about in the steps. -/
theorem mem_journal (h : s.Progress context may s') {event : Event} (hmem : event ∈ s'.journal) :
    event ∈ s.journal ∨ event.Arises may s.inFlight s'.registry := by
  obtain ⟨events, hjournal, harises⟩ := h.journal
  rw [hjournal] at hmem
  exact (List.mem_append.mp hmem).symm.imp id (harises event)

/-- A finished declaration is an old one or that of an entry. -/
theorem mem_finished (h : s.Progress context may s') {d : Declaration} (hmem : d ∈ s'.finished) :
    d ∈ s.finished ∨ ∃ entry ∈ s'.registry.entries, context.Defines s'.registry entry d := by
  obtain ⟨declared, hfinished, hdefines⟩ := h.finished
  rw [hfinished] at hmem
  exact (List.mem_append.mp hmem).symm.imp id fun hdeclared => (hdefines d hdeclared).2

/-- Steps finish nothing when they may not. -/
theorem finished_eq (h : s.Progress context may s') (hnot : ¬ may.finishes) :
    s'.finished = s.finished := by
  obtain ⟨declared, hfinished, hdefines⟩ := h.finished
  obtain rfl : declared = [] :=
    List.eq_nil_iff_forall_not_mem.mpr fun d hd => hnot (hdefines d hd).1
  exact hfinished

/-- What each request keeps, progress keeps. -/
theorem keeps (h : s.Progress context may s') {P : Registry → Prop}
    (hP : ∀ r request, P r → P (Registry.ensure r request).2) (hs : P s.registry) :
    P s'.registry := by
  obtain ⟨requests, hregistry, _⟩ := h.registry
  rw [hregistry, Registry.ensureAll]
  exact List.foldlRecOn requests _ hs fun r hr request _ => hP r request hr

/-- Progress leads from a sound state to a sound one, and the registry grows. -/
theorem sound (h : s.Progress context may s') (hs : s.Sound context) :
    s'.Sound context ∧ s.registry.Before s'.registry := by
  obtain ⟨requests, hregistry, _⟩ := h.registry
  have hbefore : s.registry.Before s'.registry := hregistry ▸ .ensureAll hs.registry requests
  refine ⟨⟨hbefore.right_sound, fun d hmem => ?_⟩, hbefore⟩
  rcases h.mem_finished hmem with hmem | ⟨entry, hentry, hdefines⟩
  · exact (hs.finished d hmem).mono hbefore.entries_isPrefix
  · exact hdefines.declares hentry

end RunState.Progress

/-- A request stays one when more may be done and more was written into the journal. -/
theorem NameRequest.Arises.mono {request : NameRequest} {graph : Graph} {may may' : Permission}
    {journal journal' : List Event} (h : request.Arises graph may journal)
    (hwithin : may.Within may') (hjournal : journal ⊆ journal') :
    request.Arises graph may' journal' := by
  refine h.imp hwithin.asks ?_
  rintro ⟨point, written, hread, hclassified, hfor⟩
  exact ⟨point, written, hwithin.reads _ _ hread, hjournal hclassified, hfor⟩

/-- A request stays one when more was written into the journal. -/
theorem NameRequest.Arises.later {request : NameRequest} {graph : Graph} {may : Permission}
    {journal journal' : List Event} (h : request.Arises graph may journal)
    (hjournal : journal ⊆ journal') : request.Arises graph may journal' :=
  h.mono (.refl may) hjournal

/-- An event stays one when more may be done and more is registered. -/
theorem Event.Arises.mono {may may' : Permission} {inFlight : List String} {r r' : Registry}
    {event : Event} (h : event.Arises may inFlight r) (hwithin : may.Within may')
    (hentries : r.entries <+: r'.entries) : event.Arises may' inFlight r' := by
  cases event with
  | classified point written => exact hwithin.reads _ _ h
  | opened documentPoint =>
    exact h.imp hwithin.opens fun hopens => (hopens.of_isPrefix hentries).mono hwithin.reads
  | entered paths =>
    obtain ⟨locations, heq, hfresh⟩ := h
    exact ⟨locations, heq, hfresh.mono hwithin.reads⟩
  | _ => trivial

/-- A failure stays one when more was written into the journal. -/
theorem Failure.Arises.mono {graph : Graph} {may : Permission} {inFlight : List String}
    {journal journal' : List Event} {failure : Failure}
    (h : failure.Arises graph may inFlight journal) (hjournal : journal ⊆ journal') :
    failure.Arises graph may inFlight journal' where
  exhausts := h.exhausts
  lookedUp reference location heq := by
    obtain ⟨point, segments, hopened, hlookup⟩ := h.lookedUp reference location heq
    exact ⟨point, segments, hjournal hopened, hlookup⟩
  cycle := h.cycle

/-- A failure stays one when more may be done. -/
theorem Failure.Arises.within {graph : Graph} {may may' : Permission} {inFlight : List String}
    {journal : List Event} {failure : Failure} (h : failure.Arises graph may inFlight journal)
    (hwithin : may.Within may') : failure.Arises graph may' inFlight journal where
  exhausts heq := hwithin.exhausts (h.exhausts heq)
  lookedUp := h.lookedUp
  cycle canonicalPath chain heq := by
    obtain ⟨hmet, locations, hchain, hfresh⟩ := h.cycle canonicalPath chain heq
    exact ⟨hmet, locations, hchain, hfresh.mono hwithin.reads⟩

/-- A failure while a location is in flight is one of the step around it. -/
theorem Failure.Arises.leave {graph : Graph} {may : Permission} {inFlight : List String}
    {journal : List Event} {failure : Failure} {location : String}
    (h : failure.Arises graph may (inFlight ++ [location]) journal) (hnew : location ∉ inFlight)
    (hleads : may.reads.LeadsTo location) : failure.Arises graph may inFlight journal where
  exhausts := h.exhausts
  lookedUp := h.lookedUp
  cycle canonicalPath chain heq := by
    obtain ⟨hmet, locations, rfl, hfresh⟩ := h.cycle canonicalPath chain heq
    exact ⟨hmet, location :: locations, by simp, hfresh.cons hnew hleads⟩

/-- The state while a path is being expanded. -/
def RunState.entering (s : RunState) (canonicalPath : String) : RunState :=
  { s with
    inFlight := s.inFlight ++ [canonicalPath]
    journal := .entered (s.inFlight ++ [canonicalPath]) :: s.journal }

/-- The innermost path is taken out of flight, whichever it is. -/
def RunState.leaving (s : RunState) : RunState := { s with inFlight := s.inFlight.dropLast }

namespace RunState.Progress

variable {context : Context} {may may' : Permission} {s s' s'' : RunState}

/-- Steps one after another make progress. -/
theorem trans (h : s.Progress context may s') (h' : s'.Progress context may s'') :
    s.Progress context may s'' where
  registry := by
    obtain ⟨requests, hregistry, harise⟩ := h.registry
    obtain ⟨requests', hregistry', harise'⟩ := h'.registry
    refine ⟨requests ++ requests', ?_, fun request hmem => ?_⟩
    · rw [hregistry', hregistry, Registry.ensureAll_append]
    · rcases List.mem_append.mp hmem with hmem | hmem
      · exact (harise request hmem).later h'.journal_subset
      · exact harise' request hmem
  inFlight_eq := h'.inFlight_eq.trans h.inFlight_eq
  finished := by
    obtain ⟨declared, hfinished, hdefines⟩ := h.finished
    obtain ⟨declared', hfinished', hdefines'⟩ := h'.finished
    refine ⟨declared' ++ declared, ?_, fun d hmem => ?_⟩
    · rw [hfinished', hfinished, List.append_assoc]
    · rcases List.mem_append.mp hmem with hmem | hmem
      · exact hdefines' d hmem
      · obtain ⟨hmay, entry, hentry, hdefined⟩ := hdefines d hmem
        obtain ⟨requests, hregistry, _⟩ := h'.registry
        refine ⟨hmay, entry, h'.entries_isPrefix.subset hentry, ?_⟩
        rw [hregistry]
        exact hdefined.ensureAll requests
  journal := by
    obtain ⟨events, hjournal, harise⟩ := h.journal
    obtain ⟨events', hjournal', harise'⟩ := h'.journal
    refine ⟨events' ++ events, ?_, fun event hmem => ?_⟩
    · rw [hjournal', hjournal, List.append_assoc]
    · rcases List.mem_append.mp hmem with hmem | hmem
      · exact h.inFlight_eq ▸ harise' event hmem
      · exact (harise event hmem).mono (.refl may) h'.entries_isPrefix

/-- More may be done. -/
theorem mono (h : s.Progress context may s') (hwithin : may.Within may') :
    s.Progress context may' s' where
  registry := by
    obtain ⟨requests, hregistry, harise⟩ := h.registry
    exact ⟨requests, hregistry, fun request hmem =>
      (harise request hmem).mono hwithin (List.Subset.refl _)⟩
  inFlight_eq := h.inFlight_eq
  finished := by
    obtain ⟨declared, hfinished, hdefines⟩ := h.finished
    exact ⟨declared, hfinished, fun d hmem => (hdefines d hmem).imp hwithin.finishes id⟩
  journal := by
    obtain ⟨events, hjournal, harise⟩ := h.journal
    exact ⟨events, hjournal, fun event hmem =>
      (harise event hmem).mono hwithin (List.prefix_refl _)⟩

/-- An event that comes about is written into the journal. -/
theorem record (s : RunState) {event : Event}
    (h : event.Arises may s.inFlight s.registry) :
    s.Progress context may { s with journal := event :: s.journal } where
  registry := ⟨[], rfl, nofun⟩
  inFlight_eq := rfl
  finished := ⟨[], rfl, nofun⟩
  journal := ⟨[event], rfl, fun _ hmem => List.mem_singleton.mp hmem ▸ h⟩

/-- The name of what a reference leads to is asked for. -/
theorem ensure (s : RunState) {request : NameRequest}
    (h : request.Arises context.graph may s.journal) :
    s.Progress context may { s with
      registry := (s.registry.ensure request).2
      journal := .named request :: s.journal } where
  registry := ⟨[request], rfl, fun _ hmem => List.mem_singleton.mp hmem ▸
    h.later (List.subset_cons_self ..)⟩
  inFlight_eq := rfl
  finished := ⟨[], rfl, nofun⟩
  journal := by
    refine ⟨[.named request], rfl, fun event hmem => ?_⟩
    obtain rfl := List.mem_singleton.mp hmem
    trivial

/-- A declaration of an entry is finished. -/
theorem finish (s : RunState) (hmay : may.finishes) {entry : Entry}
    (hentry : entry ∈ s.registry.entries) {d : Declaration}
    (h : context.Defines s.registry entry d) :
    s.Progress context may { s with finished := d :: s.finished } where
  registry := ⟨[], rfl, nofun⟩
  inFlight_eq := rfl
  finished := by
    refine ⟨[d], rfl, fun other hmem => ?_⟩
    obtain rfl := List.mem_singleton.mp hmem
    exact ⟨hmay, entry, hentry, h⟩
  journal := ⟨[], rfl, nofun⟩

/-- Steps make progress while a location is in flight, which is taken out in the
end. -/
theorem expanding {location : String} (hnew : location ∉ s.inFlight)
    (hleads : may.reads.LeadsTo location)
    (h : (s.entering location).Progress context may s') : s.Progress context may s'.leaving where
  registry := h.registry
  inFlight_eq := by
    rw [leaving, h.inFlight_eq]
    exact List.dropLast_concat
  finished := h.finished
  journal := by
    obtain ⟨events, hjournal, harise⟩ := h.journal
    refine ⟨events ++ [.entered (s.inFlight ++ [location])], ?_, fun event hmem => ?_⟩
    · rw [leaving, hjournal, entering, List.append_assoc, List.singleton_append]
    · rcases List.mem_append.mp hmem with hmem | hmem
      · -- What was put in flight later was put behind the location.
        have harises := harise event hmem
        cases event with
        | entered paths =>
          obtain ⟨locations, rfl, hfresh⟩ := harises
          exact ⟨location :: locations, by simp [entering], hfresh.cons hnew hleads⟩
        | _ => exact harises
      · obtain rfl := List.mem_singleton.mp hmem
        exact ⟨[location], rfl, (Reading.Fresh.nil _).cons hnew hleads⟩

end RunState.Progress

end ApiTypes
