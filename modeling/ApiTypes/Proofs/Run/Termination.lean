import Mathlib.Data.Finset.Prod
import ApiTypes.Proofs.Run.Calls

/-!
# Runs end

References can lead in circles, and declarations make room for further ones. Yet
a step never uses up its allowance: what is put in flight together are locations
of different references, of which there are finitely many, and the same
references lead to everything that comes to be registered.
-/

namespace ApiTypes

/-- A reference is read from the document at a point in normal form. -/
theorem Reference.location_normalize (point written : String) :
    location (Point.normalize point) written = location point written := by
  unfold location documentOf
  rw [Point.normalize_normalize]

/-- The pairs of a document and a reference that matter when a step starts with a
value at a point: the documents are those of the graph and that at the point, and
the references are those in the graph and in the value. -/
def Context.readable (context : Context) (point : String) (start : Json) :
    Finset (String × String) :=
  insert (Point.normalize point) context.graph.points.toFinset ×ˢ
    (context.graph.refs ++ start.refs).toFinset

/-- The references of such pairs may be read. -/
def Reading.among (pairs : Finset (String × String)) : Reading :=
  fun point written => (Point.normalize point, written) ∈ pairs

/-- References lead to at most as many locations as there are pairs. -/
theorem Reading.atMost_card (pairs : Finset (String × String)) :
    (Reading.among pairs).AtMost pairs.card := by
  intro locations hfresh
  have hsubset : locations.toFinset ⊆
      pairs.image fun pair => Reference.location pair.1 pair.2 := by
    intro location hmem
    obtain ⟨point, written, hread, rfl⟩ := hfresh.leadsTo location (List.mem_toFinset.mp hmem)
    exact Finset.mem_image.mpr ⟨_, hread, Reference.location_normalize point written⟩
  calc locations.length
    _ = locations.toFinset.card := (List.toFinset_card_of_nodup hfresh.nodup).symm
    _ ≤ (pairs.image fun pair => Reference.location pair.1 pair.2).card :=
      Finset.card_le_card hsubset
    _ ≤ pairs.card := Finset.card_image_le

/-- The entry document has no other references than the graph. -/
theorem Graph.refs_rootDocument_subset (graph : Graph) :
    graph.rootDocument.refs ⊆ graph.refs := by
  unfold rootDocument Members.get
  cases hroot : Members.get? graph.documents graph.entryPoint with
  | none => exact List.nil_subset _
  | some root =>
    exact fun _ href => List.mem_flatMap.mpr ⟨_, Members.mem_of_get? hroot, href⟩

namespace Context

variable (context : Context) (point : String) (start : Json)

/-- There are not more pairs than expansions may nest. -/
theorem card_readable_le :
    (context.readable point start).card ≤ Conversion.maxNested context start := by
  have hpoints : (insert (Point.normalize point) context.graph.points.toFinset).card ≤
      context.graph.documents.length + 1 := by
    refine (Finset.card_insert_le _ _).trans (Nat.add_le_add_right ?_ 1)
    exact (List.toFinset_card_le _).trans_eq (List.length_map _)
  have hrefs : (context.graph.refs ++ start.refs).toFinset.card ≤
      context.graph.refs.length + start.refs.length :=
    (List.toFinset_card_le _).trans_eq List.length_append
  rw [readable, Finset.card_product, Conversion.maxNested]
  exact Nat.mul_le_mul hpoints hrefs

/-- The references in the documents are among those of the pairs. -/
theorem readable_covers : (Reading.among (context.readable point start)).Covers context.graph := by
  intro current document hdocument ref href
  have hfinds := context.graph.finds_document current
  rw [hdocument] at hfinds
  obtain ⟨hpoint, hrefs⟩ := hfinds
  refine Finset.mem_product.mpr ⟨Finset.mem_insert_of_mem (List.mem_toFinset.mpr hpoint), ?_⟩
  exact List.mem_toFinset.mpr (List.mem_append_left _ (hrefs href))

/-- The references in a value, at the point, are among those of the pairs when they
are in the graph or in the value that the step starts with. -/
theorem readable_allows {value : Json} (h : value.refs ⊆ context.graph.refs ++ start.refs) :
    (Reading.among (context.readable point start)).Allows point value :=
  fun _ href => Finset.mem_product.mpr
    ⟨Finset.mem_insert_self _ _, List.mem_toFinset.mpr (h href)⟩

/-- The references in the documents suit a run. -/
theorem readable_suits : (Reading.among (context.readable point .null)).Suits context where
  covers := context.readable_covers point .null
  atMost := (Reading.atMost_card _).mono (context.card_readable_le point .null)

end Context

namespace Run

variable {α : Type}

/-- A step that starts in a state ends without using up its allowance. In the end
the same paths are in flight as before, and on the way there are at most so many
more. -/
structure EndsWithin (bound : Nat) (m : Run α) (s : RunState) : Prop where
  /-- There is a result or another failure. -/
  ne_exhausted : (m.run s).1 ≠ .error .exhausted
  /-- What was put in flight was taken out again. -/
  inFlight_eq : (m.run s).2.inFlight = s.inFlight
  /-- The paths in flight are never more than those before and the bound. -/
  length_le : ∀ paths, .entered paths ∈ (m.run s).2.journal →
    .entered paths ∈ s.journal ∨ paths.length ≤ s.inFlight.length + bound

/-- A step ends within a bound when references lead to no more locations and its
allowance may not be used up. -/
theorem Does.endsWithin {context : Context} {may : Permission} {Q : Registry → α → Prop}
    {m : Run α} {s : RunState} (h : Does context may Q m s) (hnot : ¬ may.exhausts) {bound : Nat}
    (hatMost : may.reads.AtMost bound) : EndsWithin bound m s where
  ne_exhausted hexhausted := hnot ((h.fails .exhausted hexhausted).exhausts rfl)
  inFlight_eq := h.progress.inFlight_eq
  length_le paths hmem := by
    refine (h.progress.mem_journal hmem).imp id fun harises => ?_
    obtain ⟨locations, rfl, hfresh⟩ := harises
    have hbound := hatMost locations ⟨hfresh.nodup, nofun, hfresh.leadsTo⟩
    rw [List.length_append]
    omega

end Run

namespace Context

variable (context : Context) (s : RunState)

/-- A conversion reads no other references than those of the pairs that matter for its
schema. -/
theorem convertSchema_does (point : String) (schema : Json) (path : String) (parent : Json) :
    Run.Does context (Reading.among (context.readable point schema)).only context.Settles
      (context.convertSchema point schema path parent) s :=
  .convertSchema (context.readable_covers point schema)
    (.inr ((Reading.atMost_card _).mono (context.card_readable_le point schema)))
    (context.readable_allows point schema (List.subset_append_right _ _)) path parent

/-- So does a conversion under a report. -/
theorem convert_does (entryPoint point : String) (schema : Json) (path : String) :
    Run.Does context (Reading.among (context.readable point schema)).only context.Settles
      (context.convert entryPoint point schema path) s :=
  (context.convertSchema_does s point schema path .null).reporting entryPoint schema

/-- The declarations read no other references than those in the documents. -/
theorem declarations_does :
    Run.Does context (Reading.among (context.readable context.graph.entryPoint .null)).declaring
      (fun r ds => ∀ d ∈ ds, d ∈ s.finished ∨ ∃ entry ∈ r.entries, context.Defines r entry d)
      context.declarations s :=
  .declarations (context.readable_suits context.graph.entryPoint).declaring trivial

/-- Neither do the operations. -/
theorem operations_does :
    Run.Does context (Reading.among (context.readable context.graph.entryPoint .null)).only
      context.SettlesAll context.operations s :=
  .operations (context.readable_suits context.graph.entryPoint).only
    (context.readable_allows context.graph.entryPoint .null
      (List.subset_append_of_subset_left _ context.graph.refs_rootDocument_subset))

end Context

/-- Runs end, however the documents refer to themselves and to each other. From
every state a conversion of any value, the declarations and the operations end
with a result or a failure that is not the want of allowance. The paths that they
put in flight on the way are at most as many as there are pairs of a document, of
the graph or where the step starts, and a reference in the graph or in the value. -/
theorem steps_end (context : Context) (s : RunState) :
    (∀ entryPoint point schema path, Run.EndsWithin (context.readable point schema).card
      (context.convert entryPoint point schema path) s) ∧
    (∀ point schema path parent, Run.EndsWithin (context.readable point schema).card
      (context.convertSchema point schema path parent) s) ∧
    Run.EndsWithin (context.readable context.graph.entryPoint .null).card context.declarations s ∧
    Run.EndsWithin (context.readable context.graph.entryPoint .null).card context.operations s := by
  refine ⟨fun entryPoint point schema path => ?_, fun point schema path parent => ?_, ?_, ?_⟩
  · exact (context.convert_does s entryPoint point schema path).endsWithin id
      (Reading.atMost_card _)
  · exact (context.convertSchema_does s point schema path parent).endsWithin id
      (Reading.atMost_card _)
  · exact (context.declarations_does s).endsWithin id (Reading.atMost_card _)
  · exact (context.operations_does s).endsWithin id (Reading.atMost_card _)

end ApiTypes
