import ApiTypes.Proofs.Calculation
import ApiTypes.Proofs.Document.Point
import ApiTypes.Proofs.Document.Pointer

/-!
# Where references lead

A reference leads to the document that its document part names, as seen from
the document that holds it, and to the segments of its pointer. Both are known
from the reference alone, without looking at any document.
-/

namespace ApiTypes.Reference

/-- The segments of the pointer in a written reference. -/
def segments (written : String) : List String :=
  if written.toList.head? = some '#' then Pointer.split written
  else Pointer.split (splitWritten written).2

/-- The document that a written reference points into, when it is read from the
document at a point. -/
def documentOf (currentPoint written : String) : String :=
  let current := Point.normalize currentPoint
  if written.toList.head? = some '#' then current
  else Point.normalize (Point.join (Point.directory current) (splitWritten written).1)

/-- The location that a reference leads to. -/
def location (currentPoint written : String) : String :=
  Pointer.locate (documentOf currentPoint written) (segments written)

/-- A reference that is read leads to its document and its segments, of which
there are none when it leads to a component document. -/
theorem gives_classify (graph : Graph) (currentPoint written : String) :
    Gives (fun reference => reference.documentPoint = documentOf currentPoint written ∧
      reference.path = segments written ∧
      ∀ component, reference.kind = .componentDocument component → reference.path = [])
      (classify graph currentPoint written) := by
  have hgives := graph.gives_target (Point.normalize currentPoint) (splitWritten written).1
  rw [Point.normalize_normalize] at hgives
  simp only [classify, documentOf, segments]
  generalize Point.normalize currentPoint = current at hgives ⊢
  generalize Point.normalize (Point.join (Point.directory current) (splitWritten written).1) =
    documentPoint at hgives ⊢
  generalize graph.target current (splitWritten written).1 = result at hgives ⊢
  generalize Pointer.split (splitWritten written).2 = path
  split
  · exact ⟨rfl, rfl, nofun⟩
  · refine hgives.bind fun target htarget => ?_
    rw [← htarget]
    split
    · cases path with
      | nil => exact ⟨rfl, rfl, fun _ _ => rfl⟩
      | cons first rest => exact ⟨rfl, rfl, nofun⟩
    · exact ⟨rfl, rfl, nofun⟩

/-- References lead to points in normal form. -/
theorem normalize_documentOf (currentPoint written : String) :
    Point.normalize (documentOf currentPoint written) = documentOf currentPoint written := by
  unfold documentOf
  split <;> exact Point.normalize_normalize _

/-- The document part of a reference has no `#`. -/
theorem hash_not_mem_splitWritten (written : String) : '#' ∉ (splitWritten written).1.toList := by
  intro h
  rw [splitWritten, String.toList_ofList] at h
  have hkept := List.all_eq_true.mp List.all_takeWhile '#' h
  simp at hkept

/-- References from a document without `#` lead to such documents. -/
theorem hash_not_mem_documentOf {currentPoint : String}
    (h : '#' ∉ (Point.normalize currentPoint).toList) (written : String) :
    '#' ∉ (documentOf currentPoint written).toList := by
  unfold documentOf
  split
  · exact h
  · intro hmem
    rcases Point.mem_normalize hmem with hslash | hmem
    · exact absurd hslash (by decide)
    · rcases Point.mem_join hmem with hslash | hmem | hmem
      · exact absurd hslash (by decide)
      · exact h (Point.mem_directory hmem)
      · exact hash_not_mem_splitWritten written hmem

/-- A reference whose pointer has no first segment that starts with a `#`. -/
def Plain (written : String) : Prop :=
  ∀ first ∈ (segments written).head?, first.toList.head? ≠ some '#'

instance (written : String) : Decidable (Plain written) :=
  inferInstanceAs (Decidable (∀ first ∈ (segments written).head?, first.toList.head? ≠ some '#'))

/-- The location that such a reference leads to can be read back. -/
theorem Plain.segments {written : String} (h : Plain written) :
    Pointer.Plain (Reference.segments written) := by
  cases hsegments : Reference.segments written with
  | nil => trivial
  | cons first rest =>
    refine ⟨?_, h first (by rw [hsegments]; rfl)⟩
    unfold Reference.segments at hsegments
    split at hsegments <;> exact Pointer.split_first_ne_empty hsegments

end ApiTypes.Reference
