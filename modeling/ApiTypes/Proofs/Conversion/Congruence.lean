import ApiTypes.Proofs.Conversion.Script
import ApiTypes.Proofs.Reference

/-!
# Comparing conversions

Conversions with other allowances or guards read the same schemas and
references, and differ only in what they do at the places that they expand. A
relation between scripts that holds for what they share, and for scripts one
after another, holds for conversions when it holds at those places.
-/

namespace ApiTypes

/-- A script that fails only for a cause of its own. -/
def Script.Plain {α : Type} (script : Script α) : Prop := Finds (fun _ => True) script.result

namespace Script.Plain

variable {α β : Type} {Q : α → Prop} {context : Context}

/-- Giving something fails in no way. -/
theorem pure (a : α) : (Pure.pure a : Script α).Plain := trivial

/-- A calculation fails plainly when it is known what it finds. -/
theorem ofExcept {result : Except Failure α} (h : Finds Q result) :
    (Script.ofExcept result).Plain :=
  h.mono fun _ _ => trivial

/-- Writing an event down fails in no way. -/
theorem record (event : Event) : (Script.record event).Plain := trivial

/-- Scripts one after another fail plainly if both do. -/
theorem bind {script : Script α} {next : α → Script β} (h : script.Plain)
    (hnext : ∀ a, script.result = .ok a → (next a).Plain) : (script >>= next).Plain := by
  obtain ⟨events, result⟩ := script
  cases result with
  | error failure => exact h
  | ok a => exact hnext a rfl

/-- A missing document is a plain failure. -/
theorem document (point : String) : (Script.document context point).Plain :=
  (record _).bind fun _ _ => ofExcept (context.graph.finds_document point)

/-- A missing value is a plain failure. -/
theorem lookup (point : String) (segments : List String) :
    (Script.lookup context point segments).Plain :=
  (record _).bind fun _ _ => ofExcept (context.graph.finds_lookup point segments)

end Script.Plain

namespace Context

variable {context : Context} {point : String}

/-- Finding the place of a reference fails plainly. -/
theorem placeScript_plain (reference : Reference) : (context.placeScript reference).Plain := by
  refine (Script.Plain.ofExcept context.settings.gives_depth.finds).bind fun componentDepth _ => ?_
  split
  · exact (Script.Plain.lookup _ _).bind fun _ _ => .pure _
  · exact .pure _

/-- Finding out where a reference leads fails only for a cause of its own. -/
theorem destination_plain (ref : Json) : (context.destination point ref).Plain := by
  have hreference : (context.referenceScript point ref).Plain := by
    cases ref with
    | str written =>
      exact (Script.Plain.record _).bind fun _ _ =>
        .ofExcept (Reference.gives_classify context.graph point written).finds
    | _ => trivial
  refine hreference.bind fun reference _ => ?_
  split
  · exact (Script.Plain.document _).bind fun _ _ => .pure _
  · exact placeScript_plain reference

/-- A place is that of the reference. -/
theorem placeScript_place {reference : Reference} {documentPoint : String} {path : List String}
    (h : (context.placeScript reference).result = .ok (.place documentPoint path)) :
    documentPoint = reference.documentPoint ∧ path = reference.path := by
  obtain ⟨componentDepth, _, hplace, _⟩ := Script.exists_of_bind_ok h
  split at hplace
  · obtain ⟨_, _, hcomponent, _⟩ := Script.exists_of_bind_ok hplace
    cases hcomponent
  · cases hplace
    exact ⟨rfl, rfl⟩

/-- The name of a component is asked for under the location of the reference. -/
theorem placeScript_component {reference : Reference} {request : NameRequest}
    (h : (context.placeScript reference).result = .ok (.component request)) :
    request.canonicalPath = reference.canonicalPath := by
  obtain ⟨componentDepth, _, hcomponent, _⟩ := Script.exists_of_bind_ok h
  split at hcomponent
  · obtain ⟨_, _, hnamed, _⟩ := Script.exists_of_bind_ok hcomponent
    cases hnamed
    rfl
  · cases hcomponent

/-- A reference that is read is a text, which leads to its document and its segments. -/
theorem exists_of_referenceScript_ok {ref : Json} {reference : Reference}
    (h : (context.referenceScript point ref).result = .ok reference) :
    ∃ written, ref = .str written ∧ reference.documentPoint = Reference.documentOf point written ∧
      reference.path = Reference.segments written ∧
      ∀ component, reference.kind = .componentDocument component → reference.path = [] := by
  cases ref with
  | str written =>
    have hclassify : Reference.classify context.graph point written = .ok reference := h
    have hgives := Reference.gives_classify context.graph point written
    rw [hclassify] at hgives
    exact ⟨written, rfl, hgives⟩
  | _ => cases h

/-- A place that a reference leads to is that of its segments in its document. -/
theorem destination_place {ref : Json} {documentPoint : String} {path : List String}
    (h : (context.destination point ref).result = .ok (.place documentPoint path)) :
    ∃ written, ref = .str written ∧ documentPoint = Reference.documentOf point written ∧
      path = Reference.segments written := by
  obtain ⟨reference, hreference, hplace, _⟩ := Script.exists_of_bind_ok h
  obtain ⟨written, rfl, hpoint, hpath, _⟩ := exists_of_referenceScript_ok hreference
  split at hplace
  · obtain ⟨_, _, hcomponent, _⟩ := Script.exists_of_bind_ok hplace
    cases hcomponent
  · obtain ⟨rfl, rfl⟩ := placeScript_place hplace
    exact ⟨written, rfl, hpoint, hpath⟩

/-- A component that a reference leads to has the location of the reference. -/
theorem destination_component {ref : Json} {request : NameRequest}
    (h : (context.destination point ref).result = .ok (.component request)) :
    ∃ written, ref = .str written ∧ request.canonicalPath = Reference.location point written := by
  obtain ⟨reference, hreference, hcomponent, _⟩ := Script.exists_of_bind_ok h
  obtain ⟨written, rfl, hpoint, hpath, hempty⟩ := exists_of_referenceScript_ok hreference
  refine ⟨written, rfl, ?_⟩
  rw [Reference.location, ← hpoint, ← hpath]
  split at hcomponent
  · rename_i component hkind
    obtain ⟨_, _, hnamed, _⟩ := Script.exists_of_bind_ok hcomponent
    cases hnamed
    rw [hempty component hkind]
    rfl
  · exact placeScript_component hcomponent

end Context

namespace Script

/-- A relation between scripts that holds for what fails only for a cause of its
own, and for scripts one after another. -/
structure Congruence (R : {α : Type} → Script α → Script α → Prop) : Prop where
  /-- A script that fails only for a cause of its own is related to itself. -/
  refl {α : Type} {script : Script α} (h : script.Plain) : R script script
  /-- Related scripts go on with related scripts. -/
  bind {α β : Type} {first second : Script α} {next next' : α → Script β} (h : R first second)
    (hnext : ∀ a, first.result = .ok a → R (next a) (next' a)) :
    R (first >>= next) (second >>= next')

namespace Congruence

open Conversion

variable {R : {α : Type} → Script α → Script α → Prop} {context : Context}

/-- Related scripts for the items of a list are related one after another. -/
theorem mapM (hR : Congruence R) {α β : Type} {f f' : α → Script β} {items : List α}
    (h : ∀ item ∈ items, R (f item) (f' item)) : R (items.mapM f) (items.mapM f') := by
  induction items with
  | nil => exact hR.refl (.pure [])
  | cons item rest ih =>
    rw [List.mapM_cons, List.mapM_cons]
    refine hR.bind (h item (List.mem_cons_self ..)) fun _ _ => ?_
    refine hR.bind (ih fun other hmem => h other (List.mem_cons_of_mem _ hmem)) fun _ _ => ?_
    exact hR.refl (.pure _)

/-- Scripts of one plan are related when those of its references are. -/
theorem plan (hR : Congruence R) {plan : Plan context TypeExpr} {P : String → Prop}
    (hreads : plan.Reads P) {follow follow' : Members → Json → Script TypeExpr}
    (h : ∀ raw ref, (∀ written, ref = .str written → P written) →
      R (follow raw ref) (follow' raw ref)) :
    R (plan.script follow) (plan.script follow') := by
  refine hR.bind (hR.mapM fun task hmem => ?_) fun types _ => hR.refl (.pure _)
  cases task with
  | warn parent => exact hR.refl (.bind (.record _) fun _ _ => .pure _)
  | fail failure hdefect => exact hR.refl hdefect.plain
  | follow raw ref => exact h raw ref (hreads _ hmem)

/-- What a reference converts to is related when what is found at its place is. -/
theorem follow (hR : Congruence R) {expand expand' : ExpandScript} {watch watch' : Watch}
    {point : String} {raw : Members} {ref : Json}
    (h : ∀ written, ref = .str written →
      R (placedScript context expand watch raw (Reference.documentOf point written)
          (Reference.segments written))
        (placedScript context expand' watch' raw (Reference.documentOf point written)
          (Reference.segments written))) :
    R (followScript context expand watch point raw ref)
      (followScript context expand' watch' point raw ref) := by
  refine hR.bind (hR.refl (context.destination_plain ref)) fun destination hdestination => ?_
  cases destination with
  | component request => exact hR.refl (.pure _)
  | place documentPoint path =>
    obtain ⟨written, href, rfl, rfl⟩ := Context.destination_place hdestination
    exact h written href

/-- Conversions of one value are related when those of the places are that the
references in it lead to. -/
theorem script (hR : Congruence R) {P : String → Prop} {allowance allowance' : Nat}
    {watch watch' : Watch} {point path : String} {parent schema : Json}
    (hrefs : ∀ ref ∈ schema.refs, P ref)
    (h : ∀ raw written, P written →
      R (placedScript context (Conversion.script context allowance) watch raw
          (Reference.documentOf point written) (Reference.segments written))
        (placedScript context (Conversion.script context allowance') watch' raw
          (Reference.documentOf point written) (Reference.segments written))) :
    R (Conversion.script context (allowance + 1) watch point parent path schema)
      (Conversion.script context (allowance' + 1) watch' point parent path schema) := by
  have hparse := Schema.parse_allRefs path schema hrefs
  refine hR.bind (hR.refl (.ofExcept hparse.finds)) fun node hnode => ?_
  have hnodeRefs : node.AllRefs P := by
    have hresult : Schema.parse path schema = .ok node := hnode
    rwa [hresult] at hparse
  apply hR.plan (nodePlan_reads point parent node hnodeRefs)
  intro raw ref hwritten
  exact hR.follow fun written href => h raw written (hwritten written href)

end Congruence

end Script

end ApiTypes
