import ApiTypes.Proofs.Document.Place

/-!
# Looking up values

A lookup goes from value to value, one segment after another, so a path may be cut anywhere:
its second part is looked up in what the first one leads to. A lookup that fails is blamed on
the shortest part of the path that leads nowhere. The one exception is a segment of too many
digits as a position in a list: no number is read from it, and that is a failure of its own.
-/

namespace ApiTypes

namespace Text

/-- A text that is made of decimal digits. -/
def IsDecimal (text : List Char) : Prop := ∀ c ∈ text, (decimalValue? c).isSome

-- The instance is named, since there is also one that goes through all characters there are.
instance (text : List Char) : Decidable (IsDecimal text) := List.decidableBAll _ text

/-- Decimal digits have a value, whatever number stands before them. -/
theorem IsDecimal.isSome_foldlM {digits : List Char} (h : IsDecimal digits) (start : Nat) :
    (digits.foldlM (fun n c => (decimalValue? c).map (n * 10 + ·)) start).isSome := by
  induction digits generalizing start with
  | nil => rfl
  | cons c rest ih =>
    obtain ⟨hc, hrest⟩ := List.forall_mem_cons.mp h
    obtain ⟨value, hvalue⟩ := Option.isSome_iff_exists.mp hc
    rw [List.foldlM_cons, hvalue]
    exact ih hrest (start * 10 + value)

/-- Decimal digits from which no number is read are too many. -/
theorem IsDecimal.numeralLimit_lt {digits : List Char} (h : IsDecimal digits)
    (hnone : numeral? digits = none) : numeralLimit < digits.length := by
  by_contra hle
  have hsome := h.isSome_foldlM 0
  rw [numeral?, if_pos (Nat.le_of_not_lt hle)] at hnone
  rw [hnone] at hsome
  cases hsome

end Text

/-- Every segment that is made of digits is a decimal number. -/
def Pointer.HasDecimals (segments : List String) : Prop :=
  ∀ segment ∈ segments, Text.isDigits segment.toList → Text.IsDecimal segment.toList

instance (segments : List String) : Decidable (Pointer.HasDecimals segments) :=
  inferInstanceAs (Decidable (∀ segment ∈ segments, _ → _))

namespace Json

/-- A segment leads nowhere, or it is a position in a list that cannot be read. -/
theorem child_error_cases {node : Json} {segment : String} {fault : WalkFault}
    (h : node.child segment = .error fault) :
    fault = .missing 1 ∨ fault = .badNumeral ∧ ∃ items, node = .arr items ∧
      Text.isDigits segment.toList ∧ Text.numeral? segment.toList = none := by
  cases node with
  | obj members =>
    simp only [child] at h
    split at h <;> cases h
    exact Or.inl rfl
  | arr items =>
    simp only [child] at h
    split at h
    · rename_i hdigits
      split at h
      · split at h <;> cases h
        exact Or.inl rfl
      · rename_i hnumeral
        cases h
        exact Or.inr ⟨rfl, items, rfl, hdigits, hnumeral⟩
    · cases h
      exact Or.inl rfl
  | _ =>
    cases h
    exact Or.inl rfl

/-- A walk along two lists of segments succeeds when one along the first does and goes on
along the second. -/
theorem walk_append_eq_ok_iff {node value : Json} {first rest : List String} :
    node.walk (first ++ rest) = .ok value ↔
      ∃ found, node.walk first = .ok found ∧ found.walk rest = .ok value := by
  constructor
  · intro h
    induction first generalizing node with
    | nil => exact ⟨node, rfl, h⟩
    | cons segment more ih =>
      obtain ⟨next, hchild, hnext⟩ := exists_of_walk_cons_ok h
      obtain ⟨found, hfirst, hrest⟩ := ih hnext
      exact ⟨found, by simp only [walk, hchild, hfirst], hrest⟩
  · rintro ⟨found, hfirst, hrest⟩
    rw [walk_append rest hfirst, hrest]
    rfl

/-- A walk fails at the first segment that does not lead on. -/
theorem exists_of_walk_error {node : Json} {segments : List String} {fault : WalkFault}
    (h : node.walk segments = .error fault) :
    ∃ before segment after value childFault, segments = before ++ segment :: after ∧
      node.walk before = .ok value ∧ value.child segment = .error childFault ∧
        (childFault = .missing 1 → fault = .missing (before.length + 1)) ∧
          (childFault = .badNumeral → fault = .badNumeral) := by
  induction segments generalizing node fault with
  | nil => cases h
  | cons first rest ih =>
    rw [walk] at h
    split at h
    · rename_i next hchild
      split at h
      · cases h
      · rename_i deeper hwalk
        cases h
        obtain ⟨before, segment, after, value, childFault, rfl, hbefore, hsegment, hmissing,
          hbad⟩ := ih hwalk
        refine ⟨first :: before, segment, after, value, childFault, rfl, ?_, hsegment,
          fun heq => ?_, fun heq => ?_⟩
        · simp only [walk, hchild, hbefore]
        · rw [hmissing heq]
          rfl
        · rw [hbad heq]
          rfl
    · rename_i childFault hchild
      cases h
      exact ⟨[], first, rest, node, fault, rfl, rfl, hchild, fun heq => heq, fun heq => heq⟩

end Json

namespace Graph

/-- The shortest part of a path in a document, from its start on, that leads nowhere. -/
structure BreaksAt (graph : Graph) (point : String) (path part : List String) : Prop where
  /-- The path starts with it. -/
  isPrefix : part <+: path
  /-- Nothing is found there. -/
  missing : ∀ value, graph.lookup point part ≠ .ok value
  /-- Something is found on the way there. -/
  found : ∀ shorter, shorter <+: part → shorter ≠ part →
    ∃ value, graph.lookup point shorter = .ok value

variable {graph : Graph} {point : String} {document : Json}

/-- In a loaded document, a lookup is a walk into it. -/
theorem lookup_eq_ok_iff (hdocument : graph.document point = .ok document)
    {segments : List String} {value : Json} :
    graph.lookup point segments = .ok value ↔ document.walk segments = .ok value := by
  simp only [lookup, hdocument]
  cases document.walk segments with
  | ok found => simp only [Except.ok.injEq]
  | error fault => cases fault <;> simp

/-- A path breaks where a walk comes to a segment that does not lead on. -/
theorem breaksAt_of_child_error (hdocument : graph.document point = .ok document)
    {before after : List String} {segment : String} {value : Json} {fault : WalkFault}
    (hbefore : document.walk before = .ok value) (hchild : value.child segment = .error fault) :
    graph.BreaksAt point (before ++ segment :: after) (before ++ [segment]) where
  isPrefix := ⟨after, by simp⟩
  missing found hfound := by
    rw [lookup_eq_ok_iff hdocument, Json.walk_append_eq_ok_iff] at hfound
    obtain ⟨value', hvalue', hsegment⟩ := hfound
    cases hbefore.symm.trans hvalue'
    obtain ⟨_, hnext, _⟩ := Json.exists_of_walk_cons_ok hsegment
    cases hchild.symm.trans hnext
  found shorter hprefix hne := by
    have hshorter : shorter <+: before := by
      rcases List.prefix_concat_iff.mp hprefix with heq | hshorter
      · exact absurd heq hne
      · exact hshorter
    obtain ⟨more, rfl⟩ := hshorter
    obtain ⟨found, hfound, _⟩ := Json.walk_append_eq_ok_iff.mp hbefore
    exact ⟨found, (lookup_eq_ok_iff hdocument).mpr hfound⟩

/-- A lookup that fails breaks at a segment. It names the path and is located where it breaks,
unless the segment is a position in a list that is written with too many digits: of segments
made of digits, only such a one cannot be read. -/
theorem exists_of_lookup_error (hdocument : graph.document point = .ok document)
    {path : List String} (hdecimals : Pointer.HasDecimals path) {failure : Failure}
    (hlookup : graph.lookup point path = .error failure) :
    ∃ before segment, graph.BreaksAt point path (before ++ [segment]) ∧
      (failure = .schema (.unresolved (Pointer.locate point path)
          (Pointer.locate point (before ++ [segment]))) ∨
        failure = .malformed .badNumeral ∧ ∃ items,
          graph.lookup point before = .ok (.arr items) ∧ Text.isDigits segment.toList ∧
            Text.numeralLimit < segment.toList.length) := by
  simp only [lookup, hdocument] at hlookup
  cases hwalk : document.walk path with
  | ok value =>
    rw [hwalk] at hlookup
    cases hlookup
  | error fault =>
    obtain ⟨before, segment, after, value, childFault, rfl, hbefore, hchild, hmissing, hbad⟩ :=
      Json.exists_of_walk_error hwalk
    refine ⟨before, segment, breaksAt_of_child_error hdocument hbefore hchild, ?_⟩
    rw [hwalk] at hlookup
    rcases Json.child_error_cases hchild with rfl | ⟨rfl, items, rfl, hdigits, hnumeral⟩
    · have hpart : (before ++ segment :: after).take (before.length + 1) =
          before ++ [segment] := by
        rw [List.take_length_add_append]
        rfl
      rw [hmissing rfl] at hlookup
      simp only [hpart] at hlookup
      cases hlookup
      exact Or.inl rfl
    · rw [hbad rfl] at hlookup
      cases hlookup
      have hdecimal := hdecimals segment (by simp) hdigits
      exact Or.inr ⟨rfl, items, (lookup_eq_ok_iff hdocument).mpr hbefore, hdigits,
        hdecimal.numeralLimit_lt hnumeral⟩

/-- A lookup along two lists of segments finds what a walk along the second one finds from
where the first one leads. A lookup that fails names the whole path and is located at the
shortest part of it that leads nowhere, unless this ends with a position in a list that is
written with too many digits: of segments made of digits, only such a one cannot be read. -/
theorem lookup_blames_shortest (hdocument : graph.document point = .ok document)
    {first rest : List String} (hdecimals : Pointer.HasDecimals (first ++ rest)) :
    (∀ value, graph.lookup point (first ++ rest) = .ok value ↔
      ∃ found, graph.lookup point first = .ok found ∧ found.walk rest = .ok value) ∧
    ∀ failure, graph.lookup point (first ++ rest) = .error failure →
      ∃ part, graph.BreaksAt point (first ++ rest) part ∧
        (failure = .schema (.unresolved (Pointer.locate point (first ++ rest))
            (Pointer.locate point part)) ∨
          failure = .malformed .badNumeral ∧ ∃ before items numeral, part = before ++ [numeral] ∧
            graph.lookup point before = .ok (.arr items) ∧ Text.isDigits numeral.toList ∧
              Text.numeralLimit < numeral.toList.length) := by
  constructor
  · intro value
    simp only [lookup_eq_ok_iff hdocument, Json.walk_append_eq_ok_iff]
  · intro failure hlookup
    obtain ⟨before, segment, hbreaks, hfailure⟩ :=
      exists_of_lookup_error hdocument hdecimals hlookup
    refine ⟨before ++ [segment], hbreaks, hfailure.imp id ?_⟩
    rintro ⟨hbad, items, hbefore, hlong⟩
    exact ⟨hbad, before, items, segment, rfl, hbefore, hlong⟩

/-- A document with a list in it. -/
def servers : Graph where
  documents := [("api/openapi.json",
    .obj [("servers", .arr [.obj [("url", .str "https://example.com")]])])]
  entryPoint := "api/openapi.json"
  componentRoot := .str "components"
  componentDirectories := [.str "schemas"]

theorem servers_document : servers.document "api/openapi.json" =
    .ok (.obj [("servers", .arr [.obj [("url", .str "https://example.com")]])]) := rfl

/-- The list has a first item and no other one. -/
theorem servers_lookup {position : String} {n : Nat}
    (hdigits : Text.isDigits position.toList = true)
    (hnumeral : Text.numeral? position.toList = some n) :
    servers.lookup "api/openapi.json" ["servers", position, "url"] =
      if n = 0 then .ok (.str "https://example.com")
      else .error (.schema (.unresolved
        (Pointer.locate "api/openapi.json" ["servers", position, "url"])
        (Pointer.locate "api/openapi.json" ["servers", position]))) := by
  cases n <;>
    simp [lookup, servers_document, Json.walk, Json.child, Members.get?, hdigits, hnumeral,
      WalkFault.deeper]

/-- A position may be written with the digits of any script. A path breaks at a position that
the list does not have, whatever comes after it. -/
theorem servers_blames_position :
    (Pointer.HasDecimals (["servers", "٠"] ++ ["url"]) ∧
      ∃ found, servers.lookup "api/openapi.json" ["servers", "٠"] = .ok found ∧
        found.walk ["url"] = .ok (.str "https://example.com")) ∧
    Pointer.HasDecimals (["servers"] ++ ["7", "url"]) ∧
    servers.lookup "api/openapi.json" (["servers"] ++ ["7", "url"]) =
      .error (.schema (.unresolved "api/openapi.json#/servers/7/url"
        "api/openapi.json#/servers/7")) ∧
    ∃ part, servers.BreaksAt "api/openapi.json" ["servers", "7", "url"] part ∧
      Pointer.locate "api/openapi.json" part = "api/openapi.json#/servers/7" := by
  have hscript : Pointer.HasDecimals (["servers", "٠"] ++ ["url"]) := by decide +kernel
  have hurl : servers.lookup "api/openapi.json" (["servers", "٠"] ++ ["url"]) =
      .ok (.str "https://example.com") := by
    have hdigits : Text.isDigits "٠".toList = true := by decide +kernel
    have hnumeral : Text.numeral? "٠".toList = some 0 := by decide +kernel
    exact servers_lookup hdigits hnumeral
  have hmissing : Pointer.HasDecimals (["servers"] ++ ["7", "url"]) := by decide +kernel
  have herror : servers.lookup "api/openapi.json" (["servers"] ++ ["7", "url"]) =
      .error (.schema (.unresolved "api/openapi.json#/servers/7/url"
        "api/openapi.json#/servers/7")) := by
    have hdigits : Text.isDigits "7".toList = true := by decide +kernel
    have hnumeral : Text.numeral? "7".toList = some 7 := by decide +kernel
    exact servers_lookup hdigits hnumeral
  refine ⟨⟨hscript, ((lookup_blames_shortest servers_document hscript).1 _).mp hurl⟩, hmissing,
    herror, ?_⟩
  obtain ⟨part, hbreaks, hunresolved | ⟨hbad, _⟩⟩ :=
    (lookup_blames_shortest servers_document hmissing).2 _ herror
  · refine ⟨part, hbreaks, ?_⟩
    simp only [Failure.schema.injEq, SchemaError.unresolved.injEq] at hunresolved
    exact hunresolved.2.symm
  · cases hbad

/-- A position in a list that is written with one digit too many. -/
def longPosition : String := String.ofList (List.replicate (Text.numeralLimit + 1) '1')

theorem longPosition_unread :
    Text.IsDecimal longPosition.toList ∧ Text.isDigits longPosition.toList = true ∧
      Text.numeral? longPosition.toList = none := by
  have hvalue : (Text.decimalValue? '1').isSome := by decide
  have hdigit : Text.isDigit '1' = true := by decide
  rw [longPosition, String.toList_ofList]
  generalize hlimit : Text.numeralLimit = limit
  refine ⟨fun c hc => List.eq_of_mem_replicate hc ▸ hvalue, ?_, ?_⟩
  · rw [Text.isDigits, List.all_replicate, hdigit]
    simp [List.replicate_succ]
  · rw [Text.numeral?, hlimit, List.length_replicate, if_neg (by omega)]

/-- A list is not searched for a position that is not read. -/
theorem servers_lookup_unread {position : String} (hdigits : Text.isDigits position.toList = true)
    (hnumeral : Text.numeral? position.toList = none) :
    servers.lookup "api/openapi.json" ["servers", position] = .error (.malformed .badNumeral) := by
  simp [lookup, servers_document, Json.walk, Json.child, Members.get?, hdigits, hnumeral,
    WalkFault.deeper]

/-- It is not so that every lookup that fails names the path and is located at its shortest
part that leads nowhere, although all segments made of digits are decimal numbers. -/
theorem longPosition_not_blamed :
    ¬ ∀ (graph : Graph) (point : String) (document : Json) (first rest : List String),
      graph.document point = .ok document → Pointer.HasDecimals (first ++ rest) →
      ∀ failure, graph.lookup point (first ++ rest) = .error failure →
        ∃ part, graph.BreaksAt point (first ++ rest) part ∧
          failure = .schema (.unresolved (Pointer.locate point (first ++ rest))
            (Pointer.locate point part)) := by
  intro hblamed
  obtain ⟨hdecimal, hdigits, hnumeral⟩ := longPosition_unread
  have hdecimals : Pointer.HasDecimals ([] ++ ["servers", longPosition]) := by
    have hservers : ¬ Text.isDigits "servers".toList := by decide +kernel
    exact List.forall_mem_cons.mpr ⟨fun h => absurd h hservers,
      List.forall_mem_singleton.mpr fun _ => hdecimal⟩
  obtain ⟨_, _, hfailure⟩ := hblamed servers _ _ [] _ servers_document hdecimals _
    (servers_lookup_unread hdigits hnumeral)
  cases hfailure

end Graph

end ApiTypes
