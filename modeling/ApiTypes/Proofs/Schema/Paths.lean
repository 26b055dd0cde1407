import ApiTypes.Proofs.Document.Objects
import ApiTypes.Proofs.Schema.Nodes

/-!
# Paths of nodes

The path of a node is made while its schema is read: that of the whole, and the segments
that lead to the part. These segments lead from what the whole was read from to what the
part was read from. The path is split into the same segments but for names that are
empty, because the slash before an empty segment is one at the end of a pointer, where it
does not count.
-/

namespace ApiTypes

namespace Node

/-- A node right below another one, and the segments that lead there. -/
inductive Child : Node → List String → Node → Prop
  /-- A member of a composition. -/
  | member {path : String} {raw : Members} {kind : Composition} {members : List Node}
    {nullable : Bool} {position : Nat} {child : Node} (h : members[position]? = some child) :
    Child (.composition path raw kind members nullable) [kind.keyword, toString position] child
  /-- The items of an array. -/
  | items {path : String} {raw : Members} {type? : Option Json} {keywords : Keywords}
    {properties : List (String × Node)} {additional : Additional Node} {child : Node} :
    Child (.value path raw type? keywords (.schema child) properties additional) ["items"] child
  /-- A declared property. -/
  | property {path : String} {raw : Members} {type? : Option Json} {keywords : Keywords}
    {items : Items Node} {properties : List (String × Node)} {additional : Additional Node}
    {name : String} {child : Node} (h : (name, child) ∈ properties) :
    Child (.value path raw type? keywords items properties additional) ["properties", name] child
  /-- The properties that are not declared. -/
  | additional {path : String} {raw : Members} {type? : Option Json} {keywords : Keywords}
    {items : Items Node} {properties : List (String × Node)} {child : Node} :
    Child (.value path raw type? keywords items properties (.schema child))
      ["additionalProperties"] child

/-- A node in the tree of another one, and the segments that lead there. -/
inductive PartAt (root : Node) : List String → Node → Prop
  /-- The node itself. -/
  | root : PartAt root [] root
  /-- A node right below one in the tree. -/
  | child {segments more : List String} {node child : Node} (hnode : PartAt root segments node)
    (hchild : node.Child more child) : PartAt root (segments ++ more) child

/-- A node is what is read from its value at its path. -/
def IsRead (node : Node) : Prop := Schema.parse node.path node.raw = .ok node

theorem isRead_of_parse_ok {path : String} {value : Json} {node : Node}
    (h : Schema.parse path value = .ok node) : node.IsRead := by
  rw [IsRead, Schema.parse_path h, Schema.parse_raw h]
  exact h

end Node

/-- Whether every member of an object is the value of its key, and every item of a list
under a key has a position with a numeral. -/
def Members.isNavigable (members : Members) : Bool :=
  decide (members.map Prod.fst).Nodup && members.all fun pair => match pair.2 with
    | .arr items => decide (items.length ≤ 10 ^ Text.numeralLimit)
    | _ => true

/-- A member of an object is found under its key. -/
theorem Members.isNavigable.get? {members : Members} (h : members.isNavigable) {key : String}
    {value : Json} (hmem : (key, value) ∈ members) : members.get? key = some value := by
  rw [isNavigable, Bool.and_eq_true, decide_eq_true_iff] at h
  exact get?_of_mem h.1 hmem

/-- A list under a key is no longer than there are numerals. -/
theorem Members.isNavigable.length_le {members : Members} (h : members.isNavigable)
    {key : String} {items : List Json} (hget : members.get? key = some (.arr items)) :
    items.length ≤ 10 ^ Text.numeralLimit := by
  rw [isNavigable, Bool.and_eq_true, List.all_eq_true] at h
  simpa using h.2 _ (mem_of_get? hget)

namespace Json

theorem child_obj {members : Members} {key : String} {value : Json}
    (h : members.get? key = some value) : (obj members).child key = .ok value := by
  rw [child, h]

/-- An item of a list is found at its position. -/
theorem child_arr {items : List Json} (hlength : items.length ≤ 10 ^ Text.numeralLimit)
    {position : Nat} {item : Json} (h : items[position]? = some item) :
    (arr items).child (toString position) = .ok item := by
  obtain ⟨hlt, _⟩ := List.getElem?_eq_some_iff.mp h
  have hnumeral := Text.numeral?_toString (Nat.lt_of_lt_of_le hlt hlength)
  rw [child, if_pos (Text.isDigits_toString position), hnumeral]
  simp only [h]

theorem walk_singleton {node value : Json} {segment : String}
    (h : node.child segment = .ok value) : node.walk [segment] = .ok value := by
  rw [walk, h]
  rfl

theorem walk_pair {node next value : Json} {first second : String}
    (hfirst : node.child first = .ok next) (hsecond : next.child second = .ok value) :
    node.walk [first, second] = .ok value := by
  rw [walk, hfirst]
  simp only [walk_singleton hsecond]

end Json

namespace Schema

/-- A schema in a list is read at its position. -/
theorem exists_getElem?_of_parseAll_ok {path : String} {kind : Composition} {first : Nat}
    {values : List Json} {nodes : List Node} (h : parseAll path kind first values = .ok nodes)
    {position : Nat} {node : Node} (hnode : nodes[position]? = some node) :
    ∃ value, values[position]? = some value ∧
      parse (Pointer.child path [kind.keyword, toString (first + position)]) value = .ok node := by
  induction values generalizing first nodes position with
  | nil =>
    cases h
    cases hnode
  | cons value rest ih =>
    rw [parseAll] at h
    obtain ⟨head, hhead, htail⟩ := Calculation.exists_of_bind_ok h
    obtain ⟨others, hothers, hpure⟩ := Calculation.exists_of_bind_ok htail
    cases hpure
    cases position with
    | zero =>
      cases hnode
      exact ⟨value, rfl, hhead⟩
    | succ position =>
      obtain ⟨found, hfound, hparse⟩ := ih hothers hnode
      rw [Nat.add_assoc, Nat.add_comm 1] at hparse
      exact ⟨found, hfound, hparse⟩

end Schema

namespace Node

open Schema

/-- A node right below another one was read from the value that its segments lead to, at the
path that they make. -/
theorem Child.located {node child : Node} {segments : List String} (h : node.Child segments child)
    (hnode : node.IsRead) (hvalue : node.raw.everyObject Members.isNavigable) :
    node.raw.walk segments = .ok child.raw ∧
      parse (Pointer.child node.path segments) child.raw = .ok child := by
  cases h with
  | @member path raw kind members nullable position child hmember =>
    obtain ⟨ref, _, heq⟩ | ⟨_, _, _, _, _, hmembers, heq⟩ | ⟨_, _, _, _, _, _, _, _, heq⟩ :=
      parse_obj_cases hnode <;> cases heq
    rw [parseMembersOf_eq] at hmembers
    split at hmembers
    · rename_i values hget
      obtain ⟨value, hvalue', hparse⟩ := exists_getElem?_of_parseAll_ok hmembers hmember
      rw [Nat.zero_add] at hparse
      obtain ⟨hraw, _⟩ := (Json.everyObject_obj raw).mp hvalue
      have hlength := Members.isNavigable.length_le hraw hget
      rw [parse_raw hparse]
      exact ⟨Json.walk_pair (Json.child_obj hget) (Json.child_arr hlength hvalue'), hparse⟩
    · cases hmembers
    · cases hmembers
      cases hmember
  | @items path raw =>
    obtain ⟨ref, _, heq⟩ | ⟨_, _, _, _, _, _, heq⟩ | ⟨_, _, _, _, _, hitems, _, _, heq⟩ :=
      parse_obj_cases hnode <;> cases heq
    rw [parseItemsOf_eq] at hitems
    split at hitems
    · rename_i items hget
      obtain ⟨child, hparse, heq⟩ := Calculation.exists_of_map_ok hitems
      cases heq
      rw [parse_raw hparse]
      exact ⟨Json.walk_singleton (Json.child_obj hget), hparse⟩
    · cases hitems
    · cases hitems
  | @property path raw type? keywords items properties additional name child hmem =>
    obtain ⟨ref, _, heq⟩ | ⟨_, _, _, _, _, _, heq⟩ | ⟨_, _, _, _, _, _, hproperties, _, heq⟩ :=
      parse_obj_cases hnode <;> cases heq
    rcases exists_declared_of_parsePropertiesOf_ok hproperties with
      ⟨rfl, _⟩ | ⟨declared, hget, hread⟩
    · cases hmem
    · obtain ⟨⟨_, value⟩, hvalue', rfl, hparse⟩ := exists_mem_of_forall₂ hread hmem
      obtain ⟨hraw, _⟩ := (Json.everyObject_obj declared).mp (Json.everyObject_of_get? hvalue hget)
      have hname := Members.isNavigable.get? hraw hvalue'
      rw [parse_raw hparse]
      exact ⟨Json.walk_pair (Json.child_obj hget) (Json.child_obj hname), hparse⟩
  | @additional path raw =>
    obtain ⟨ref, _, heq⟩ | ⟨_, _, _, _, _, _, heq⟩ | ⟨_, _, _, _, _, _, _, hadditional, heq⟩ :=
      parse_obj_cases hnode <;> cases heq
    cases readsAdditional_of_parseAdditionalOf_ok hadditional with
    | schema hget hparse =>
      rw [parse_raw hparse]
      exact ⟨Json.walk_singleton (Json.child_obj hget), hparse⟩

/-- The path of a node right below another one is split into the segments of that and its
own, but for the name of a property that is empty. -/
theorem Child.split_path {node child : Node} {segments : List String}
    (h : node.Child segments child) (path : String) :
    Pointer.split (Pointer.child path segments) =
      Pointer.split path ++ segments.filter (!·.isEmpty) := by
  cases h with
  | @member _ _ kind _ _ position =>
    have hkeyword : kind.keyword ≠ "" := by cases kind <;> decide
    rw [Pointer.split_child path hkeyword]
    have hinit : "" ∉ [kind.keyword] := by simpa using hkeyword.symm
    exact congrArg _ (Pointer.rdropWhile_concat_eq_filter hinit (toString position))
  | items =>
    rw [Pointer.split_child path (by decide)]
    exact congrArg _ (Pointer.rdropWhile_concat_eq_filter List.not_mem_nil "items")
  | @property _ _ _ _ _ _ _ name =>
    rw [Pointer.split_child path (by decide)]
    have hinit : "" ∉ ["properties"] := by decide
    exact congrArg _ (Pointer.rdropWhile_concat_eq_filter hinit name)
  | additional =>
    rw [Pointer.split_child path (by decide)]
    exact congrArg _ (Pointer.rdropWhile_concat_eq_filter List.not_mem_nil "additionalProperties")

/-- Every node of a tree was read from the value that its segments lead to, and its path is
split into those of them that are not empty. -/
theorem PartAt.located {root part : Node} {segments : List String} (h : root.PartAt segments part)
    (hroot : root.IsRead) (hvalue : root.raw.everyObject Members.isNavigable) :
    root.raw.walk segments = .ok part.raw ∧ part.IsRead ∧
      Pointer.split part.path = Pointer.split root.path ++ segments.filter (!·.isEmpty) := by
  induction h with
  | root => exact ⟨rfl, hroot, by simp⟩
  | @child segments more node child _ hchild ih =>
    obtain ⟨hwalk, hread, hpath⟩ := ih
    have hinside := Json.everyObject_of_inside hvalue (Json.inside_of_walk hwalk)
    obtain ⟨hstep, hparse⟩ := hchild.located hread hinside
    refine ⟨?_, isRead_of_parse_ok hparse, ?_⟩
    · rw [Json.walk_append more hwalk, hstep]
      rfl
    · rw [parse_path hparse, hchild.split_path, hpath, List.filter_append, List.append_assoc]

end Node

/-- The path of a node locates its schema, unless the name of a property on the way to it is
empty. For a schema that was found in a document and read at its own pointer, every node of
its tree was read from what its segments lead to; its path is split into those of the
segments that are not empty, so it is looked up there if all of them are not. -/
theorem Schema.paths_locate {graph : Graph} {point : String} {segments : List String}
    (hsegments : "" ∉ segments) {value : Json} (hlookup : graph.lookup point segments = .ok value)
    (hvalue : value.everyObject Members.isNavigable) {node : Node}
    (hnode : Schema.parse ("#" ++ Pointer.written segments) value = .ok node)
    {more : List String} {part : Node} (hpart : node.PartAt more part) :
    graph.lookup point (segments ++ more) = .ok part.raw ∧
      Pointer.split part.path = segments ++ more.filter (!·.isEmpty) ∧
      ("" ∉ more → graph.lookup point (Pointer.split part.path) = .ok part.raw) := by
  have hraw := Schema.parse_raw hnode
  obtain ⟨hwalk, _, hpath⟩ := hpart.located (Node.isRead_of_parse_ok hnode) (hraw ▸ hvalue)
  rw [Schema.parse_path hnode, Pointer.split_hash_written, Pointer.split_written hsegments]
    at hpath
  rw [hraw] at hwalk
  have hfound := Graph.lookup_append hlookup hwalk
  refine ⟨hfound, hpath, fun hmore => ?_⟩
  rwa [hpath, Pointer.filter_eq_self hmore]

/-- A schema with two lists, one of which has a slash in its name and the other one an empty
name. -/
def Graph.petLists : Json := .obj [("type", .str "object"), ("properties", .obj [
  ("a/b", .obj [("type", .str "array"), ("items", .obj [("type", .str "string")])]),
  ("", .obj [("type", .str "array"), ("items", .obj [("type", .str "string")])])])]

/-- A document with this schema. -/
def Graph.petUnnamed : Graph where
  documents := [("openapi.json", .obj [("Pet", Graph.petLists)])]
  entryPoint := "openapi.json"
  componentRoot := .str "components"
  componentDirectories := [.str "schemas"]

/-- The items of the list with the slash in its name are found at their path. -/
theorem petUnnamed_path_locates : ∃ node part,
    Graph.petUnnamed.lookup "openapi.json" ["Pet"] = .ok Graph.petLists ∧
      Schema.parse "#/Pet" Graph.petLists = .ok node ∧
      node.PartAt ["properties", "a/b", "items"] part ∧
      part.path = "#/Pet/properties/a~1b/items" ∧
      Graph.petUnnamed.lookup "openapi.json" (Pointer.split part.path) = .ok part.raw := by
  obtain ⟨node, part, hnode, hpart, hpath⟩ : ∃ node part,
      Schema.parse "#/Pet" Graph.petLists = .ok node ∧
      node.PartAt ["properties", "a/b", "items"] part ∧
      part.path = "#/Pet/properties/a~1b/items" :=
    ⟨_, _, rfl, .child (.child .root (.property (List.mem_cons_self ..))) .items, rfl⟩
  have hlookup : Graph.petUnnamed.lookup "openapi.json" ["Pet"] = .ok Graph.petLists := rfl
  obtain ⟨_, _, hfound⟩ := Schema.paths_locate (by decide) hlookup (by decide +kernel) hnode hpart
  exact ⟨node, part, hlookup, hnode, hpart, hpath, hfound (by decide)⟩

/-- Those of the list with the empty name are not: their path has lost a segment. -/
theorem petUnnamed_path_misleads : ∃ node part,
    Graph.petUnnamed.lookup "openapi.json" ["Pet"] = .ok Graph.petLists ∧
      Schema.parse "#/Pet" Graph.petLists = .ok node ∧
      node.PartAt ["properties", "", "items"] part ∧
      part.path = "#/Pet/properties/items" ∧
      Graph.petUnnamed.lookup "openapi.json" (Pointer.split part.path) =
        .error (.schema (.unresolved "openapi.json#/Pet/properties/items"
          "openapi.json#/Pet/properties/items")) :=
  have hmem {first second : String × Node} : second ∈ [first, second] :=
    List.mem_cons_of_mem _ (List.mem_cons_self ..)
  ⟨_, _, rfl, rfl, .child (.child .root (.property hmem)) .items, rfl, rfl⟩

end ApiTypes
