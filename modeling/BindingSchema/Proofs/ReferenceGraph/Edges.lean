import BindingSchema.Proofs.Annotation.Reach
import BindingSchema.Proofs.Annotation.Renumbering
import BindingSchema.Proofs.Reference.Parts
import BindingSchema.Proofs.ReferenceGraph.Run
import Mathlib.Data.List.Lex

/-!
What the edges of a schema stand for.

The children of a node come in one order (`Node.children`). `Node.descents` lists a node and
everything below it in that order, each with the ways down to it and the keys of the document on
them. An edge is a descent to a node with a resolved reference (`ofNode_eq_filterMap`).

Proved:
- `pairwise_descents`: of two descents the earlier one has the lexicographically smaller ways, so no
  node is listed twice; `follow?_eq_some_iff`: none is left out.
- `locate_descent`: where no node has two properties of one name, the keys of a descent lead back to
  the node. Keys of fields are not mistaken for names, nor names for them: a name always comes after
  the key `properties`, and nothing else does.
- `edges_locate`: the edges of a schema are its resolved references, and the text of an edge's place
  leads back to the reference.
-/

namespace BindingSchema

open Annotation

/-- Which of two ways down from a node comes first: properties in their order, items, map values. -/
inductive Way.Before : Way → Way → Prop
  | properties {i j : Nat} (lt : i < j) : Before (.property i) (.property j)
  | items (i : Nat) : Before (.property i) .items
  | mapValues (i : Nat) : Before (.property i) .mapValues
  | last : Before .items .mapValues

theorem Way.Before.irrefl (way : Way) : ¬ way.Before way := by
  rintro ⟨lt⟩
  omega

/-! ## One step down -/

/-- A node right below another one, with the keys of the document that lead to it. -/
structure Child where
  way : Way
  keys : List String
  node : Node

namespace Node

/-- The schema that a resolved reference of the node points to. -/
def target? (n : Node) : Option Nat := n.reference.bind (·.target)

def children (n : Node) : List Child :=
  n.properties.zipIdx.map (fun e => ⟨.property e.2, ["properties", e.1.name], e.1.node⟩) ++
    n.items.toList.map (⟨.items, ["items"], ·⟩) ++
    n.additionalProperties.toList.map (⟨.mapValues, ["additionalProperties"], ·⟩)

theorem mem_children {n : Node} {c : Child} :
    c ∈ n.children ↔
      (∃ i p, n.properties[i]? = some p ∧ c = ⟨.property i, ["properties", p.name], p.node⟩) ∨
      (∃ item, n.items = some item ∧ c = ⟨.items, ["items"], item⟩) ∨
      ∃ value, n.additionalProperties = some value ∧ c = ⟨.mapValues, ["additionalProperties"], value⟩ := by
  simp only [children, List.append_assoc, List.mem_append, List.mem_map, Option.mem_toList, Prod.exists,
    List.mem_zipIdx_iff_getElem?, eq_comm (b := c)]
  rw [exists_comm]

theorem pairwise_children (n : Node) : n.children.Pairwise (·.way.Before ·.way) := by
  have hproperties : n.properties.zipIdx.Pairwise (·.2 < ·.2) :=
    List.pairwise_map.mp (by rw [List.zipIdx_map_snd]; exact List.pairwise_lt_range' 1)
  refine List.pairwise_append.mpr ⟨List.pairwise_append.mpr ⟨?_, ?_, ?_⟩, ?_, ?_⟩
  · exact List.pairwise_map.mpr (hproperties.imp .properties)
  · cases n.items <;> simp
  · simp only [List.mem_map]
    rintro _ ⟨e, _, rfl⟩ _ ⟨m, _, rfl⟩
    exact .items _
  · cases n.additionalProperties <;> simp
  · simp only [List.mem_append, List.mem_map]
    rintro _ (⟨e, _, rfl⟩ | ⟨m, _, rfl⟩) _ ⟨m', _, rfl⟩
    · exact .mapValues _
    · exact .last

/-- What is found by a way is a child, and the other way round. -/
theorem below?_eq_some_iff {n m : Node} {way : Way} :
    n.below? way = some m ↔ ∃ c ∈ n.children, c.way = way ∧ c.node = m := by
  simp only [mem_children]
  constructor
  · intro h
    cases way with
    | property i =>
      obtain ⟨p, hp, rfl⟩ := Option.map_eq_some_iff.mp h
      exact ⟨_, .inl ⟨i, p, hp, rfl⟩, rfl, rfl⟩
    | items => exact ⟨_, .inr (.inl ⟨m, h, rfl⟩), rfl, rfl⟩
    | mapValues => exact ⟨_, .inr (.inr ⟨m, h, rfl⟩), rfl, rfl⟩
  · rintro ⟨c, ⟨i, p, hp, rfl⟩ | ⟨item, hitem, rfl⟩ | ⟨value, hvalue, rfl⟩, rfl, rfl⟩
    · simp [below?, hp]
    · exact hitem
    · exact hvalue

theorem induct_children {P : Node → Prop} (h : ∀ n : Node, (∀ c ∈ n.children, P c.node) → P n)
    (n : Node) : P n := by
  induction n using Node.induct with
  | h n ihProperties ihItems ihValues =>
    refine h n fun c hc => ?_
    obtain ⟨i, p, hp, rfl⟩ | ⟨item, hitem, rfl⟩ | ⟨value, hvalue, rfl⟩ := mem_children.mp hc
    · exact ihProperties p (List.mem_of_getElem? hp)
    · exact ihItems item hitem
    · exact ihValues value hvalue

end Node

/-! ## Everything below -/

/-- A node at any depth, with the ways down to it and the keys of the document on them. -/
structure Descent where
  ways : List Way
  keys : List String
  node : Node

/-- A descent from a child as one from the node above. -/
def Child.extend (c : Child) (d : Descent) : Descent := ⟨c.way :: d.ways, c.keys ++ d.keys, d.node⟩

namespace Node

mutual

def descents : Node → List Descent
  | ⟨type, format, description, nullable, items, additionalProperties, properties, enumValues,
      reference, bindingType⟩ =>
    ⟨[], [], ⟨type, format, description, nullable, items, additionalProperties, properties, enumValues,
      reference, bindingType⟩⟩ ::
      (descentsOfProperties 0 properties ++ descentsOfOptional .items "items" items ++
        descentsOfOptional .mapValues "additionalProperties" additionalProperties)

def descentsOfOptional (way : Way) (key : String) : Option Node → List Descent
  | none => []
  | some n => (descents n).map (Child.extend ⟨way, [key], n⟩)

def descentsOfProperties (index : Nat) : List Property → List Descent
  | [] => []
  | ⟨name, _, node⟩ :: rest =>
    (descents node).map (Child.extend ⟨.property index, ["properties", name], node⟩) ++
      descentsOfProperties (index + 1) rest

end

theorem descentsOfProperties_eq (ps : List Property) (index : Nat) :
    descentsOfProperties index ps = (ps.zipIdx index).flatMap fun e =>
      e.1.node.descents.map (Child.extend ⟨.property e.2, ["properties", e.1.name], e.1.node⟩) := by
  induction ps generalizing index with
  | nil => rfl
  | cons p ps ih =>
    obtain ⟨name, required, node⟩ := p
    rw [descentsOfProperties, ih]
    rfl

theorem descents_eq (n : Node) :
    n.descents = ⟨[], [], n⟩ :: n.children.flatMap fun c => c.node.descents.map c.extend := by
  obtain ⟨type, format, description, nullable, items, values, properties, enumValues, reference, bt⟩ := n
  rw [descents, descentsOfProperties_eq]
  cases items <;> cases values <;> simp [children, descentsOfOptional, List.flatMap_map]

theorem mem_descents {n : Node} {d : Descent} :
    d ∈ n.descents ↔ d = ⟨[], [], n⟩ ∨ ∃ c ∈ n.children, ∃ e ∈ c.node.descents, d = c.extend e := by
  simp only [descents_eq n, List.mem_cons, List.mem_flatMap, List.mem_map, eq_comm (b := d)]

/-- What is found by any ways is listed, and nothing else is. -/
theorem follow?_eq_some_iff {x : Node} (n : Node) (ways : List Way) :
    n.follow? ways = some x ↔ ∃ d ∈ n.descents, d.ways = ways ∧ d.node = x := by
  induction ways generalizing n with
  | nil =>
    constructor
    · rintro ⟨⟩
      exact ⟨_, mem_descents.mpr (.inl rfl), rfl, rfl⟩
    · rintro ⟨d, hd, hways, rfl⟩
      obtain rfl | ⟨c, _, e, _, rfl⟩ := mem_descents.mp hd
      · rfl
      · cases hways
  | cons way ways ih =>
    constructor
    · intro h
      obtain ⟨m, hm, hx⟩ := Option.bind_eq_some_iff.mp h
      obtain ⟨c, hc, rfl, rfl⟩ := below?_eq_some_iff.mp hm
      obtain ⟨e, he, rfl, rfl⟩ := (ih c.node).mp hx
      exact ⟨c.extend e, mem_descents.mpr (.inr ⟨c, hc, e, he, rfl⟩), rfl, rfl⟩
    · rintro ⟨d, hd, hways, rfl⟩
      obtain rfl | ⟨c, hc, e, he, rfl⟩ := mem_descents.mp hd
      · cases hways
      · cases hways
        exact Option.bind_eq_some_iff.mpr
          ⟨c.node, below?_eq_some_iff.mpr ⟨c, hc, rfl, rfl⟩, (ih c.node).mpr ⟨e, he, rfl, rfl⟩⟩

theorem pairwise_descents (n : Node) : n.descents.Pairwise fun d e => List.Lex Way.Before d.ways e.ways := by
  induction n using induct_children with
  | h n ih =>
    rw [descents_eq, List.pairwise_cons, List.pairwise_flatMap]
    refine ⟨?_, fun c hc => List.pairwise_map.mpr ((ih c hc).imp .cons), (pairwise_children n).imp ?_⟩
    · intro d hd
      obtain ⟨c, _, hd⟩ := List.mem_flatMap.mp hd
      obtain ⟨e, _, rfl⟩ := List.mem_map.mp hd
      exact .nil
    · intro a b hab d hd e he
      obtain ⟨d, _, rfl⟩ := List.mem_map.mp hd
      obtain ⟨e, _, rfl⟩ := List.mem_map.mp he
      exact .rel hab

end Node

/-! ## Edges as descents -/

/-- The edge that a descent below `place` makes. -/
def Descent.edge? (place : Pointer) (d : Descent) : Option Edge :=
  d.node.target?.map (⟨·, place.append (d.keys ++ ["$ref"])⟩)

namespace Edge

theorem ofProperties_eq (ps : List Property) (place : Pointer) :
    ofProperties place ps = ps.flatMap fun p => ofNode (place.append ["properties", p.name]) p.node := by
  induction ps with
  | nil => rfl
  | cons p ps ih =>
    obtain ⟨name, required, node⟩ := p
    rw [ofProperties, ih]
    rfl

theorem ofNode_eq_children (place : Pointer) (n : Node) :
    ofNode place n = n.target?.toList.map (⟨·, place.push "$ref"⟩) ++
      n.children.flatMap fun c => ofNode (place.append c.keys) c.node := by
  have hzip : n.properties.zipIdx.flatMap (fun e => ofNode (place.append ["properties", e.1.name]) e.1.node) =
      n.properties.flatMap fun p => ofNode (place.append ["properties", p.name]) p.node := by
    conv_rhs => rw [← List.zipIdx_map_fst 0 n.properties, List.flatMap_map]
  rw [ofNode_eq, ofProperties_eq, Node.children, List.flatMap_append, List.flatMap_append, List.flatMap_map, hzip,
    Node.target?]
  cases n.items <;> cases n.additionalProperties <;>
    simp [ofOptional, Pointer.push, Pointer.append]

theorem ofNode_eq_filterMap (n : Node) : ∀ place, ofNode place n = n.descents.filterMap (·.edge? place) := by
  induction n using Node.induct_children with
  | h n ih =>
    intro place
    have hchildren : ∀ c ∈ n.children, ofNode (place.append c.keys) c.node =
        (c.node.descents.map c.extend).filterMap (·.edge? place) := by
      intro c hc
      rw [ih c hc, List.filterMap_map]
      refine congrArg (List.filterMap · _) (funext fun d => ?_)
      simp [Descent.edge?, Child.extend, Pointer.append]
    have hself : Descent.edge? place ⟨[], [], n⟩ = n.target?.map (⟨·, place.push "$ref"⟩) := rfl
    rw [ofNode_eq_children, Node.descents_eq, List.filterMap_cons, List.filterMap_flatMap,
      List.flatMap_congr hchildren, hself]
    cases n.target? <;> rfl

end Edge

/-! ## Keys that lead back -/

namespace Node

/-- The ways to the node that keys of the document lead to. -/
def locate : List String → Node → Option (List Way)
  | [], _ => some []
  | "properties" :: name :: keys, n => do
    let index ← (n.properties.map (·.name)).idxOf? name
    let p ← n.properties[index]?
    (locate keys p.node).map (.property index :: ·)
  | "items" :: keys, n => do
    let item ← n.items
    (locate keys item).map (.items :: ·)
  | "additionalProperties" :: keys, n => do
    let value ← n.additionalProperties
    (locate keys value).map (.mapValues :: ·)
  | _ :: _, _ => none

/-- What the names of properties have to be for keys to lead to one node only, and to be told apart
when they are joined by slashes. -/
structure Navigable (n : Node) : Prop where
  nodup : ∀ x ∈ n.nodes, (x.properties.map (·.name)).Nodup
  plain : ∀ x ∈ n.nodes, ∀ p ∈ x.properties, '/' ∉ p.name.toList

theorem mem_nodes_of_child {n x : Node} {c : Child} (hc : c ∈ n.children) (hx : x ∈ c.node.nodes) :
    x ∈ n.nodes := by
  obtain ⟨i, p, hp, rfl⟩ | ⟨item, hitem, rfl⟩ | ⟨value, hvalue, rfl⟩ := mem_children.mp hc
  · exact mem_nodes.mpr (.inr (.inl ⟨p, List.mem_of_getElem? hp, hx⟩))
  · exact mem_nodes.mpr (.inr (.inr (.inl ⟨item, hitem, hx⟩)))
  · exact mem_nodes.mpr (.inr (.inr (.inr ⟨value, hvalue, hx⟩)))

theorem Navigable.child {n : Node} {c : Child} (h : n.Navigable) (hc : c ∈ n.children) : c.node.Navigable :=
  ⟨fun x hx => h.nodup x (mem_nodes_of_child hc hx), fun x hx => h.plain x (mem_nodes_of_child hc hx)⟩

theorem locate_child {n : Node} {c : Child} (h : n.Navigable) (hc : c ∈ n.children) (keys : List String) :
    locate (c.keys ++ keys) n = (locate keys c.node).map (c.way :: ·) := by
  obtain ⟨i, p, hp, rfl⟩ | ⟨item, hitem, rfl⟩ | ⟨value, hvalue, rfl⟩ := mem_children.mp hc
  · have hindex : (n.properties.map (·.name)).idxOf? p.name = some i :=
      (idxOf?_eq_some_iff_of_nodup (h.nodup n n.self_mem_nodes)).mpr (by simp [hp])
    simp [locate, hindex, hp]
  · simp [locate, hitem]
  · simp [locate, hvalue]

theorem locate_descent {n : Node} (h : n.Navigable) : ∀ d ∈ n.descents, locate d.keys n = some d.ways := by
  induction n using induct_children with
  | h n ih =>
    intro d hd
    obtain rfl | ⟨c, hc, e, he, rfl⟩ := mem_descents.mp hd
    · rfl
    · rw [Child.extend, locate_child h hc, ih c hc (h.child hc) e he]
      rfl

/-- No key of a descent has a slash in it. -/
theorem Navigable.keys_plain {n : Node} (h : n.Navigable) :
    ∀ d ∈ n.descents, ∀ key ∈ d.keys, '/' ∉ key.toList := by
  induction n using induct_children with
  | h n ih =>
    intro d hd key hkey
    obtain rfl | ⟨c, hc, e, he, rfl⟩ := mem_descents.mp hd
    · cases hkey
    · obtain hkey | hkey := List.mem_append.mp hkey
      · obtain ⟨i, p, hp, rfl⟩ | ⟨item, hitem, rfl⟩ | ⟨value, hvalue, rfl⟩ := mem_children.mp hc
        · obtain rfl | rfl : key = "properties" ∨ key = p.name := by simpa using hkey
          · decide
          · exact h.plain n n.self_mem_nodes p (List.mem_of_getElem? hp)
        · obtain rfl : key = "items" := by simpa using hkey
          decide
        · obtain rfl : key = "additionalProperties" := by simpa using hkey
          decide
      · exact ih c hc (h.child hc) e he key hkey

/-- The ways to the nodes with a resolved reference. -/
def sources (n : Node) : List (List Way) := (n.descents.filter (·.node.target?.isSome)).map (·.ways)

theorem pairwise_sources (n : Node) : n.sources.Pairwise (List.Lex Way.Before) :=
  List.pairwise_map.mpr ((pairwise_descents n).filter _)

theorem nodup_sources (n : Node) : n.sources.Nodup :=
  n.pairwise_sources.imp fun h => by
    rintro rfl
    exact List.lex_irrefl Way.Before.irrefl _ h

theorem mem_sources {n : Node} {ways : List Way} :
    ways ∈ n.sources ↔ ∃ x, n.follow? ways = some x ∧ x.target?.isSome := by
  simp only [sources, List.mem_map, List.mem_filter, follow?_eq_some_iff]
  constructor
  · rintro ⟨d, ⟨hd, htarget⟩, rfl⟩
    exact ⟨d.node, ⟨d, hd, rfl, rfl⟩, htarget⟩
  · rintro ⟨_, ⟨d, hd, rfl, rfl⟩, htarget⟩
    exact ⟨d, ⟨hd, htarget⟩, rfl⟩

end Node

namespace ReferenceGraph

structure Navigable (schemas : Keyed Schema) : Prop where
  nodup : (Keyed.keys schemas).Nodup
  plain : ∀ e ∈ schemas, '/' ∉ e.1.toList
  nodes : ∀ e ∈ schemas, e.2.node.Navigable

/-- Where the text of a pointer to a reference leads: the place of the schema in the registry and the
ways to the node that has the reference. -/
def referenceAt? (schemas : Keyed Schema) (path : String) : Option (Nat × List Way) :=
  match SchemaRef.parts path with
  | "#" :: "components" :: "schemas" :: name :: keys =>
    if keys.getLast? = some "$ref" then do
      let i ← (Keyed.keys schemas).idxOf? name
      let e ← schemas[i]?
      (e.2.node.locate keys.dropLast).map (i, ·)
    else none
  | _ => none

variable {schemas : Keyed Schema} {i : Nat} {name : String} {s : Schema}

theorem edgesOf_ofSchemas (h : schemas[i]? = some (name, s)) :
    (ofSchemas schemas).edgesOf i = Edge.ofNode (.schema name) s.node := by
  simp [edgesOf, ofSchemas, h]

theorem referenceAt?_descent (hnav : Navigable schemas) (h : schemas[i]? = some (name, s)) {d : Descent}
    (hd : d ∈ s.node.descents) :
    referenceAt? schemas (((Pointer.schema name).append (d.keys ++ ["$ref"])).text) = some (i, d.ways) := by
  have hmem := List.mem_of_getElem? h
  have hparts : SchemaRef.parts ((Pointer.schema name).append (d.keys ++ ["$ref"])).text =
      "#" :: "components" :: "schemas" :: name :: (d.keys ++ ["$ref"]) := by
    refine SchemaRef.parts_text fun key hkey => ?_
    obtain rfl | rfl | rfl | hkey | rfl :
        key = "components" ∨ key = "schemas" ∨ key = name ∨ key ∈ d.keys ∨ key = "$ref" := by
      simpa [Pointer.schema, Pointer.append] using hkey
    · decide
    · decide
    · exact hnav.plain _ hmem
    · exact (hnav.nodes _ hmem).keys_plain d hd key hkey
    · decide
  have hindex : (Keyed.keys schemas).idxOf? name = some i :=
    (idxOf?_eq_some_iff_of_nodup hnav.nodup).mpr (by simp [Keyed.keys, h])
  rw [referenceAt?, hparts]
  simp [hindex, h, Node.locate_descent (hnav.nodes _ hmem) d hd]

/-- What holds of every descent to a resolved reference and its edge holds along the sources and the
edges. -/
theorem forall₂_sources {R : List Way → Edge → Prop} {place : Pointer} {n : Node}
    (hR : ∀ d ∈ n.descents, ∀ target, d.node.target? = some target →
      R d.ways ⟨target, place.append (d.keys ++ ["$ref"])⟩) :
    List.Forall₂ R n.sources (Edge.ofNode place n) := by
  rw [Edge.ofNode_eq_filterMap, Node.sources]
  revert hR
  induction n.descents with
  | nil => exact fun _ => .nil
  | cons d ds ih =>
    intro hR
    have hrest := ih fun d' hd' => hR d' (List.mem_cons_of_mem _ hd')
    cases htarget : d.node.target? with
    | none => simpa [htarget, Descent.edge?] using hrest
    | some target =>
      have hedge : d.edge? place = some ⟨target, place.append (d.keys ++ ["$ref"])⟩ := by
        simp [Descent.edge?, htarget]
      rw [List.filter_cons_of_pos (by simp [htarget]), List.filterMap_cons_some hedge]
      exact .cons (hR d List.mem_cons_self target htarget) hrest

/-- An edge that is found in the graph is one of a schema, and its place leads back to the source at
the same index. -/
theorem exists_source (hnav : Navigable schemas) {a : Arc} {e : Edge} (he : (ofSchemas schemas).edge? a = some e) :
    ∃ name s ways, schemas[a.source]? = some (name, s) ∧ s.node.sources[a.index]? = some ways ∧
      referenceAt? schemas e.place.text = some (a.source, ways) := by
  cases hs : schemas[a.source]? with
  | none => simp [edge?, edgesOf, ofSchemas, hs] at he
  | some entry =>
    obtain ⟨name, s⟩ := entry
    rw [edge?, edgesOf_ofSchemas hs] at he
    obtain ⟨hlt, rfl⟩ := List.getElem?_eq_some_iff.mp he
    have hback : List.Forall₂ (fun ways e => referenceAt? schemas e.place.text = some (a.source, ways))
        s.node.sources (Edge.ofNode (.schema name) s.node) :=
      forall₂_sources fun d hd _ _ => referenceAt?_descent hnav hs hd
    have hlt' : a.index < s.node.sources.length := hback.length_eq ▸ hlt
    exact ⟨name, s, _, rfl, List.getElem?_eq_getElem hlt', hback.get hlt' hlt⟩

/-- The edges of a schema are its resolved references in the order of the nodes, each with the target
of the node. Where names can be told apart, the text of an edge's place leads back to the node that
has the reference, so no two edges of the graph have the same text. -/
theorem edges_locate (schemas : Keyed Schema) :
    (∀ i name s, schemas[i]? = some (name, s) →
      ∃ sources : List (List Way), sources.Pairwise (List.Lex Way.Before) ∧
        (∀ ways, ways ∈ sources ↔ ∃ x, s.node.follow? ways = some x ∧ x.target?.isSome) ∧
        List.Forall₂
          (fun ways edge =>
            (∃ x, s.node.follow? ways = some x ∧ x.target? = some edge.target) ∧
            (Navigable schemas → referenceAt? schemas edge.place.text = some (i, ways)))
          sources ((ofSchemas schemas).edgesOf i)) ∧
    (Navigable schemas → ∀ (a b : Arc) (e f : Edge), (ofSchemas schemas).edge? a = some e →
      (ofSchemas schemas).edge? b = some f → e.place.text = f.place.text → a = b) := by
  refine ⟨fun i name s hs => ⟨s.node.sources, s.node.pairwise_sources, fun ways => Node.mem_sources, ?_⟩, ?_⟩
  · rw [edgesOf_ofSchemas hs]
    refine forall₂_sources fun d hd target htarget => ⟨⟨d.node, ?_, htarget⟩, fun hnav => ?_⟩
    · exact (Node.follow?_eq_some_iff s.node d.ways).mpr ⟨d, hd, rfl, rfl⟩
    · exact referenceAt?_descent hnav hs hd
  · intro hnav a b e f he hf htext
    obtain ⟨name, s, ways, hs, hways, hback⟩ := exists_source hnav he
    obtain ⟨name', s', ways', hs', hways', hback'⟩ := exists_source hnav hf
    obtain ⟨hsource, rfl⟩ : a.source = b.source ∧ ways = ways' := by simpa [htext, hback'] using hback.symm
    obtain ⟨rfl, rfl⟩ : name = name' ∧ s = s' := by simpa [hsource, hs'] using hs.symm
    have hindex := (List.getElem?_inj (List.getElem?_eq_some_iff.mp hways).1 s.node.nodup_sources).mp
      (hways.trans hways'.symm)
    cases a
    cases b
    simp_all

/-- A schema whose properties have the names of fields. -/
def fieldNames : Keyed Schema :=
  let back : Option SchemaRef := some ⟨"#/components/schemas/items", some 0⟩
  [("items", {
    name := "items"
    node := {
      properties := [⟨"items", false, { items := some { reference := back } }⟩,
        ⟨"$ref", true, { reference := back }⟩]
      additionalProperties := some { reference := back } } })]

theorem edges_locate_fieldNames :
    Navigable fieldNames ∧ ((ofSchemas fieldNames).edgesOf 0).map (·.place.text) =
        ["#/components/schemas/items/properties/items/items/$ref", "#/components/schemas/items/properties/$ref/$ref",
          "#/components/schemas/items/additionalProperties/$ref"] ∧
      (∃ sources : List (List Way), List.Forall₂
        (fun ways edge => referenceAt? fieldNames edge.place.text = some (0, ways))
        sources ((ofSchemas fieldNames).edgesOf 0)) ∧
      ∀ (a b : Arc) (e f : Edge), (ofSchemas fieldNames).edge? a = some e →
        (ofSchemas fieldNames).edge? b = some f → e.place.text = f.place.text → a = b := by
  have hnav : Navigable fieldNames := by
    refine ⟨by decide, by decide, ?_⟩
    simp only [fieldNames, List.mem_singleton, forall_eq]
    exact ⟨by decide, by decide⟩
  obtain ⟨sources, _, _, hback⟩ := (edges_locate fieldNames).1 0 _ _ rfl
  exact ⟨hnav, by decide, ⟨sources, hback.imp fun _ _ h => h.2 hnav⟩, (edges_locate fieldNames).2 hnav⟩

end ReferenceGraph

end BindingSchema
