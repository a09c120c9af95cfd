import BindingSchema.Lowering
import BindingSchema.Proofs.Annotation.Branch
import BindingSchema.ReferenceGraph

/-!
All nodes of a document, at any depth.

`Node.nodes` lists a node and what is below it, whatever annotation goes into, and
`Interface.nodes` those of all schemas, inputs and outputs. A node made from a definition is bare
at every depth (`bare_toNode`): it has no binding type and no reference in it is resolved, so it
has no edges.
-/

namespace BindingSchema

namespace Node

mutual

/-- A node and everything below it. -/
def nodes : Node → List Node
  | ⟨type, format, description, nullable, items, additionalProperties, properties, enumValues,
      reference, bindingType⟩ =>
    ⟨type, format, description, nullable, items, additionalProperties, properties, enumValues,
      reference, bindingType⟩ ::
      (nodesOfProperties properties ++ nodesOfOptional items ++ nodesOfOptional additionalProperties)

def nodesOfOptional : Option Node → List Node
  | none => []
  | some n => nodes n

def nodesOfProperties : List Property → List Node
  | [] => []
  | ⟨_, _, node⟩ :: rest => nodes node ++ nodesOfProperties rest

end

theorem mem_nodesOfProperties {ps : List Property} {x : Node} :
    x ∈ nodesOfProperties ps ↔ ∃ p ∈ ps, x ∈ p.node.nodes := by
  induction ps with
  | nil => simp [nodesOfProperties]
  | cons p ps ih =>
    obtain ⟨name, required, node⟩ := p
    simp [nodesOfProperties, ih]

theorem mem_nodesOfOptional {n : Option Node} {x : Node} :
    x ∈ nodesOfOptional n ↔ ∃ m, n = some m ∧ x ∈ m.nodes := by
  cases n with
  | none => simp [nodesOfOptional]
  | some m => simp [nodesOfOptional]

theorem mem_nodes {n x : Node} :
    x ∈ n.nodes ↔ x = n ∨ (∃ p ∈ n.properties, x ∈ p.node.nodes) ∨
      (∃ item, n.items = some item ∧ x ∈ item.nodes) ∨
      ∃ value, n.additionalProperties = some value ∧ x ∈ value.nodes := by
  obtain ⟨type, format, description, nullable, items, values, properties, enumValues, reference, bt⟩ := n
  simp only [nodes, List.mem_cons, List.mem_append, mem_nodesOfProperties, mem_nodesOfOptional, or_assoc]

theorem self_mem_nodes (n : Node) : n ∈ n.nodes := mem_nodes.mpr (Or.inl rfl)

/-- What holds of a node and everything below it holds of the node by itself and of everything that is
right below it. -/
theorem forall_mem_nodes {P : Node → Prop} {n : Node} :
    (∀ x ∈ n.nodes, P x) ↔ P n ∧ (∀ p ∈ n.properties, ∀ x ∈ p.node.nodes, P x) ∧
      (∀ item, n.items = some item → ∀ x ∈ item.nodes, P x) ∧
      ∀ value, n.additionalProperties = some value → ∀ x ∈ value.nodes, P x := by
  constructor
  · intro h
    refine ⟨h n (self_mem_nodes n), fun p hp x hx => h x ?_, fun item hi x hx => h x ?_,
      fun value hv x hx => h x ?_⟩
    · exact mem_nodes.mpr (Or.inr (Or.inl ⟨p, hp, hx⟩))
    · exact mem_nodes.mpr (Or.inr (Or.inr (Or.inl ⟨item, hi, hx⟩)))
    · exact mem_nodes.mpr (Or.inr (Or.inr (Or.inr ⟨value, hv, hx⟩)))
  · rintro ⟨hself, hps, hitems, hvalues⟩ x hx
    rcases mem_nodes.mp hx with rfl | ⟨p, hp, hx⟩ | ⟨item, hi, hx⟩ | ⟨value, hv, hx⟩
    · exact hself
    · exact hps p hp x hx
    · exact hitems item hi x hx
    · exact hvalues value hv x hx

/-- Nothing has been derived for the node or for anything below it. -/
def Bare (n : Node) : Prop :=
  ∀ x ∈ n.nodes, x.bindingType = none ∧ ∀ r, x.reference = some r → r.target = none

theorem bare_iff {n : Node} :
    n.Bare ↔ (n.bindingType = none ∧ ∀ r, n.reference = some r → r.target = none) ∧
      (∀ p ∈ n.properties, p.node.Bare) ∧ (∀ item, n.items = some item → item.Bare) ∧
      ∀ value, n.additionalProperties = some value → value.Bare :=
  forall_mem_nodes

end Node

/-! ## Lowered definitions -/

mutual

theorem bare_toNode : ∀ d : Definition, d.toNode.Bare
  | ⟨type, format, description, nullable, items, additionalProperties, properties, required,
      enumValues, reference⟩ => by
    refine Node.bare_iff.mpr ⟨⟨by simp [Definition.toNode], ?_⟩, ?_, ?_, ?_⟩
    · intro r hr
      simp only [Definition.toNode, Option.map_eq_some_iff] at hr
      obtain ⟨path, _, rfl⟩ := hr
      rfl
    · simpa only [Definition.toNode] using bare_toProperties required properties
    · simpa only [Definition.toNode] using bare_toNode? items
    · simpa only [Definition.toNode] using bare_toNode? additionalProperties

theorem bare_toNode? : ∀ (d : Option Definition) (n : Node), Definition.toNode? d = some n → n.Bare
  | none, n, h => by simp [Definition.toNode?] at h
  | some d, n, h => by
    simp only [Definition.toNode?, Option.some.injEq] at h
    exact h ▸ bare_toNode d

theorem bare_toProperties (required : List String) : ∀ (ds : List (String × Definition)),
    ∀ p ∈ Definition.toProperties required ds, p.node.Bare
  | [], p, h => by simp [Definition.toProperties] at h
  | (name, d) :: rest, p, h => by
    simp only [Definition.toProperties, List.mem_cons] at h
    rcases h with rfl | h
    · exact bare_toNode d
    · exact bare_toProperties required rest p h

end

theorem bare_of_mem_lowerSchemas {ds : Keyed Definition} {name : String} {s : Schema}
    (h : (name, s) ∈ lowerSchemas ds) : s.node.Bare := by
  obtain ⟨⟨_, d⟩, _, heq⟩ := List.mem_map.mp h
  cases heq
  exact bare_toNode d

/-! ## Edges -/

namespace Edge

theorem ofNode_eq (place : Pointer) (n : Node) :
    ofNode place n = (n.reference.bind (·.target)).toList.map (⟨·, place.push "$ref"⟩) ++
      ofProperties place n.properties ++ ofOptional (place.push "items") n.items ++
      ofOptional (place.push "additionalProperties") n.additionalProperties := by
  obtain ⟨type, format, description, nullable, items, values, properties, enumValues, reference, bt⟩ := n
  simp only [ofNode]
  cases reference.bind (·.target) <;> rfl

theorem ofProperties_of_bare {ps : List Property}
    (h : ∀ p ∈ ps, ∀ place, ofNode place p.node = []) (place : Pointer) : ofProperties place ps = [] := by
  induction ps with
  | nil => simp [ofProperties]
  | cons p ps ih =>
    obtain ⟨name, required, node⟩ := p
    have hnode : ofNode (place.append ["properties", name]) node = [] :=
      h ⟨name, required, node⟩ List.mem_cons_self _
    simp [ofProperties, hnode, ih fun p hp => h p (List.mem_cons_of_mem _ hp)]

theorem ofOptional_of_bare {n : Option Node} (h : ∀ m, n = some m → ∀ place, ofNode place m = [])
    (place : Pointer) : ofOptional place n = [] := by
  cases n with
  | none => rfl
  | some m => exact h m rfl place

/-- Where nothing is resolved there are no edges. -/
theorem ofNode_of_bare (n : Node) : n.Bare → ∀ place, ofNode place n = [] := by
  induction n using Node.induct with
  | h n ihProperties ihItems ihValues =>
    intro hn place
    obtain ⟨⟨_, htarget⟩, hps, hitems, hvalues⟩ := Node.bare_iff.mp hn
    have hown : n.reference.bind (·.target) = none := by
      rcases hr : n.reference with _ | r
      · rfl
      · exact htarget r hr
    rw [ofNode_eq, hown, ofProperties_of_bare (fun p hp => ihProperties p hp (hps p hp)),
      ofOptional_of_bare (fun m hm => ihItems m hm (hitems m hm)),
      ofOptional_of_bare (fun m hm => ihValues m hm (hvalues m hm))]
    rfl

end Edge

/-! ## Ways -/

/-- One way down from a node, whose properties are counted from 0. -/
inductive Way where
  | property (index : Nat)
  | items
  | mapValues

/-- Which side of the boundary a function is on. -/
inductive Side where
  | exported
  | imported

/-- What a function has a type for. -/
inductive Slot where
  | input
  | output

/-- Where the nodes of a document begin. -/
inductive Root where
  | schema (index : Nat)
  | parameter (side : Side) (index : Nat) (slot : Slot)

def Function.parameter? (f : Function) : Slot → Option Parameter
  | .input => f.input
  | .output => f.output

/-! ## The whole -/

namespace Interface

def functionNodes (f : Function) : List Node :=
  f.input.toList.flatMap (·.node.nodes) ++ f.output.toList.flatMap (·.node.nodes)

/-- Every node of the schemas, exports and imports. -/
def nodes (i : Interface) : List Node :=
  i.schemas.flatMap (·.2.node.nodes) ++ i.exports.flatMap functionNodes ++ i.imports.flatMap functionNodes

end Interface

end BindingSchema
