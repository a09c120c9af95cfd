import BindingSchema.Proofs.Annotation.Reach
import BindingSchema.Proofs.Document.Places
import BindingSchema.Proofs.Normalization.Derivation

/-!
The lowered document, place by place.

Lowering changes no place: a place of the lowered document holds the node of the definition at that
place (`node?_lowered`).
-/

namespace BindingSchema

namespace Definition

theorem getElem?_toProperties {required : List String} {ds : List (String × Definition)} {index : Nat} :
    (toProperties required ds)[index]? =
      ds[index]?.map fun (name, d) => ⟨name, required.contains name, d.toNode⟩ := by
  induction ds generalizing index with
  | nil => rfl
  | cons e rest ih =>
    obtain ⟨name, d⟩ := e
    rw [toProperties]
    cases index with
    | zero => rfl
    | succ index => exact ih

theorem toNode?_eq (d : Option Definition) : toNode? d = d.map toNode := by
  cases d <;> rfl

/-- Everything a definition says is in its node, except which properties it requires. -/
theorem toNode_eq (d : Definition) :
    d.toNode =
      { type := d.type
        format := d.format
        description := d.description
        nullable := d.nullable
        items := d.items.map toNode
        additionalProperties := d.additionalProperties.map toNode
        properties := toProperties d.required d.properties
        enumValues := d.enumValues
        reference := d.reference.map (⟨·, none⟩) } := by
  obtain ⟨type, format, description, nullable, items, values, properties, required, enumValues, reference⟩ := d
  rw [toNode, toNode?_eq, toNode?_eq]

theorem name_mem_keys {d : Definition} {p : Property} (hp : p ∈ d.toNode.properties) :
    p.name ∈ Keyed.keys d.properties := by
  obtain ⟨index, hindex⟩ := List.mem_iff_getElem?.mp hp
  rw [toNode_eq, getElem?_toProperties] at hindex
  obtain ⟨e, he, rfl⟩ := Option.map_eq_some_iff.mp hindex
  exact List.mem_map_of_mem (List.mem_of_getElem? he)

theorem reference_toNode (d : Definition) : d.toNode.reference = d.reference.map (⟨·, none⟩) := by
  rw [toNode_eq]

theorem enumValues_toNode (d : Definition) : d.toNode.enumValues = d.enumValues := by
  rw [toNode_eq]

theorem below?_toNode (d : Definition) (way : Way) : d.toNode.below? way = (d.below? way).map toNode := by
  rw [toNode_eq]
  cases way with
  | property index =>
    simp only [Node.below?, below?, getElem?_toProperties, Option.map_map]
    rfl
  | items => rfl
  | mapValues => rfl

theorem follow?_toNode (d : Definition) (ways : List Way) :
    d.toNode.follow? ways = (d.follow? ways).map toNode := by
  induction ways generalizing d with
  | nil => rfl
  | cons way ways ih =>
    rw [Node.follow?, follow?, below?_toNode]
    cases d.below? way with
    | none => rfl
    | some x => exact ih x

end Definition

namespace Normalization

variable {doc : FunctionDocument}

theorem functions_lowered (side : Side) : (lowered doc).functions side = lowerFunctions (doc.functions side) := by
  cases side <;> rfl

/-- A place of the lowered document holds the node of the definition at that place. -/
theorem node?_lowered (doc : FunctionDocument) (root : Root) (ways : List Way) :
    (lowered doc).node? root ways = (doc.definition? root ways).map Definition.toNode := by
  have hroot : ((lowered doc).root? root).map (·.node) = (doc.root? root).map Definition.toNode := by
    cases root with
    | schema index =>
      simp only [Interface.root?, FunctionDocument.root?, lowered, lowerSchemas, List.getElem?_map, Option.map_map]
      rfl
    | parameter side index slot =>
      simp only [Interface.root?, FunctionDocument.root?, functions_lowered, lowerFunctions, List.getElem?_map]
      cases (doc.functions side)[index]? with
      | none => rfl
      | some f =>
        cases slot <;>
          simp only [Option.map_some, Option.bind_some, Option.map_map, Function.parameter?,
            FunctionDefinition.toFunction, FunctionDefinition.parameter?] <;> rfl
  rw [Interface.node?, FunctionDocument.definition?, Option.map_bind]
  cases hs : (lowered doc).root? root with
  | none =>
    rw [hs] at hroot
    rw [Option.map_eq_none_iff.mp hroot.symm]
    rfl
  | some s =>
    rw [hs] at hroot
    obtain ⟨d, hd, hnode⟩ := Option.map_eq_some_iff.mp hroot.symm
    have hfollow := d.follow?_toNode ways
    rw [hnode] at hfollow
    rw [hd]
    exact hfollow

end Normalization

end BindingSchema
