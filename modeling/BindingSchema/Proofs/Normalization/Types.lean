import BindingSchema.Proofs.Normalization.Derivation

/-!
The types in a normal form are what the document means.

Annotation goes through the schemas in place, remembers what it has done and answers with a
placeholder where it is already inside of a schema. None of this can be seen in a document that is
accepted: at every site the type is the only one that the site means, read off the document or off
the normal form, and every reference that was resolved stands for the schema it names
(`normalize_types`).
-/

namespace BindingSchema

open Annotation

namespace Normalization

variable {doc : FunctionDocument}

theorem get?_schemas_derive (h : (derive doc).diagnostics.errors = []) (target : String) (schema : Schema)
    (hget : Keyed.get? (lowered doc).schemas target = some schema) :
    ∃ schema', Keyed.get? (derive doc).interface.schemas target = some schema' ∧
      schema'.node = typed (Keyed.keys (lowered doc).schemas) (last doc).types target false schema.node := by
  rw [get?_derive h, hget]
  exact ⟨_, rfl, rfl⟩

/-- A site of the document means the type that its node has when it is annotated. -/
theorem means_site (h : (derive doc).diagnostics.errors = []) {root : Root} {ways : List Way} {raw : Site}
    (hraw : (lowered doc).site? root ways = some raw) :
    Means (lowered doc).schemas raw.name raw.isMember raw.node
      (typedSite (Keyed.keys (lowered doc).schemas) (last doc).types raw).node.bindingType := by
  obtain ⟨s, hroot, hfollow⟩ := Option.bind_eq_some_iff.mp hraw
  exact means_typed raw.node raw.name raw.isMember ((supported_root h hroot).2.follow hfollow)

/-- A resolved reference holds the place of the schema that its path names. -/
theorem target_of_mem_nodes (h : (derive doc).diagnostics.errors = []) {x : Node}
    (hx : x ∈ (derive doc).interface.nodes) {r : SchemaRef} (hr : x.reference = some r) {target : Nat}
    (htarget : r.target = some target) :
    ∃ name schema, SchemaRef.parse r.path = .ok name ∧
      (derive doc).interface.schemas[target]? = some (name, schema) := by
  obtain ⟨root, s, hroot, hx⟩ := Interface.exists_root hx
  rw [root?_derive h] at hroot
  obtain ⟨raw, hraw, rfl⟩ := Option.map_eq_some_iff.mp hroot
  obtain ⟨hbare, hsupported⟩ := supported_root h hraw
  rcases mem_nodes_typed raw.node raw.name raw.isMember hbare hsupported x hx with
    ⟨_, hnone⟩ | ⟨name, isMember, node, hnode, _, rfl⟩
  · rw [hnone r hr] at htarget
    cases htarget
  · obtain ⟨targetName, hparse, hidx⟩ := resolve_eq_ok.mp (resolve_of_typed hnode hr htarget)
    obtain ⟨schema, hs⟩ := Keyed.exists_of_idxOf? hidx
    exact ⟨targetName, _, hparse, getElem?_schemas_derive h hs⟩

/-- A fruit has a name, and a size that may be null. -/
def fruit : FunctionDocument where
  version := "v1"
  schemas :=
    [("Fruit",
      { properties :=
          [("name", { type := some .string }),
            ("size", { reference := some "#/components/schemas/Size", nullable := some true })] }),
      ("Size", { enumValues := some [.string "small", .string "large"] })]

end Normalization

end BindingSchema
