import BindingSchema.Proofs.Annotation.Depth
import BindingSchema.Proofs.Annotation.Reports
import BindingSchema.Proofs.Normalization.Written

/-!
What annotation does to any document, right or wrong.

Whatever the references of a document are like, annotation leaves every schema done, with its own node
in the registry (`exists_done_last`), and no depth of recursion is used up. Its errors are those of the
nodes that it comes to, each once and at the place of the node (`perm_errors_last`): a problem does not
depend on the reference through which its schema was first entered.
-/

namespace BindingSchema

open Annotation

namespace Normalization

variable (doc : FunctionDocument)

theorem done_last : ∀ p ∈ (last doc).progress, p.isPending = false := by
  intro p hp
  obtain ⟨index, hindex⟩ := List.mem_iff_getElem?.mp hp
  have hlt : index < (lowered doc).schemas.length := by
    rw [lowered, ← length_last]
    exact (List.getElem?_eq_some_iff.mp hindex).1
  obtain ⟨node, hdone, _⟩ := exists_done_last doc (List.getElem?_eq_getElem hlt)
  rw [hdone] at hindex
  cases hindex
  rfl

theorem perm_functionReports (names : List String) (kind : String) (f : Function) :
    ((Interface.reached.reachedOfFunction kind f).flatMap fun e => e.2.problems names e.1).Perm
      (functionReports names kind f) := by
  rw [Interface.reached.reachedOfFunction, functionReports, List.flatMap_append, List.flatMap_assoc, List.flatMap_assoc]
  exact (List.Perm.flatMap_left _ fun p _ => perm_reports names p.node _).append
    (List.Perm.flatMap_left _ fun p _ => perm_reports names p.node _)

theorem account_last :
    account (lowered doc).schemas (last doc) =
      ((lowered doc).schemas.flatMap (fun e => reports (Keyed.keys (lowered doc).schemas) (.schema e.1) e.2.node) ++
        (lowered doc).exports.flatMap (functionReports (Keyed.keys (lowered doc).schemas) "exports") ++
        (lowered doc).imports.flatMap (functionReports (Keyed.keys (lowered doc).schemas) "imports") :
          List Diagnostic) := by
  simp only [last, lowered, account_annotateFunctions, account_annotateSchemas, account_start, Multiset.coe_add]

/-- The errors of annotation are what is wrong with the nodes that it comes to, each by itself. -/
theorem perm_errors_last :
    (last doc).errors.Perm
      ((lowered doc).reached.flatMap fun e => e.2.problems (Keyed.keys (lowered doc).schemas) e.1) := by
  have herrors := account_last doc
  rw [account_of_done (done_last doc)] at herrors
  refine (Multiset.coe_eq_coe.mp herrors).trans ?_
  rw [Interface.reached, List.flatMap_append, List.flatMap_append, List.flatMap_assoc, List.flatMap_assoc,
    List.flatMap_assoc]
  refine List.Perm.symm (List.Perm.append (List.Perm.append ?_ ?_) ?_)
  · exact List.Perm.flatMap_left _ fun e _ => perm_reports _ e.2.node _
  · exact List.Perm.flatMap_left _ fun f _ => perm_functionReports _ "exports" f
  · exact List.Perm.flatMap_left _ fun f _ => perm_functionReports _ "imports" f

/-- A schema is left done, with what is written of it in its node. -/
theorem exists_written_last {index : Nat} {name : String} {d : Definition} (hd : doc.schemas[index]? = some (name, d)) :
    ∃ node, (last doc).progress[index]? = some (.done node) ∧
      (derive doc).interface.schemas[index]? = some (name, ⟨name, d.required, node⟩) ∧
      ∀ ways, Option.Rel Definition.Written (d.follow? ways) (node.follow? ways) := by
  have hs : (lowered doc).schemas[index]? = some (name, d.toSchema name) := by
    simp only [lowered, lowerSchemas, List.getElem?_map, hd, Option.map_some]
  obtain ⟨node, hp, _⟩ := exists_done_last doc hs
  have hregistry : (derive doc).interface.schemas[index]? = some (name, ⟨name, d.required, node⟩) :=
    getElem?_registry hs hp
  refine ⟨node, hp, hregistry, fun ways => ?_⟩
  have hwritten := written_derive doc (.schema index) ways
  simp only [FunctionDocument.definition?, FunctionDocument.root?, Interface.node?, Interface.root?, hd, hregistry,
    Option.map_some, Option.bind_some] at hwritten
  generalize d.follow? ways = below at hwritten ⊢
  generalize node.follow? ways = found at hwritten ⊢
  cases hwritten with
  | none => exact .none
  | some h => exact .some h.1

/-- Annotation of any document comes to an end that no greater depth would change, with every schema
done and all that is written of it in the registry. Its errors are what is wrong with the nodes that it
comes to: for each node one error for a reference that names no schema, at the reference, or one for
each value of an enum that is no string, at the node, and one for each string that is no identifier, at
the enum. -/
theorem annotation_reports :
    (∀ depth, doc.schemas.length < depth → ∀ target place s, s.progress.length = doc.schemas.length →
      enterSchema (lowered doc).schemas depth target place s = enterFrom (lowered doc).schemas target place s) ∧
    (∀ (index : Nat) (name : String) (d : Definition), doc.schemas[index]? = some (name, d) →
      ∃ node, (last doc).progress[index]? = some (.done node) ∧
        (derive doc).interface.schemas[index]? = some (name, ⟨name, d.required, node⟩) ∧
        ∀ ways, Option.Rel Definition.Written (d.follow? ways) (node.follow? ways)) ∧
    (last doc).errors.Perm
      ((lowered doc).reached.flatMap fun (place, n) => n.problems (Keyed.keys doc.schemas) place) := by
  refine ⟨?_, fun _ _ _ hd => exists_written_last doc hd, ?_⟩
  · intro depth hdepth target place s hs
    have hlen : (lowered doc).schemas.length = doc.schemas.length := List.length_map _
    have hpending := pending_lt (hs.trans hlen.symm)
    exact enterSchema_depth target place s (by omega) hpending
  · have hperm := perm_errors_last doc
    rw [show Keyed.keys (lowered doc).schemas = Keyed.keys doc.schemas from keys_lowerSchemas doc.schemas] at hperm
    exact hperm

/-- A link has a next link, a kind, and an owner that is declared nowhere. -/
def chain : FunctionDocument where
  version := "v1"
  exports := [("walk", { input := some ⟨.json, { reference := some "#/components/schemas/Link" }⟩ })]
  schemas :=
    [("Link",
      { properties :=
          [("owner", { reference := some "#/components/schemas/Person" }),
            ("next", { reference := some "#/components/schemas/Link" }),
            ("kind", { enumValues := some [.null, .string "not ok"] })] })]

/-- The owner and the two values of the kind are reported once, though the link is also met from itself
and from the export. -/
theorem annotation_reports_chain :
    (last chain).errors.Perm
        [(Problem.missingSchema "#/components/schemas/Person" "Person" ["Link"]).located
            ⟨["components", "schemas", "Link", "properties", "owner", "$ref"]⟩,
          (Problem.enumItemNotString .null).located ⟨["components", "schemas", "Link", "properties", "kind"]⟩,
          (Problem.invalidName "not ok").located
            ⟨["components", "schemas", "Link", "properties", "kind", "enum"]⟩] ∧
      (∃ node, (last chain).progress[0]? = some (.done node) ∧
        Option.Rel Definition.Written (some { enumValues := some [.null, .string "not ok"] })
          (node.follow? [.property 2])) ∧
      enterSchema (lowered chain).schemas 7 0 .root (last chain) =
        enterFrom (lowered chain).schemas 0 .root (last chain) := by
  obtain ⟨hdepth, hdone, herrors⟩ := annotation_reports chain
  obtain ⟨node, hnode, _, hwritten⟩ := hdone 0 "Link" _ rfl
  exact ⟨herrors, ⟨node, hnode, hwritten [.property 2]⟩, hdepth 7 (by decide) 0 .root _ (length_last chain)⟩

end Normalization

end BindingSchema
