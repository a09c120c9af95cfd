import BindingSchema.Proofs.Normalization.Acceptance
import BindingSchema.Proofs.Normalization.Lowered
import BindingSchema.Proofs.Structure.Regular

/-!
What is left to be found wrong after the structure of a document was checked.

Names, enums and references are looked at twice: in the document as it was written, and in its
definitions once they are lowered. A place of the lowered document holds the node of the definition
at that place (`node?_lowered`), so what the structure promises of the definitions of a regular
document it promises of all nodes, and the second look finds nothing new: only what is required of a
schema without properties, and circles.
-/

namespace BindingSchema

open Annotation Decode

/-! ## Lowered definitions -/

namespace Definition

/-- A site is plain if its definition is proper. -/
theorem Proper.plain {schemas : List String} {d : Definition} (h : d.Proper schemas) {s : Site}
    (hs : s.node = d.toNode) : s.Plain schemas := by
  constructor
  · intro r hr
    have hreference := (Node.branch_eq_reference.mp hr).2
    rw [hs, reference_toNode] at hreference
    obtain ⟨path, hpath, rfl⟩ := Option.map_eq_some_iff.mp hreference
    obtain ⟨name, hmem, hparse⟩ := h.reference path hpath
    obtain ⟨target, htarget⟩ := Option.isSome_iff_exists.mp (List.isSome_idxOf?.mpr hmem)
    exact ⟨target, resolve_eq_ok.mpr ⟨name, hparse, htarget⟩⟩
  · intro values hvalues
    have henum := (Node.branch_eq_enumeration.mp hvalues).2.2
    rw [hs, enumValues_toNode] at henum
    exact h.enumValues values henum

end Definition

namespace Normalization

variable {doc : FunctionDocument}

/-! ## Documents of proper definitions -/

/-- Where schemas with properties have what they require, only the others are found wrong. -/
theorem requiredErrors_eq {schemas : Keyed Definition}
    (h : ∀ e ∈ schemas, e.2.properties ≠ [] →
      ∀ required ∈ e.2.required, (Keyed.get? e.2.properties required).isSome = true) :
    requiredErrors schemas = schemas.flatMap fun (name, d) =>
      if d.properties.isEmpty then
        d.required.map fun required => (Problem.requiredUndefined (.string required)).located (.schema name)
      else [] := by
  refine List.flatMap_congr fun (name, d) he => ?_
  by_cases hps : d.properties = []
  · simp [hps, Keyed.get?, List.map_eq_flatMap]
  · simp only [List.isEmpty_iff, if_neg hps, List.flatMap_eq_nil_iff]
    intro required hrequired
    rw [if_pos (h _ he hps required hrequired)]

/-- Where all definitions are proper, no name, enum or reference is found wrong. -/
theorem errors_derive_of_proper
    (hproper : ∀ root ways d, doc.definition? root ways = some d → d.Proper (Keyed.keys doc.schemas))
    (hfunctions : ∀ side, ∀ name ∈ Keyed.keys (doc.functions side), Identifier.isValid name = true)
    (hschemas : ∀ name ∈ Keyed.keys doc.schemas, Identifier.isValid name = true) :
    (derive doc).diagnostics.errors =
      (doc.schemas.flatMap fun (name, d) =>
        if d.properties.isEmpty then
          d.required.map fun required => (Problem.requiredUndefined (.string required)).located (.schema name)
        else []) ++ (ReferenceGraph.ofSchemas (derive doc).interface.schemas).cycles.map (·.diagnostic) := by
  have hnames : (Declaration.check (declarations doc)).errors = [] := by
    refine errors_check.mpr fun x hx => ?_
    refine FunctionDocument.forall_mem_names.mpr ⟨hfunctions, hschemas, fun root ways d hd => ?_⟩ x
      ((perm_declarations doc).mem_iff.mp hx)
    exact (hproper root ways d hd).names
  have hsites : (last doc).errors = [] := by
    refine errors_last fun root ways t ht => ?_
    have hnode := Interface.node?_of_site? ht
    rw [node?_lowered] at hnode
    obtain ⟨d, hd, hnode⟩ := Option.map_eq_some_iff.mp hnode
    rw [lowered, keys_lowerSchemas]
    exact (hproper root ways d hd).plain hnode.symm
  have hrequired : ∀ e ∈ doc.schemas, e.2.properties ≠ [] →
      ∀ required ∈ e.2.required, (Keyed.get? e.2.properties required).isSome = true := by
    intro e he
    obtain ⟨index, hindex⟩ := List.mem_iff_getElem?.mp he
    exact (hproper (.schema index) [] e.2
      (by simp [FunctionDocument.definition?, FunctionDocument.root?, hindex, Definition.follow?])).required
  rw [errors_derive_linked, hnames, hsites, requiredErrors_eq hrequired, ofSchemas_derive, List.append_nil,
    List.append_nil]
  rfl

/-- What reading a regular document of version 1 does not find wrong, normalizing it finds wrong only
for two reasons: something is required of a schema without properties, one error for each name in the
order of the document, or references lead in a circle. So the document is accepted exactly if its
structure is in order, its types fit, nothing is required of a schema without properties, and the
references that are resolved lead in no circle. -/
theorem errors_of_regular {raw : Value} {version : Version} (hversion : Document.statedVersion? raw = some version)
    (hne : version ≠ .v0) (hraw : raw.Unrepeated) (hregular : Regular raw) :
    (∀ document warnings, readDocument raw = ⟨some document, [], warnings⟩ →
      ∃ doc errors, document = .functions doc ∧
        errors = (doc.schemas.flatMap fun (name, d) =>
          if d.properties.isEmpty then
            d.required.map fun required => (Problem.requiredUndefined (.string required)).located (.schema name)
          else []) ++ (ReferenceGraph.ofSchemas (derive doc).interface.schemas).cycles.map (·.diagnostic) ∧
        normalize document =
          if errors = [] then .ok ⟨(derive doc).interface, (derive doc).diagnostics.warnings⟩
          else .error ⟨errors, (derive doc).diagnostics.warnings⟩) ∧
    ((∃ n, parse raw = .ok n) ↔
      Structure.check raw = [] ∧ ∃ doc, FunctionDocument.read raw = .ok doc ∧
        (∀ e ∈ doc.schemas, e.2.properties = [] → e.2.required = []) ∧
        (ReferenceGraph.ofSchemas (derive doc).interface.schemas).Acyclic) := by
  obtain ⟨members, hobject⟩ := exists_object_of_statedVersion? hversion
  have herrors : ∀ doc, Structure.check raw = [] → FunctionDocument.read raw = .ok doc →
      (derive doc).diagnostics.errors = (doc.schemas.flatMap fun (name, d) =>
        if d.properties.isEmpty then
          d.required.map fun required => (Problem.requiredUndefined (.string required)).located (.schema name)
        else []) ++ (ReferenceGraph.ofSchemas (derive doc).interface.schemas).cycles.map (·.diagnostic) := by
    intro doc hcheck hread
    obtain ⟨hproper, hfunctions, hschemas⟩ := proper_of_regular hraw (by rw [hobject]; rfl) hregular hcheck hread
    exact errors_derive_of_proper hproper hfunctions hschemas
  constructor
  · intro document warnings h
    obtain ⟨hcheck, ⟨doc, hread, rfl⟩, _⟩ := (readDocument_eq hversion hne).mp h
    exact ⟨doc, _, rfl, rfl, by rw [← herrors doc hcheck hread, normalize_functions]⟩
  · have hnil : ∀ doc : FunctionDocument, Structure.check raw = [] → FunctionDocument.read raw = .ok doc →
        ((derive doc).diagnostics.errors = [] ↔ (∀ e ∈ doc.schemas, e.2.properties = [] → e.2.required = []) ∧
          (ReferenceGraph.ofSchemas (derive doc).interface.schemas).Acyclic) := by
      intro doc hcheck hread
      rw [herrors doc hcheck hread, List.append_eq_nil_iff, List.map_eq_nil_iff, ReferenceGraph.cycles_eq_nil_iff]
      simp
    simp only [parse_eq_ok_iff hversion hne]
    constructor
    · rintro ⟨_, hcheck, doc, hread, hderive, _⟩
      exact ⟨hcheck, doc, hread, (hnil doc hcheck hread).mp hderive⟩
    · rintro ⟨hcheck, doc, hread, hrest⟩
      exact ⟨_, hcheck, doc, hread, (hnil doc hcheck hread).mpr hrest, rfl⟩

/-- A basket has to have a handle, which is not described, and a chain is made of chains. -/
def basket : Value :=
  .object [("version", .string "v1"), ("components", .object [("schemas", .object [
    ("Basket", .object [("required", .array [.string "handle"])]),
    ("Chain", .object [("items", .object [("$ref", .string "#/components/schemas/Chain")])])])])]

theorem regular_basket : Regular basket := by
  have hbelow : ∀ (fields : List (String × Value)), (∀ way : Way, Value.follow? (.object fields) way.keys = none) →
      ∀ ways (way : Way), Value.follow? (.object fields) ((ways ++ [way]).flatMap Way.keys) = none := by
    intro fields h ways way
    cases ways with
    | nil => simpa using h way
    | cons first ways => rw [List.cons_append, List.flatMap_cons, Value.follow?_append, h first]; rfl
  have hmember : ∀ (root : Root) v, basket.follow? root.keys = some v →
      v.IsRecord ∧ ∀ ways (way : Way) w, v.follow? ((ways ++ [way]).flatMap Way.keys) = some w → w.IsRecord := by
    intro root v hv
    cases root with
    | parameter side index slot => cases side <;> cases hv
    | schema index =>
      rcases index with _ | _ | index
      · cases hv
        refine ⟨Or.inl rfl, fun ways way w hw => ?_⟩
        rw [hbelow _ (by intro way; cases way <;> rfl)] at hw
        cases hw
      · cases hv
        refine ⟨Or.inl rfl, fun ways way w hw => ?_⟩
        cases ways with
        | nil => cases way <;> cases hw; exact Or.inl rfl
        | cons first ways =>
          rw [List.cons_append, List.flatMap_cons, Value.follow?_append] at hw
          obtain ⟨u, hu, hw⟩ := Option.bind_eq_some_iff.mp hw
          cases first <;> cases hu
          rw [hbelow _ (by intro way; cases way <;> rfl)] at hw
          cases hw
      · cases hv
  refine ⟨fun side v hv => ?_, fun side index v hv => ?_, fun v hv => ?_, fun v hv => ?_,
    fun root v hv => (hmember root v hv).1, fun root ways way w _ hw => ?_⟩
  · cases side <;> cases hv
  · cases side <;> cases hv
  · cases hv; exact Or.inl rfl
  · cases hv; exact Or.inl rfl
  · rw [placeKeys, Value.follow?_append] at hw
    obtain ⟨v, hv, hw⟩ := Option.bind_eq_some_iff.mp hw
    exact (hmember root v hv).2 ways way w hw

/-- The structure is in order, and normalizing finds the handle and the chain. -/
theorem errors_of_regular_basket :
    basket.Unrepeated ∧ Regular basket ∧
      (∃ document rejection, readDocument basket = ⟨some document, [], []⟩ ∧
        normalize document = .error rejection ∧
        rejection.errors.map (·.path) = ["#/components/schemas/Basket", "#/components/schemas/Chain/items/$ref"]) ∧
      ¬ ∃ n, parse basket = .ok n := by
  have hraw : basket.Unrepeated := by
    simp [basket, Value.Unrepeated, Value.UnrepeatedMembers, Value.UnrepeatedItems, Keyed.keys]
  have hversion : Document.statedVersion? basket = some .v1 := rfl
  obtain ⟨herrors, hparse⟩ := errors_of_regular hversion (by decide) hraw regular_basket
  have hread : readDocument basket = ⟨some (.functions { version := "v1", schemas :=
      [("Basket", { required := ["handle"] }),
        ("Chain", { items := some { reference := some "#/components/schemas/Chain" } })] }), [], []⟩ := rfl
  refine ⟨hraw, regular_basket, ?_, ?_⟩
  · obtain ⟨doc, errors, hdoc, herrors, hnormalize⟩ := herrors _ _ hread
    cases hdoc
    have hpaths : errors.map (·.path) =
        ["#/components/schemas/Basket", "#/components/schemas/Chain/items/$ref"] := by rw [herrors]; rfl
    rw [if_neg (by rintro rfl; cases hpaths)] at hnormalize
    exact ⟨_, _, hread, hnormalize, hpaths⟩
  · intro h
    obtain ⟨_, doc, hdoc, hrequired, _⟩ := hparse.mp h
    have hdoc' : FunctionDocument.read basket = .ok { version := "v1", schemas :=
      [("Basket", { required := ["handle"] }),
        ("Chain", { items := some { reference := some "#/components/schemas/Chain" } })] } := rfl
    cases hdoc.symm.trans hdoc'
    cases hrequired _ List.mem_cons_self rfl

end Normalization

end BindingSchema
