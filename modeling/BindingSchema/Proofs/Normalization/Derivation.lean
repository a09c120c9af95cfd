import BindingSchema.Normalization
import BindingSchema.Proofs.Annotation.Sites

/-!
What is derived from a document, in terms of annotation.

The functions are annotated after the schemas, when every schema is done: they add problems, but
neither types nor placeholders, so the last state has the registry of the state after the schemas
(`finished_last`). If nothing is wrong with the document the last state is sound (`sound_last`),
and the derived interface is the lowered document with every node annotated (`schemas_derive`,
`functions_derive`, `site?_derive`).
-/

namespace BindingSchema

open Annotation

theorem Keyed.get?_map {α β : Type u} {g : String × α → String × β} (hg : ∀ e, (g e).1 = e.1) (m : Keyed α)
    (key : String) : Keyed.get? (m.map g) key = (Keyed.get? m key).map fun v => (g (key, v)).2 := by
  induction m with
  | nil => rfl
  | cons e rest ih =>
    obtain ⟨k, v⟩ := e
    have hk : g (k, v) = (k, (g (k, v)).2) := Prod.ext (hg (k, v)) rfl
    rw [List.map_cons, hk]
    by_cases h : k = key
    · subst h
      simp [Keyed.get?]
    · simp [Keyed.get?, h, ih]

namespace Normalization

/-- The document with its definitions lowered and nothing derived. -/
def lowered (doc : FunctionDocument) : Interface where
  version := .v1
  exports := lowerFunctions doc.exports
  imports := lowerFunctions doc.imports
  schemas := lowerSchemas doc.schemas

/-- The state when all schemas, exports and imports are annotated. -/
def last (doc : FunctionDocument) : State :=
  let schemas := lowerSchemas doc.schemas
  let s := annotateSchemas schemas
  let s := (annotateFunctions schemas "exports" (lowerFunctions doc.exports) s).2
  (annotateFunctions schemas "imports" (lowerFunctions doc.imports) s).2

variable (doc : FunctionDocument)

theorem interface_derive :
    (derive doc).interface =
      { version := .v1
        exports := (annotateFunctions (lowerSchemas doc.schemas) "exports" (lowerFunctions doc.exports)
          (annotateSchemas (lowerSchemas doc.schemas))).1
        imports := (annotateFunctions (lowerSchemas doc.schemas) "imports" (lowerFunctions doc.imports)
          (annotateFunctions (lowerSchemas doc.schemas) "exports" (lowerFunctions doc.exports)
            (annotateSchemas (lowerSchemas doc.schemas))).2).1
        schemas := (last doc).registry (lowerSchemas doc.schemas) } := rfl

theorem placeholders_derive : (derive doc).placeholders = (last doc).placeholders := rfl

theorem errors_derive :
    (derive doc).diagnostics.errors =
      requiredErrors doc.schemas ++
        (Declaration.check (Declaration.all (lowerFunctions doc.exports) (lowerFunctions doc.imports)
          (lowerSchemas doc.schemas))).errors ++ (last doc).errors ++
        (ReferenceGraph.ofSchemas (derive doc).interface.schemas).cycles.map (·.diagnostic) := rfl

theorem normalize_functions :
    normalize (.functions doc) =
      if (derive doc).diagnostics.errors = [] then
        .ok ⟨(derive doc).interface, (derive doc).diagnostics.warnings⟩
      else .error ⟨(derive doc).diagnostics.errors, (derive doc).diagnostics.warnings⟩ := by
  rw [normalize, ofFunctions, Diagnostics.result_eq]
  split <;> rfl

/-- A document is accepted with what is derived from it, if nothing is wrong. -/
theorem normalize_eq_ok {n : Normalized} (h : normalize (.functions doc) = .ok n) :
    (derive doc).diagnostics.errors = [] ∧ n.interface = (derive doc).interface := by
  rw [normalize_functions] at h
  split at h
  · rename_i herrors
    cases h
    exact ⟨herrors, rfl⟩
  · cases h

/-! ## The last state -/

theorem later_last : Later (annotateSchemas (lowerSchemas doc.schemas)) (last doc) :=
  (later_annotateFunctions _ "exports" _ _).trans (later_annotateFunctions _ "imports" _ _)

theorem finished_last :
    (last doc).progress = (annotateSchemas (lowerSchemas doc.schemas)).progress ∧
      (last doc).placeholders = (annotateSchemas (lowerSchemas doc.schemas)).placeholders :=
  (finished_annotateFunctions _ "exports" _ _).trans (finished_annotateFunctions _ "imports" _ _)
    fun _ hi => exists_done hi

theorem length_last : (last doc).progress.length = (lowerSchemas doc.schemas).length := by
  rw [(finished_last doc).1, length_progress]

theorem bare_lowerSchemas : ∀ x ∈ lowerSchemas doc.schemas, x.2.node.Bare :=
  fun (_, _) hx => bare_of_mem_lowerSchemas hx

theorem bare_of_mem_functions {doc : FunctionDocument} {side : Side} {f : Function} {p : Parameter}
    {slot : Slot} (hf : f ∈ (lowered doc).functions side) (hp : f.parameter? slot = some p) : p.node.Bare := by
  obtain ⟨d, hinput, houtput⟩ : ∃ d : FunctionDefinition,
      f.input = d.input.map (·.toParameter) ∧ f.output = d.output.map (·.toParameter) := by
    cases side with
    | exported =>
      obtain ⟨⟨name, d⟩, _, rfl⟩ := List.mem_map.mp hf
      exact ⟨d, rfl, rfl⟩
    | imported =>
      obtain ⟨⟨name, d⟩, _, rfl⟩ := List.mem_map.mp hf
      exact ⟨d, rfl, rfl⟩
  cases slot with
  | input =>
    obtain ⟨q, _, rfl⟩ := Option.map_eq_some_iff.mp (hinput.symm.trans hp)
    exact bare_toNode q.definition
  | output =>
    obtain ⟨q, _, rfl⟩ := Option.map_eq_some_iff.mp (houtput.symm.trans hp)
    exact bare_toNode q.definition

/-- The graph that is searched for circles is the one that annotation went through. -/
theorem ofSchemas_derive :
    ReferenceGraph.ofSchemas (derive doc).interface.schemas = linked (lowerSchemas doc.schemas) := by
  rw [← ofSchemas_registry (bare_lowerSchemas doc), interface_derive]
  simp only [State.registry, (finished_last doc).1]

/-- The references answered by a placeholder are the ones that close a circle. -/
theorem placeholders_last :
    (last doc).placeholders = (linked (lowerSchemas doc.schemas)).cycles.map (·.place) := by
  rw [(finished_last doc).2]
  exact (annotateSchemas_mirrors _).places

variable {doc}

theorem clean_last (h : (derive doc).diagnostics.errors = []) :
    (last doc).errors = [] ∧ (last doc).placeholders = [] ∧ (linked (lowerSchemas doc.schemas)).cycles = [] := by
  rw [errors_derive, ofSchemas_derive] at h
  simp only [List.append_eq_nil_iff, List.map_eq_nil_iff] at h
  obtain ⟨⟨_, herrors⟩, hcycles⟩ := h
  refine ⟨herrors, ?_, hcycles⟩
  rw [placeholders_last, hcycles]
  rfl

theorem kept_last : Kept (lowerSchemas doc.schemas) (last doc) :=
  (kept_annotateSchemas _).later (later_last doc) fun _ _ hi => (finished_last doc).1 ▸ hi

/-- Where nothing is wrong with a document, each schema is done with the type it has in the end. -/
theorem sound_last (h : (derive doc).diagnostics.errors = []) : Sound (lowerSchemas doc.schemas) (last doc) := by
  obtain ⟨herrors, hclean, hcycles⟩ := clean_last h
  have hdone : ∀ (i : Nat) (name : String) (schema : Schema), (lowerSchemas doc.schemas)[i]? = some (name, schema) →
      ∃ node, (last doc).progress[i]? = some (.done node) := by
    intro i name schema hs
    rw [(finished_last doc).1]
    exact exists_done (List.getElem?_eq_some_iff.mp hs).1
  refine ⟨?_, ?_, hcycles⟩
  · intro i name schema hs
    obtain ⟨node, hp⟩ := hdone i name schema hs
    rw [hp, registry_typed kept_last hclean (length_last doc) hp hs]
  · intro i name schema hs st hst
    obtain ⟨node, hp⟩ := hdone i name schema hs
    obtain ⟨depth, t, _, _, hlater⟩ := kept_last i node name schema hp hs
    have hreported := errors_subset
      (fun target place s => (advances_enterSchema (lowerSchemas doc.schemas) depth target place s).1.toLater)
      schema.node name false (.schema name) t hst
    exact List.subset_nil.mp (herrors ▸ List.Subset.trans hreported hlater.errors)

/-! ## The derived interface -/

section

variable (h : (derive doc).diagnostics.errors = [])

include h

theorem getElem?_schemas_derive {i : Nat} {name : String} {schema : Schema}
    (hs : (lowered doc).schemas[i]? = some (name, schema)) :
    (derive doc).interface.schemas[i]? = some (name, { schema with
      node := typed (Keyed.keys (lowered doc).schemas) (last doc).types name false schema.node }) :=
  getElem?_registry hs ((sound_last h).done i name schema hs)

theorem schemas_derive :
    (derive doc).interface.schemas = (lowered doc).schemas.map fun (name, s) =>
      (name, { s with node := typed (Keyed.keys (lowered doc).schemas) (last doc).types name false s.node }) := by
  apply List.ext_getElem?
  intro i
  rw [List.getElem?_map]
  rcases hs : (lowered doc).schemas[i]? with _ | ⟨name, schema⟩
  · refine List.getElem?_eq_none ?_
    rw [interface_derive, length_registry (length_last doc)]
    exact List.getElem?_eq_none_iff.mp hs
  · exact getElem?_schemas_derive h hs

theorem keys_derive : Keyed.keys (derive doc).interface.schemas = Keyed.keys (lowered doc).schemas := by
  rw [schemas_derive h]
  simp [Keyed.keys, Function.comp_def]

/-- The schemas of the normal form are those of the document with their nodes annotated. -/
theorem get?_derive (name : String) :
    Keyed.get? (derive doc).interface.schemas name = (Keyed.get? (lowered doc).schemas name).map fun s =>
      { s with node := typed (Keyed.keys (lowered doc).schemas) (last doc).types name false s.node } := by
  rw [schemas_derive h, Keyed.get?_map fun (_, _) => rfl]

theorem functions_derive (side : Side) :
    (derive doc).interface.functions side =
        ((lowered doc).functions side).map (typedFunction (Keyed.keys (lowered doc).schemas) (last doc).types) ∧
      ∀ f ∈ (lowered doc).functions side, ∀ slot p, f.parameter? slot = some p →
        Reported (Keyed.keys (lowered doc).schemas) [] p.node := by
  obtain ⟨herrors, hclean, _⟩ := clean_last h
  have hlen := length_progress (lowerSchemas doc.schemas)
  have hexports := later_annotateFunctions (lowerSchemas doc.schemas) "exports" (lowerFunctions doc.exports)
    (annotateSchemas (lowerSchemas doc.schemas))
  have himports := later_annotateFunctions (lowerSchemas doc.schemas) "imports" (lowerFunctions doc.imports)
    (annotateFunctions (lowerSchemas doc.schemas) "exports" (lowerFunctions doc.exports)
      (annotateSchemas (lowerSchemas doc.schemas))).2
  rw [← herrors]
  cases side with
  | exported => exact annotateFunctions_typed hclean "exports" _ hlen himports
  | imported =>
    exact annotateFunctions_typed hclean "imports" _ (hexports.length.trans hlen) (Later.refl (last doc))

theorem root?_derive (root : Root) :
    (derive doc).interface.root? root =
      ((lowered doc).root? root).map (typedSite (Keyed.keys (lowered doc).schemas) (last doc).types) := by
  cases root with
  | schema index =>
    simp only [Interface.root?, schemas_derive h, List.getElem?_map, Option.map_map]
    rfl
  | parameter side index slot =>
    simp only [Interface.root?, (functions_derive h side).1, List.getElem?_map, Option.bind_map, Option.map_bind]
    congr 1
    funext f
    cases slot <;> simp only [Function.comp_apply, typedFunction, Function.parameter?, Option.map_map] <;> rfl

/-- Nothing is wrong at the nodes where annotation starts, nor at the schemas they enter. -/
theorem supported_root {root : Root} {s : Site} (hroot : (lowered doc).root? root = some s) :
    s.node.Bare ∧ Supported (Keyed.keys (lowered doc).schemas)
      (MeansType (lowered doc).schemas (last doc).types) s.node := by
  have hgood : ∀ (place : Pointer) (n : Node), ∀ st ∈ steps (Keyed.keys (lowered doc).schemas) place n,
      ∀ edge, st = .enter edge → MeansType (lowered doc).schemas (last doc).types edge.target := by
    rintro place n st hst edge rfl
    exact (sound_last h).meansType (length_keys (lowered doc).schemas ▸ target_lt n hst)
  cases root with
  | schema index =>
    obtain ⟨⟨name, schema⟩, hs, rfl⟩ := Option.map_eq_some_iff.mp hroot
    refine ⟨bare_lowerSchemas doc _ (List.mem_of_getElem? hs), .schema name, ?_⟩
    intro st hst
    exact ⟨(sound_last h).clean index name schema hs st hst, hgood _ schema.node st hst⟩
  | parameter side index slot =>
    obtain ⟨f, hf, hroot⟩ := Option.bind_eq_some_iff.mp hroot
    obtain ⟨p, hp, rfl⟩ := Option.map_eq_some_iff.mp hroot
    have hmem := List.mem_of_getElem? hf
    obtain ⟨place, hreported⟩ := (functions_derive h side).2 f hmem slot p hp
    refine ⟨bare_of_mem_functions hmem hp, place, fun st hst => ⟨?_, hgood place p.node st hst⟩⟩
    exact List.subset_nil.mp (hreported st hst)

/-- Annotation leaves every site at its place. -/
theorem site?_derive (root : Root) (ways : List Way) :
    (derive doc).interface.site? root ways =
      ((lowered doc).site? root ways).map (typedSite (Keyed.keys (lowered doc).schemas) (last doc).types) := by
  rw [Interface.site?, Interface.site?, root?_derive h]
  cases (lowered doc).root? root with
  | none => rfl
  | some s => exact follow?_typedSite _ _ s ways

end

end Normalization

end BindingSchema
