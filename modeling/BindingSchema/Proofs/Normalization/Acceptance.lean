import BindingSchema.Proofs.Annotation.Problems
import BindingSchema.Proofs.Document.Names
import BindingSchema.Proofs.Normalization.Derivation

/-!
Which documents are accepted.

A document is accepted if what is required is defined, all names are identifiers, all sites are
plain and no references lead in a circle (`errors_derive_eq_nil`). Each of the four is found out by
itself, and the first three are about one schema or function at a time.
-/

namespace BindingSchema

open Annotation

/-- A document is accepted if its reading found nothing wrong and neither did its normalization. -/
theorem parse_eq_ok {raw : Value} {n : Normalized} :
    parse raw = .ok n ↔ ∃ document warnings m, readDocument raw = ⟨some document, [], warnings⟩ ∧
      normalize document = .ok m ∧ n = { m with warnings := warnings ++ m.warnings } := by
  unfold parse
  obtain ⟨document, errors, warnings⟩ := readDocument raw
  constructor
  · intro h
    cases document with
    | none => cases h
    | some document =>
      cases errors with
      | cons _ _ => cases h
      | nil =>
        cases hm : normalize document with
        | error e => simp only [hm] at h; cases h
        | ok m =>
          simp only [hm, Except.ok.injEq] at h
          exact ⟨document, warnings, m, rfl, hm, h.symm⟩
  · rintro ⟨document, _, m, ⟨⟩, hm, rfl⟩
    simp only [hm]

/-- A document that states its version is written as an object. -/
theorem exists_object_of_statedVersion? {raw : Value} {version : Version}
    (h : Document.statedVersion? raw = some version) : ∃ members, raw = .object members := by
  cases raw with
  | object members => exact ⟨members, rfl⟩
  | _ => cases h

/-- Reading a document of version 1 finds nothing wrong if neither the check of its structure nor its
types do. -/
theorem readDocument_eq {raw : Value} {version : Version} (hversion : Document.statedVersion? raw = some version)
    (hne : version ≠ .v0) {document : Document} {warnings : List Diagnostic} :
    readDocument raw = ⟨some document, [], warnings⟩ ↔
      Structure.check raw = [] ∧ (∃ doc, FunctionDocument.read raw = .ok doc ∧ .functions doc = document) ∧
        (readDocument raw).warnings = warnings := by
  have hread : Document.read version raw = (FunctionDocument.read raw).map .functions := by
    cases version with
    | v0 => exact absurd rfl hne
    | _ => rfl
  simp only [readDocument, hversion, if_neg hne, hread]
  cases FunctionDocument.read raw with
  | error e =>
    refine ⟨fun h => (by cases h), fun h => ?_⟩
    obtain ⟨_, ⟨doc, hdoc, _⟩, _⟩ := h
    cases hdoc
  | ok doc => simp [Except.map, Reading.of, and_left_comm]

namespace Normalization

variable {doc : FunctionDocument}

section

variable {raw : Value} {version : Version} (hversion : Document.statedVersion? raw = some version)

include hversion

theorem warnings_readDocument : (readDocument raw).warnings =
    if version.isDraft then [(Problem.draftVersion version.text).located ⟨["version"]⟩] else [] := by
  simp only [readDocument, hversion]
  cases Document.read version raw <;> rfl

/-- What a document of version 1 is parsed into, and when. -/
theorem parse_eq_ok_iff (hne : version ≠ .v0) {n : Normalized} :
    parse raw = .ok n ↔ Structure.check raw = [] ∧ ∃ doc, FunctionDocument.read raw = .ok doc ∧
      (derive doc).diagnostics.errors = [] ∧
      n = ⟨(derive doc).interface, (readDocument raw).warnings ++ (derive doc).diagnostics.warnings⟩ := by
  rw [parse_eq_ok]
  constructor
  · rintro ⟨document, warnings, m, hread, hm, rfl⟩
    obtain ⟨hcheck, ⟨doc, hdoc, rfl⟩, rfl⟩ := (readDocument_eq hversion hne).mp hread
    rw [normalize_functions] at hm
    split at hm
    · rename_i herrors
      cases hm
      exact ⟨hcheck, doc, hdoc, herrors, rfl⟩
    · cases hm
  · rintro ⟨hcheck, doc, hdoc, herrors, rfl⟩
    refine ⟨.functions doc, _, ⟨(derive doc).interface, (derive doc).diagnostics.warnings⟩,
      (readDocument_eq hversion hne).mpr ⟨hcheck, ⟨doc, hdoc, rfl⟩, rfl⟩, ?_, rfl⟩
    rw [normalize_functions, if_pos herrors]

end

/-- The names that a document declares. -/
def declarations (doc : FunctionDocument) : List Declaration :=
  Declaration.all (lowered doc).exports (lowered doc).imports (lowered doc).schemas

theorem perm_declarations (doc : FunctionDocument) : (declarations doc).Perm doc.names := Declaration.perm_names doc

theorem errors_check {ds : List Declaration} :
    (Declaration.check ds).errors = [] ↔ ∀ d ∈ ds, Identifier.isValid d.name = true := by
  simp [Declaration.check_eq, Declaration.error?]

theorem requiredErrors_eq_nil {schemas : Keyed Definition} :
    requiredErrors schemas = [] ↔
      ∀ e ∈ schemas, ∀ required ∈ e.2.required, (Keyed.get? e.2.properties required).isSome = true := by
  simp [requiredErrors, Option.isSome_iff_ne_none]

theorem errors_derive_linked (doc : FunctionDocument) :
    (derive doc).diagnostics.errors =
      requiredErrors doc.schemas ++ (Declaration.check (declarations doc)).errors ++ (last doc).errors ++
        (linked (lowered doc).schemas).cycles.map (·.diagnostic) := by
  rw [errors_derive, ofSchemas_derive]
  rfl

/-- Where every site is plain, annotation reports nothing. -/
theorem errors_last (h : ∀ root ways t, (lowered doc).site? root ways = some t →
    t.Plain (Keyed.keys (lowered doc).schemas)) : (last doc).errors = [] := by
  have hroot : ∀ root s, (lowered doc).root? root = some s → ∀ place,
      ∀ st ∈ steps (Keyed.keys (lowered doc).schemas) place s.node, st.errors = [] := by
    intro root s hs place
    refine (steps_iff_plain s.node s.name s.isMember place).mpr fun ways t ht => h root ways t ?_
    rw [Interface.site?, hs]
    exact ht
  have hschemas : ∀ (i : Nat) (name : String) (schema : Schema), (lowerSchemas doc.schemas)[i]? = some (name, schema) →
      ∀ place, ∀ st ∈ steps (Keyed.keys (lowerSchemas doc.schemas)) place schema.node, st.errors = [] := by
    intro i name schema hi
    exact hroot (.schema i) ⟨name, false, schema.node⟩ (by simp only [Interface.root?, lowered, hi, Option.map_some])
  have hfunctions : ∀ side, ∀ f ∈ (lowered doc).functions side, ∀ slot p, f.parameter? slot = some p →
      ∀ place, ∀ st ∈ steps (Keyed.keys (lowerSchemas doc.schemas)) place p.node, st.errors = [] := by
    intro side f hf slot p hp
    obtain ⟨index, hindex⟩ := List.mem_iff_getElem?.mp hf
    exact hroot (.parameter side index slot) ⟨f.name, false, p.node⟩ (by simp [Interface.root?, hindex, hp])
  refine errors_annotateFunctions hschemas "imports" (hfunctions .imported) ?_
  exact errors_annotateFunctions hschemas "exports" (hfunctions .exported) (errors_annotateSchemas hschemas)

/-- What it takes for nothing to be wrong with a document. -/
structure Acceptable (doc : FunctionDocument) : Prop where
  required : ∀ e ∈ doc.schemas, ∀ required ∈ e.2.required, (Keyed.get? e.2.properties required).isSome = true
  names : ∀ d ∈ declarations doc, Identifier.isValid d.name = true
  sites : ∀ root ways t, (lowered doc).site? root ways = some t → t.Plain (Keyed.keys (lowered doc).schemas)
  acyclic : (linked (lowered doc).schemas).Acyclic

theorem errors_derive_eq_nil : (derive doc).diagnostics.errors = [] ↔ Acceptable doc := by
  constructor
  · intro h
    have hparts := h
    rw [errors_derive_linked] at hparts
    simp only [List.append_eq_nil_iff, List.map_eq_nil_iff] at hparts
    obtain ⟨⟨⟨hrequired, hnames⟩, _⟩, hcycles⟩ := hparts
    refine ⟨requiredErrors_eq_nil.mp hrequired, errors_check.mp hnames, ?_, ReferenceGraph.cycles_eq_nil_iff.mp hcycles⟩
    intro root ways t ht
    obtain ⟨s, hs, ht⟩ := Option.bind_eq_some_iff.mp ht
    obtain ⟨_, place, hsteps⟩ := supported_root h hs
    exact (steps_iff_plain s.node s.name s.isMember place).mp (fun st hst => (hsteps st hst).1) ways t ht
  · intro h
    rw [errors_derive_linked, requiredErrors_eq_nil.mpr h.required, errors_check.mpr h.names, errors_last h.sites,
      ReferenceGraph.cycles_eq_nil_iff.mpr h.acyclic]
    rfl

end Normalization

end BindingSchema
