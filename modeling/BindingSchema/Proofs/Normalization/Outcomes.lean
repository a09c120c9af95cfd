import BindingSchema.Proofs.Document.Texts
import BindingSchema.Proofs.Normalization.Reports
import BindingSchema.Proofs.Structure.Grammar
import BindingSchema.Validation

/-!
What comes out of any value and any text.

Whatever is said of a document is a problem at a place, and its category follows from where it was
found: the check of the structure and annotation find structural problems only, the search of the graph
circles only, and names give notices (`raised_readDocument`, `raised_derive`, `notices_readDocument`). A
document is turned down only with an error: one that cannot be read has one from the walk or from the
reading itself (`errors_readDocument_ne_nil`). So a validation is valid exactly if it has no errors, and
exactly if it has an interface (`outcome_wellFormed`).
-/

namespace BindingSchema

open Annotation Decode

/-! ## Diagnostics -/

theorem Pointer.text_eq (p : Pointer) : p.text = "#" ∨ ∃ rest, p.text = "#/" ++ rest := by
  obtain ⟨segments⟩ := p
  cases segments with
  | nil => exact Or.inl rfl
  | cons segment segments =>
    refine Or.inr ⟨"/".intercalate (segment :: segments), ?_⟩
    simp [Pointer.text]

namespace Diagnostic

/-- The place is the root of the document or something below it. -/
def IsLocated (d : Diagnostic) : Prop := d.path = "#" ∨ ∃ rest, d.path = "#/" ++ rest

/-- Something for which a document is turned down. -/
structure IsError (d : Diagnostic) : Prop where
  category : d.category = .structural ∨ d.category = .cycle
  located : d.IsLocated

/-- Something that is said of a document without its being turned down. -/
structure IsNotice (d : Diagnostic) : Prop where
  category : d.category = .keyword ∨ d.category = .draftVersion
  located : d.IsLocated

/-- A problem of the category, at some place. -/
def Raised (category : Category) (d : Diagnostic) : Prop :=
  ∃ (p : Problem) (place : Pointer), p.category = category ∧ p.located place = d

variable {category : Category} {d : Diagnostic}

theorem Raised.category_eq (h : Raised category d) : d.category = category := by
  obtain ⟨p, place, hp, rfl⟩ := h
  exact hp

theorem Raised.isLocated (h : Raised category d) : d.IsLocated := by
  obtain ⟨p, place, _, rfl⟩ := h
  exact place.text_eq

theorem Raised.isError (h : Raised category d) (hcategory : category = .structural ∨ category = .cycle) : d.IsError :=
  ⟨h.category_eq ▸ hcategory, h.isLocated⟩

theorem Raised.isNotice (h : Raised category d) (hcategory : category = .keyword ∨ category = .draftVersion) :
    d.IsNotice :=
  ⟨h.category_eq ▸ hcategory, h.isLocated⟩

/-- All of them are problems of the category. -/
def AllRaised (category : Category) (ds : List Diagnostic) : Prop := ∀ d ∈ ds, Raised category d

namespace AllRaised

variable {ds es : List Diagnostic}

theorem nil : AllRaised category [] := List.forall_mem_nil _

theorem single (p : Problem) (place : Pointer) : AllRaised p.category [p.located place] :=
  List.forall_mem_singleton.mpr ⟨p, place, rfl, rfl⟩

/-- What is said where something does not hold. -/
theorem ifNot (c : Prop) [Decidable c] (p : Problem) (place : Pointer) :
    AllRaised p.category (if c then [] else [p.located place]) := by
  split
  · exact nil
  · exact single p place

theorem append (hd : AllRaised category ds) (he : AllRaised category es) : AllRaised category (ds ++ es) :=
  List.forall_mem_append.mpr ⟨hd, he⟩

theorem flatMap {α : Type} {xs : List α} {f : α → List Diagnostic} (h : ∀ x, AllRaised category (f x)) :
    AllRaised category (xs.flatMap f) :=
  List.forall_mem_flatMap.mpr fun x _ => h x

end AllRaised

end Diagnostic

open Diagnostic

/-! ## The structure -/

namespace Structure

section

variable (fields : List (String × Value)) (place : Pointer)

theorem raised_checkName (name : String) : AllRaised .structural (checkName name place) := by
  exact .ifNot _ _ _

theorem raised_checkType : AllRaised .structural (checkType fields place) := by
  unfold checkType
  split
  · exact .nil
  · exact .ifNot _ _ _

theorem raised_checkFormat : AllRaised .structural (checkFormat fields place) := by
  unfold checkFormat
  split
  · exact .nil
  · exact .ifNot _ _ _

theorem raised_checkRequired (properties : List (String × Value)) :
    AllRaised .structural (checkRequired fields properties place) := by
  unfold checkRequired
  split
  · refine .flatMap fun found => ?_
    split
    · exact .ifNot _ _ _
    · exact .single _ _
  · exact .nil

theorem raised_checkProperties : AllRaised .structural (checkProperties fields place) := by
  unfold checkProperties
  split
  · exact .nil
  · exact .nil
  · refine .append (.append ?_ (raised_checkRequired fields place _)) (.flatMap fun name => raised_checkName _ name)
    split
    · exact .single _ _
    · exact .nil
  · exact .single _ _

theorem raised_checkMapValues : AllRaised .structural (checkMapValues fields place) := by
  unfold checkMapValues
  split
  · exact .nil
  · exact .nil
  · exact .nil
  · exact .single _ _

theorem raised_checkEnum : AllRaised .structural (checkEnum fields place) := by
  unfold checkEnum
  split
  · exact .nil
  · refine .flatMap fun item => ?_
    split
    · exact raised_checkName _ _
    · exact .single _ _
  · exact .single _ _

theorem raised_checkReference (schemas : List String) :
    AllRaised .structural (checkReference schemas fields place) := by
  unfold checkReference
  split
  · exact .nil
  · split
    · exact .ifNot _ _ _
    · exact .single _ _
  · exact .single _ _

theorem raised_checkDescription (schemas : List String) :
    AllRaised .structural (checkDescription schemas fields place) :=
  (((((raised_checkType fields place).append (raised_checkFormat fields place)).append
    (raised_checkProperties fields place)).append (raised_checkMapValues fields place)).append
      (raised_checkEnum fields place)).append (raised_checkReference fields place schemas)

end

theorem raised_walk (schemas : List String) (v : Value) : ∀ (place : Pointer) (described : Bool),
    AllRaised .structural (walk schemas place described v) := by
  induction v using Value.induct with
  | object members ih =>
    intro place described
    rw [walk, walkMembers_eq_flatMap]
    refine .append ?_ (List.forall_mem_flatMap.mpr fun m hm => ih m hm _ _)
    split
    · exact raised_checkDescription members place schemas
    · exact .nil
  | other v hv =>
    intro place described
    rw [walk_of_not_isObject schemas place described hv]
    exact .nil

theorem raised_checkContentType (place : Pointer) (entry : Value) (slot : String) :
    AllRaised .structural (checkContentType place entry slot) := by
  unfold checkContentType
  split
  · exact .nil
  · exact .nil
  · exact .ifNot _ _ _

theorem raised_checkFunctions (doc : Value) (kind : String) : AllRaised .structural (checkFunctions doc kind) := by
  unfold checkFunctions
  split
  · refine .flatMap fun (name, entry) => ?_
    exact ((raised_checkName _ name).append (raised_checkContentType _ entry "input")).append
      (raised_checkContentType _ entry "output")
  · exact .nil

theorem raised_check (doc : Value) : AllRaised .structural (check doc) := by
  refine .append (.append (.append (raised_checkFunctions doc "exports") (raised_checkFunctions doc "imports")) ?_)
    (raised_walk _ doc _ _)
  exact .flatMap fun name => raised_checkName _ name

end Structure

theorem Reading.raised_of {errors : List Diagnostic} (h : AllRaised .structural errors)
    (document : Decode.Result Document) (warnings : List Diagnostic) :
    AllRaised .structural (Reading.of document errors warnings).errors := by
  cases document with
  | ok document => exact h
  | error e =>
    show AllRaised .structural (if errors.isEmpty then _ else errors)
    split
    · exact .single _ _
    · exact h

/-- A document that does not fit its types has an error. -/
theorem Reading.errors_of_ne_nil {document : Decode.Result Document} {errors warnings : List Diagnostic}
    (h : (Reading.of document errors warnings).document = none) :
    (Reading.of document errors warnings).errors ≠ [] := by
  cases document with
  | ok document => cases h
  | error e =>
    show (if errors.isEmpty then _ else errors) ≠ []
    split
    · exact List.cons_ne_nil _ _
    · rename_i hne
      exact fun hnil => hne (List.isEmpty_iff.mpr hnil)

section

variable (raw : Value)

theorem raised_readDocument : AllRaised .structural (readDocument raw).errors := by
  unfold readDocument
  split
  · exact .single _ _
  · refine Reading.raised_of ?_ _ _
    split
    · exact .nil
    · exact Structure.raised_check raw

theorem notices_readDocument : AllRaised .draftVersion (readDocument raw).warnings := by
  cases hversion : Document.statedVersion? raw with
  | none =>
    simp only [readDocument, hversion]
    exact .nil
  | some version =>
    rw [Normalization.warnings_readDocument hversion]
    split
    · exact .single _ _
    · exact .nil

variable {raw}

/-- A document that cannot be read has an error. -/
theorem errors_readDocument_ne_nil (h : (readDocument raw).document = none) : (readDocument raw).errors ≠ [] := by
  unfold readDocument at h ⊢
  split
  · exact List.cons_ne_nil _ _
  · rename_i version hversion
    simp only [hversion] at h
    exact Reading.errors_of_ne_nil h

/-- What is parsed of a document: nothing, if the reading found errors, and else what its normalization
comes to. -/
theorem parse_cases (raw : Value) :
    ((readDocument raw).errors ≠ [] ∧ parse raw = .error ⟨(readDocument raw).errors, (readDocument raw).warnings⟩) ∨
      ∃ document, readDocument raw = ⟨some document, [], (readDocument raw).warnings⟩ ∧
        parse raw = match normalize document with
          | .ok n => .ok { n with warnings := (readDocument raw).warnings ++ n.warnings }
          | .error r => .error { r with warnings := (readDocument raw).warnings ++ r.warnings } := by
  have hnone : (readDocument raw).document = none → (readDocument raw).errors ≠ [] := errors_readDocument_ne_nil
  unfold parse
  generalize readDocument raw = reading at hnone ⊢
  obtain ⟨document, errors, warnings⟩ := reading
  cases errors with
  | cons e errors =>
    refine Or.inl ⟨List.cons_ne_nil _ _, ?_⟩
    cases document <;> rfl
  | nil =>
    cases document with
    | none => exact absurd rfl (hnone rfl)
    | some document => exact Or.inr ⟨document, rfl, rfl⟩

end

/-! ## The normal form -/

namespace Normalization

theorem raised_requiredErrors (schemas : Keyed Definition) : AllRaised .structural (requiredErrors schemas) :=
  .flatMap fun _ => .flatMap fun _ => .ifNot _ _ _

theorem raised_check (ds : List Declaration) :
    AllRaised .structural (Declaration.check ds).errors ∧ AllRaised .keyword (Declaration.check ds).warnings := by
  rw [Declaration.check_eq]
  constructor
  · intro e he
    obtain ⟨d, _, hd⟩ := List.mem_filterMap.mp he
    simp only [Declaration.error?, Option.ite_none_left_eq_some, Option.some.injEq] at hd
    exact ⟨_, _, rfl, hd.2⟩
  · intro e he
    obtain ⟨d, _, hd⟩ := List.mem_filterMap.mp he
    unfold Declaration.warning? at hd
    split at hd
    · split at hd
      · cases hd
      · exact ⟨_, _, rfl, Option.some.inj hd⟩
    · cases hd

theorem raised_problems (names : List String) (place : Pointer) (n : Node) :
    AllRaised .structural (n.problems names place) := by
  unfold Node.problems
  split
  · split
    · exact .single _ _
    · split
      · exact .nil
      · exact .single _ _
  · refine .append (fun d hd => ?_) (fun d hd => ?_)
    · obtain ⟨_, _, rfl⟩ := List.mem_map.mp hd
      exact ⟨_, _, rfl, rfl⟩
    · obtain ⟨_, _, rfl⟩ := List.mem_map.mp hd
      exact ⟨_, _, rfl, rfl⟩
  · exact .nil

variable (doc : FunctionDocument)

theorem raised_last : AllRaised .structural (last doc).errors := by
  intro d hd
  obtain ⟨e, _, hd⟩ := List.mem_flatMap.mp ((perm_errors_last doc).mem_iff.mp hd)
  exact raised_problems _ _ _ d hd

theorem raised_derive : ∀ d ∈ (derive doc).diagnostics.errors, Raised .structural d ∨ Raised .cycle d := by
  rw [errors_derive_linked]
  intro d hd
  rcases List.mem_append.mp hd with hd | hd
  · exact Or.inl ((((raised_requiredErrors doc.schemas).append (raised_check _).1).append (raised_last doc)) d hd)
  · obtain ⟨c, _, rfl⟩ := List.mem_map.mp hd
    exact Or.inr ⟨c.problem, c.place, rfl, rfl⟩

end Normalization

/-! ## Outcomes -/

/-- What is said of a document that is turned down. -/
structure Rejection.WellFormed (r : Rejection) : Prop where
  errors_ne_nil : r.errors ≠ []
  isError : ∀ d ∈ r.errors, d.IsError
  isNotice : ∀ d ∈ r.warnings, d.IsNotice

/-- What comes out of a document that was read: it is accepted with notices, or turned down with errors.
The search for circles is not begun if the reading found something wrong. -/
def Reading.WellFormed (reading : Reading) : Except Rejection Normalized → Prop
  | .ok n => ∀ d ∈ n.warnings, d.IsNotice
  | .error r => r.WellFormed ∧ ((∃ d ∈ r.errors, d.category = .cycle) → reading.errors = [])

theorem normalize_wellFormed (document : Document) :
    match normalize document with
    | .ok n => ∀ d ∈ n.warnings, d.IsNotice
    | .error r => r.WellFormed := by
  cases document with
  | names doc => exact List.forall_mem_nil _
  | functions doc =>
    have hwarnings : ∀ d ∈ (Normalization.derive doc).diagnostics.warnings, d.IsNotice := fun d hd =>
      ((Normalization.raised_check (Normalization.declarations doc)).2 d hd).isNotice (Or.inl rfl)
    rw [Normalization.normalize_functions]
    by_cases herrors : (Normalization.derive doc).diagnostics.errors = []
    · rw [if_pos herrors]
      exact hwarnings
    · rw [if_neg herrors]
      refine ⟨herrors, fun d hd => ?_, hwarnings⟩
      rcases Normalization.raised_derive doc d hd with hd | hd
      · exact hd.isError (Or.inl rfl)
      · exact hd.isError (Or.inr rfl)

theorem parse_wellFormed (raw : Value) : (readDocument raw).WellFormed (parse raw) := by
  have hnotices : ∀ d ∈ (readDocument raw).warnings, d.IsNotice := fun d hd =>
    (notices_readDocument raw d hd).isNotice (Or.inr rfl)
  rcases parse_cases raw with ⟨hne, hparse⟩ | ⟨document, hread, hparse⟩
  · rw [hparse]
    refine ⟨⟨hne, fun d hd => (raised_readDocument raw d hd).isError (Or.inl rfl), hnotices⟩, ?_⟩
    rintro ⟨d, hd, hcycle⟩
    cases hcycle.symm.trans (raised_readDocument raw d hd).category_eq
  · have hclean : (readDocument raw).errors = [] := by rw [hread]
    have hnormalize := normalize_wellFormed document
    rw [hparse]
    cases hn : normalize document with
    | ok n =>
      rw [hn] at hnormalize
      exact List.forall_mem_append.mpr ⟨hnotices, hnormalize⟩
    | error r =>
      rw [hn] at hnormalize
      exact ⟨⟨hnormalize.errors_ne_nil, hnormalize.isError, List.forall_mem_append.mpr ⟨hnotices, hnormalize.isNotice⟩⟩,
        fun _ => hclean⟩

/-! ## Validations -/

theorem validate_ok {text : String} {format : TextFormat} {raw : Value} {n : Normalized}
    (hdecode : format.decode text = .ok raw) (hparse : parse raw = .ok n) :
    validate text format = ⟨true, [], n.warnings, some n.interface⟩ := by
  simp only [validate, parseText, hdecode, hparse]

/-- A validation is of an accepted document, or it has errors and no interface. -/
theorem validate_cases (text : String) (format : TextFormat) :
    (∃ raw n, format.decode text = .ok raw ∧ parse raw = .ok n ∧
      validate text format = ⟨true, [], n.warnings, some n.interface⟩) ∨
    (∀ raw n, format.decode text = .ok raw → parse raw ≠ .ok n) ∧
      (validate text format).valid = false ∧ (validate text format).errors ≠ [] ∧
      (validate text format).interface = none := by
  cases hdecode : format.decode text with
  | error e =>
    refine Or.inr ⟨nofun, ?_⟩
    simp [validate, parseText, hdecode]
  | ok raw =>
    cases hparse : parse raw with
    | ok n => exact Or.inl ⟨raw, n, rfl, hparse, validate_ok hdecode hparse⟩
    | error r =>
      refine Or.inr ⟨fun raw' n hraw' => ?_, ?_⟩
      · cases hraw'
        rw [hparse]
        nofun
      · have hwell := parse_wellFormed raw
        rw [hparse] at hwell
        simpa [validate, parseText, hdecode, hparse] using hwell.1.errors_ne_nil

/-- The imports of a document are those that it writes. -/
theorem FunctionDocument.imports_ne_nil_iff {raw : Value} {doc : FunctionDocument} (hraw : raw.Unrepeated)
    (hobject : ∃ members, raw = .object members) (hread : FunctionDocument.read raw = .ok doc) :
    doc.imports ≠ [] ↔ ∃ entry entries, raw.get? "imports" = some (.object (entry :: entries)) := by
  obtain ⟨members, rfl⟩ := hobject
  have hgiven : Given members "imports" (fun v => named {} FunctionDefinition.read v = .ok doc.imports)
      (doc.imports = []) := (parts_of_read (Value.unrepeated_object.mp hraw).1 hread).functions .imported
  unfold Given at hgiven
  rw [Value.get?]
  cases hget : Keyed.get? members "imports" with
  | none => simpa [hget] using hgiven
  | some v =>
    simp only [hget] at hgiven
    rcases keys_of_named hgiven with ⟨rfl, hnil⟩ | ⟨entries, rfl, hkeys⟩
    · simpa using hnil
    · -- there are as many imports as entries
      have hlength : doc.imports.length = entries.length := by simpa [Keyed.keys] using congrArg List.length hkeys
      rw [← List.length_pos_iff, hlength, List.length_pos_iff]
      cases entries <;> simp

theorem Normalization.hasImports_derive (doc : FunctionDocument) :
    (derive doc).interface.hasImports = true ↔ doc.imports ≠ [] := by
  have hnames : (derive doc).interface.imports.map (·.name) = Keyed.keys doc.imports :=
    names_functions_derive doc .imported
  have hlength : (derive doc).interface.imports.length = doc.imports.length := by
    simpa [Keyed.keys] using congrArg List.length hnames
  rw [Interface.hasImports, ← List.length_pos_iff, ← hlength, List.length_pos_iff]
  simp

/-- A document of version 0 is read as names. -/
theorem exists_names_of_readDocument {raw : Value} {document : Document} {errors warnings : List Diagnostic}
    (hversion : Document.statedVersion? raw = some .v0)
    (h : readDocument raw = ⟨some document, errors, warnings⟩) : ∃ doc, document = .names doc := by
  simp only [readDocument, hversion, Document.read] at h
  cases hnames : NameDocument.read raw with
  | error e =>
    rw [hnames] at h
    cases h
  | ok doc =>
    rw [hnames] at h
    cases h
    exact ⟨doc, rfl⟩

/-- An accepted document of version 1 has the imports that it writes, and one of version 0 has none. -/
theorem hasImports_of_parse {raw : Value} {n : Normalized} (hraw : raw.Unrepeated) (h : parse raw = .ok n) :
    n.interface.hasImports = true ↔ ∃ version, Document.statedVersion? raw = some version ∧ version ≠ .v0 ∧
      ∃ entry entries, raw.get? "imports" = some (.object (entry :: entries)) := by
  obtain ⟨document, warnings, m, hread, hm, rfl⟩ := parse_eq_ok.mp h
  cases hversion : Document.statedVersion? raw with
  | none =>
    simp only [readDocument, hversion] at hread
    cases hread
  | some version =>
    by_cases hv0 : version = .v0
    · subst hv0
      obtain ⟨doc, rfl⟩ := exists_names_of_readDocument hversion hread
      cases hm
      simp [Interface.hasImports, Normalization.ofNames]
    · obtain ⟨-, doc, hdoc, -, hn⟩ := (Normalization.parse_eq_ok_iff hversion hv0).mp h
      rw [hn, Normalization.hasImports_derive,
        FunctionDocument.imports_ne_nil_iff hraw (exists_object_of_statedVersion? hversion) hdoc]
      simp [hv0]

/-- Whatever a value is, it is accepted with notices or turned down with errors, each of which says where
it was found. So for any text a validation is valid exactly if it has no errors, and exactly if it has an
interface, and there are imports exactly if the text is a document of version 1 that is accepted and writes
some. -/
theorem outcome_wellFormed :
    (∀ raw, (readDocument raw).WellFormed (parse raw)) ∧
    ∀ (text : String) (format : TextFormat),
      ((validate text format).valid = true ↔ (validate text format).errors = []) ∧
      ((validate text format).valid = true ↔ (validate text format).interface.isSome = true) ∧
      (hasImports text format = true ↔ ∃ raw version n entry entries, format.decode text = .ok raw ∧
        Document.statedVersion? raw = some version ∧ (version = .v1 ∨ version = .v1Draft) ∧ parse raw = .ok n ∧
        raw.get? "imports" = some (.object (entry :: entries))) := by
  refine ⟨parse_wellFormed, fun text format => ?_⟩
  have hne_v0 : ∀ version : Version, version = .v1 ∨ version = .v1Draft ↔ version ≠ .v0 := by
    intro version
    cases version <;> simp
  rcases validate_cases text format with
    ⟨raw, n, hdecode, hparse, hv⟩ | ⟨hnot, hvalid, herrors, hinterface⟩
  · have himports := hasImports_of_parse (TextFormat.unrepeated_decode hdecode) hparse
    refine ⟨by simp [hv], by simp [hv], ?_⟩
    have hhas : hasImports text format = n.interface.hasImports := by simp [hasImports, hv]
    rw [hhas, himports]
    constructor
    · rintro ⟨version, hversion, hne, entry, entries, hget⟩
      exact ⟨raw, version, n, entry, entries, hdecode, hversion, (hne_v0 version).mpr hne, hparse, hget⟩
    · rintro ⟨raw', version, n', entry, entries, hdecode', hversion, hv1, hparse', hget⟩
      cases hdecode.symm.trans hdecode'
      exact ⟨version, hversion, (hne_v0 version).mp hv1, entry, entries, hget⟩
  · refine ⟨by simp [hvalid, herrors], by simp [hvalid, hinterface], ?_⟩
    constructor
    · intro h
      simp [hasImports, hvalid] at h
    · rintro ⟨raw, version, n, entry, entries, hdecode, hversion, hv1, hparse, hget⟩
      exact absurd hparse (hnot raw n hdecode)

end BindingSchema
