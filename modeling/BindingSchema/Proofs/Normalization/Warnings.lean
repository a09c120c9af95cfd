import BindingSchema.Proofs.Document.Order
import BindingSchema.Proofs.Normalization.Outcomes

/-!
The warnings of a document.

They do not depend on whether the document is accepted. A draft is noticed first, and after that each
declared name that some language reserves, in the order in which the names are declared
(`warnings_derive`). A language reserves a name if it is one of its words in whatever case
(`Language.reserves_iff`). Writing the draft of the version for the version itself adds the notice and
leaves the rest of the outcome as it was (`parse_drafted`).
-/

namespace BindingSchema

open Decode

/-! ## Reserved words -/

namespace Language

/-- The tables of reserved words are in lower case. -/
theorem all_words_lower (language : Language) :
    (language.words.all fun word => word.toList.all fun c => c.toLower == c) = true := by
  cases language <;> decide +kernel

theorem toList_toLower (name : String) : name.toLower.toList = name.toList.map Char.toLower :=
  String.toList_map

theorem toLower_words {language : Language} {word : String} (h : word ∈ language.words) : word.toLower = word := by
  have hchar : ∀ c ∈ word.toList, c.toLower = c := by
    intro c hc
    exact eq_of_beq (List.all_eq_true.mp (List.all_eq_true.mp language.all_words_lower word h) c hc)
  rw [← String.toList_inj, toList_toLower, List.map_congr_left hchar, List.map_id']

/-- Only the Kelvin sign is lowered in a way of its own, and no identifier has it. -/
theorem lower_of_legal {name : String} (h : Identifier.Legal name) : lower name = name.toLower := by
  have hchar : ∀ c ∈ name.toList, lowerChar c = c.toLower := by
    obtain ⟨first, cs, hname, hfirst, hcs⟩ := h
    intro c hc
    have hlegal : Identifier.IsStart c ∨ ('0' ≤ c ∧ c ≤ '9') := by
      rcases List.mem_cons.mp (hname ▸ hc) with rfl | hc
      · exact Or.inl hfirst
      · exact hcs c hc
    refine if_neg ?_
    rintro rfl
    revert hlegal
    unfold Identifier.IsStart
    decide
  rw [lower, List.map_congr_left hchar, ← String.toList_inj, String.toList_ofList, toList_toLower]

/-- An identifier is reserved if it is a word of the language in whatever case. -/
theorem reserves_iff {language : Language} {name : String} (h : Identifier.Legal name) :
    language.reserves name = true ↔ ∃ word ∈ language.words, word.toLower = name.toLower := by
  rw [reserves, List.contains_iff_mem, lower_of_legal h]
  constructor
  · intro hmem
    exact ⟨name.toLower, hmem, toLower_words hmem⟩
  · rintro ⟨word, hmem, hword⟩
    rwa [← hword, toLower_words hmem]

end Language

/-! ## Names in the order of their declaration -/

namespace Definition

mutual

/-- The properties below a definition, each before those below it, then those of its items and those of its
map values. -/
def listing (place : Pointer) : Definition → List Declaration
  | ⟨_, _, _, _, items, additionalProperties, properties, _, _, _⟩ =>
    listingOfProperties place properties ++ listingOfOptional (place.push "items") items ++
      listingOfOptional (place.push "additionalProperties") additionalProperties

def listingOfOptional (place : Pointer) : Option Definition → List Declaration
  | none => []
  | some d => listing place d

def listingOfProperties (place : Pointer) : List (String × Definition) → List Declaration
  | [] => []
  | (name, d) :: rest =>
    ⟨name, place.append ["properties", name]⟩ :: listing (place.append ["properties", name]) d ++
      listingOfProperties place rest

end

theorem listingOfOptional_eq (place : Pointer) (d : Option Definition) :
    listingOfOptional place d = d.toList.flatMap (listing place) := by
  cases d <;> simp [listingOfOptional]

theorem listingOfProperties_eq (place : Pointer) (ps : List (String × Definition)) :
    listingOfProperties place ps = ps.flatMap fun (name, d) =>
      ⟨name, place.append ["properties", name]⟩ :: d.listing (place.append ["properties", name]) := by
  induction ps with
  | nil => rfl
  | cons e ps ih => rw [listingOfProperties, ih, List.flatMap_cons]

theorem listing_eq (place : Pointer) (d : Definition) :
    d.listing place =
      (d.properties.flatMap fun (name, x) =>
        ⟨name, place.append ["properties", name]⟩ :: x.listing (place.append ["properties", name])) ++
      d.items.toList.flatMap (listing (place.push "items")) ++
      d.additionalProperties.toList.flatMap (listing (place.push "additionalProperties")) := by
  obtain ⟨type, format, description, nullable, items, values, properties, required, enumValues, reference⟩ := d
  rw [listing, listingOfProperties_eq, listingOfOptional_eq, listingOfOptional_eq]

end Definition

/-- The name of a function, then the names below its input and those below its output. -/
def FunctionDefinition.listing (kind name : String) (f : FunctionDefinition) : List Declaration :=
  ⟨name, ⟨[kind, name]⟩⟩ :: f.input.toList.flatMap (·.definition.listing ⟨[kind, name, "input"]⟩) ++
    f.output.toList.flatMap (·.definition.listing ⟨[kind, name, "output"]⟩)

/-- Every name of a document where it is declared: the exports, the imports, and the schemas, each with the
names below it. -/
def FunctionDocument.listing (doc : FunctionDocument) : List Declaration :=
  doc.exports.flatMap (fun (name, f) => f.listing "exports" name) ++
    doc.imports.flatMap (fun (name, f) => f.listing "imports" name) ++
    doc.schemas.flatMap fun (name, d) => ⟨name, .schema name⟩ :: d.listing (.schema name)

namespace Declaration

theorem ofNode_eq_listing (d : Definition) : ∀ place, ofNode place d.toNode = d.listing place := by
  induction d using Definition.induct with
  | h d ihProperties ihItems ihValues =>
    intro place
    rw [ofNode_toNode, Definition.listing_eq]
    congr 1
    · congr 1
      · exact List.flatMap_congr fun e he => congrArg _ (ihProperties e he _)
      · exact List.flatMap_congr fun item hi => ihItems item (Option.mem_toList.mp hi) _
    · exact List.flatMap_congr fun value hv => ihValues value (Option.mem_toList.mp hv) _

theorem ofFunction_eq_listing (kind name : String) (f : FunctionDefinition) :
    ofFunction kind (f.toFunction name) = f.listing kind name := by
  have hparameter : ∀ (place : Pointer) (p : Option ParameterDefinition),
      ofParameter place (p.map (·.toParameter)) = p.toList.flatMap (·.definition.listing place) := by
    intro place p
    cases p with
    | none => rfl
    | some p =>
      rw [Option.map_some, Option.toList_some, List.flatMap_singleton]
      exact ofNode_eq_listing p.definition place
  exact congrArg₂ (_ :: · ++ ·) (hparameter _ f.input) (hparameter _ f.output)

end Declaration

/-- Names are checked in the order of their declaration. -/
theorem Normalization.declarations_eq_listing (doc : FunctionDocument) : declarations doc = doc.listing := by
  show Declaration.all (lowerFunctions doc.exports) (lowerFunctions doc.imports) (lowerSchemas doc.schemas) = _
  rw [Declaration.all, lowerFunctions, lowerFunctions, lowerSchemas, List.flatMap_map, List.flatMap_map,
    List.flatMap_map, FunctionDocument.listing]
  simp only [Declaration.ofFunction_eq_listing, Declaration.ofSchema, Definition.toSchema,
    Declaration.ofNode_eq_listing]

/-! ## Notices -/

namespace Declaration

/-- The name is an identifier, and a word of some language. -/
structure IsReserved (d : Declaration) : Prop where
  legal : Identifier.Legal d.name
  word : ∃ language ∈ Language.all, language.reserves d.name = true

instance (d : Declaration) : Decidable d.IsReserved :=
  decidable_of_iff (Identifier.Legal d.name ∧ ∃ language ∈ Language.all, language.reserves d.name = true)
    ⟨fun h => ⟨h.1, h.2⟩, fun h => ⟨h.legal, h.word⟩⟩

/-- The notice names the languages that reserve the name. -/
def notice (d : Declaration) : Diagnostic :=
  (Problem.reservedName d.name (Language.all.filter (·.reserves d.name))).located d.place

theorem warning?_eq (d : Declaration) : d.warning? = if d.IsReserved then some d.notice else none := by
  have hreserving : Language.reserving d.name = [] ↔ ¬ ∃ language ∈ Language.all, language.reserves d.name = true := by
    simp [Language.reserving]
  unfold warning?
  by_cases hlegal : Identifier.Legal d.name
  · rw [if_pos (Identifier.isValid_iff_legal.mpr hlegal)]
    split
    · rename_i hnil
      rw [if_neg fun h => hreserving.mp hnil h.word]
    · rename_i hne
      rw [if_pos ⟨hlegal, not_not.mp fun h => hne (hreserving.mpr h)⟩]
      rfl
  · rw [if_neg fun h => hlegal (Identifier.isValid_iff_legal.mp h), if_neg fun h => hlegal h.legal]

/-- One notice for each name that is reserved, at its place. -/
theorem warnings_check (ds : List Declaration) : (check ds).warnings = (ds.filter (·.IsReserved)).map notice := by
  rw [check_eq, ← List.filterMap_eq_map, List.filterMap_filter]
  exact List.filterMap_congr fun d _ => by simp [warning?_eq]

end Declaration

/-! ## Outcomes -/

/-- The warnings of a document, accepted or not. -/
def warningsOf : Except Rejection Normalized → List Diagnostic
  | .ok n => n.warnings
  | .error r => r.warnings

/-- The same outcome with a warning before the others. -/
def warned (d : Diagnostic) : Except Rejection Normalized → Except Rejection Normalized
  | .ok n => .ok { n with warnings := d :: n.warnings }
  | .error r => .error { r with warnings := d :: r.warnings }

namespace Normalization

theorem warnings_derive (doc : FunctionDocument) :
    (derive doc).diagnostics.warnings = (doc.listing.filter (·.IsReserved)).map (·.notice) := by
  rw [← declarations_eq_listing, ← Declaration.warnings_check]
  rfl

theorem warnings_normalize (doc : FunctionDocument) :
    warningsOf (normalize (.functions doc)) = (doc.listing.filter (·.IsReserved)).map (·.notice) := by
  rw [normalize_functions, ← warnings_derive]
  split <;> rfl

end Normalization

theorem warnings_of_clean {raw : Value} {version : Version} (hversion : Document.statedVersion? raw = some version)
    (hne : version ≠ .v0) (hclean : (readDocument raw).errors = []) :
    ∃ doc, FunctionDocument.read raw = .ok doc ∧
      warningsOf (parse raw) = (readDocument raw).warnings ++ (doc.listing.filter (·.IsReserved)).map (·.notice) := by
  rcases parse_cases raw with ⟨herrors, _⟩ | ⟨document, hread, hparse⟩
  · exact absurd hclean herrors
  · obtain ⟨_, ⟨doc, hdoc, rfl⟩, _⟩ := (readDocument_eq hversion hne).mp hread
    refine ⟨doc, hdoc, ?_⟩
    rw [hparse, ← Normalization.warnings_normalize]
    cases normalize (.functions doc) <;> rfl

/-! ## Drafts -/

/-- Two documents that are the same but for the version, of which the second is the draft. -/
def Value.Drafted : Value → Value → Prop :=
  Value.Within "version" fun v w => v = .string Version.v1.text ∧ w = .string Version.v1Draft.text

namespace Value.Drafted

variable {raw raw' : Value}

theorem statedVersion?_eq (h : raw.Drafted raw') (hraw : raw.Unrepeated) :
    Document.statedVersion? raw = some .v1 ∧ Document.statedVersion? raw' = some .v1Draft := by
  obtain ⟨_, _, hget, hget', rfl, rfl⟩ := h.get? hraw
  simp only [Document.statedVersion?, hget, hget']
  decide

theorem check_eq (h : raw.Drafted raw') : Structure.check raw' = Structure.check raw := by
  have hget := h.get?_of_ne
  have hnames : Structure.schemaNames raw' = Structure.schemaNames raw := by
    rw [Structure.schemaNames, hget "components" (by decide), Structure.schemaNames]
  have hwalk : ∀ schemas, Structure.walk schemas .root true raw' = Structure.walk schemas .root true raw := by
    intro schemas
    obtain ⟨before, after, _, _, ⟨rfl, rfl⟩, rfl, rfl⟩ := h
    have hfields : ∀ name ∈ Structure.checkedFields, name ≠ "version" := by decide
    rw [Structure.walk, Structure.walk,
      Structure.checkDescription_congr fun name hname => hget name (hfields name hname)]
    simp only [Structure.walkMembers_eq_flatMap, List.flatMap_append, List.flatMap_cons, Structure.walk]
  unfold Structure.check Structure.checkDeclarations
  rw [hwalk, hnames, Structure.checkFunctions_congr (hget "exports" (by decide)),
    Structure.checkFunctions_congr (hget "imports" (by decide))]

end Value.Drafted

namespace FunctionDocument

/-- A member that is not the version is read the same whatever the version is. -/
theorem readField_version {name : String} (hname : name ≠ "version") (version : Option String) (s : Draft) (v : Value) :
    readField { s with version := version } name v = (readField s name v).map ({ · with version := version }) := by
  unfold readField
  split
  · exact absurd rfl hname
  · cases named {} FunctionDefinition.read v <;> rfl
  · cases named {} FunctionDefinition.read v <;> rfl
  · split
    · rfl
    · cases readComponents v <;> rfl
  · rfl

/-- The draft is read as the version is, but for its name. -/
theorem read_drafted {raw raw' : Value} (h : raw.Drafted raw') (hraw : raw.Unrepeated) :
    read raw' = (read raw).map ({ · with version := Version.v1Draft.text }) := by
  obtain ⟨before, after, _, _, ⟨rfl, rfl⟩, rfl, rfl⟩ := h
  have hafter : ∀ m ∈ after, m.1 ≠ "version" := by
    have hnodup := (Value.unrepeated_object.mp hraw).1
    simp only [Keyed.keys, List.map_append, List.map_cons, List.nodup_append, List.nodup_cons] at hnodup
    exact fun m hm heq => hnodup.2.1.1 (heq ▸ List.mem_map_of_mem hm)
  -- what comes after the version is read as if there were none
  have hrest : ∀ (text : String) (s : Draft),
      after.foldlM (fun s m => readField s m.1 m.2) { s with version := some text } =
        (after.foldlM (fun s m => readField s m.1 m.2) s).map ({ · with version := some text }) := fun text s =>
    foldlM_map (f := fun s : Draft => { s with version := some text })
      fun m hm s => readField_version (hafter m hm) (some text) s m.2
  have hversion : ∀ (s : Draft) (text : String),
      readField s "version" (.string text) = .ok { s with version := some text } := fun _ _ => rfl
  unfold read Record.fold
  simp only [List.foldlM_append, List.foldlM_cons, hversion]
  cases before.foldlM (fun s m => readField s m.1 m.2) ({} : Draft) with
  | error e => rfl
  | ok s =>
    simp only [bind, Except.bind, hrest]
    cases after.foldlM (fun s m => readField s m.1 m.2) s <;> rfl

end FunctionDocument

/-- What is said of a draft before anything else. -/
def draftNotice : Diagnostic := (Problem.draftVersion Version.v1Draft.text).located ⟨["version"]⟩

theorem readDocument_drafted {raw raw' : Value} (h : raw.Drafted raw') (hraw : raw.Unrepeated) :
    readDocument raw = .of ((FunctionDocument.read raw).map .functions) (Structure.check raw) [] ∧
      readDocument raw' =
        .of (((FunctionDocument.read raw).map ({ · with version := Version.v1Draft.text })).map .functions)
          (Structure.check raw) [draftNotice] := by
  obtain ⟨hversion, hversion'⟩ := h.statedVersion?_eq hraw
  rw [← FunctionDocument.read_drafted h hraw]
  constructor
  · simp only [readDocument, hversion]
    rfl
  · simp only [readDocument, hversion', h.check_eq]
    rfl

/-- A draft comes out as the version does, with the notice. -/
theorem parse_drafted {raw raw' : Value} (h : raw.Drafted raw') (hraw : raw.Unrepeated) :
    parse raw' = warned draftNotice (parse raw) := by
  obtain ⟨hread, hread'⟩ := readDocument_drafted h hraw
  unfold parse
  rw [hread, hread']
  cases FunctionDocument.read raw with
  | error e => cases Structure.check raw <;> rfl
  | ok doc =>
    cases Structure.check raw with
    | cons d ds => rfl
    | nil =>
      -- nothing is derived from the version
      have hsame : normalize (.functions { doc with version := Version.v1Draft.text }) = normalize (.functions doc) :=
        rfl
      simp only [Except.map, Reading.of, hsame]
      cases normalize (.functions doc) <;> rfl

/-- A train has a next one, so it is turned down. -/
def railway (version : String) : Value :=
  .object
    [("version", .string version),
      ("exports", .object [("import", .object [("input", .object [("contentType", .string "application/json"),
        ("properties", .object [("Class", .object [("type", .string "string")])])])])]),
      ("components", .object [("schemas", .object [("Train", .object [("properties", .object
        [("next", .object [("$ref", .string "#/components/schemas/Train")]),
          ("type", .object [("type", .string "string")])])])])])]

end BindingSchema
