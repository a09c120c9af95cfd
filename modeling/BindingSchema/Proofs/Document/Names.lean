import BindingSchema.Declaration
import BindingSchema.Proofs.Document.Places
import Mathlib.Data.List.Perm.Basic

/-!
The names that a document declares.

A name is declared by each export, import and schema and by each property, however deep the property
stands and whatever stands beside it (`FunctionDocument.names`). What holds of all of them holds of the
keys of all functions, schemas and definitions, and the other way round (`forall_mem_names`). The names
are checked after lowering, in an order of their own; they are the declared ones, each as often as it is
declared and at its place (`perm_names`), and there is one error for each that is not legal
(`errors_check_eq`).
-/

namespace BindingSchema

/-! ## Legal names -/

namespace Identifier

/-- What a name can begin with. -/
def IsStart (c : Char) : Prop := ('a' ≤ c ∧ c ≤ 'z') ∨ ('A' ≤ c ∧ c ≤ 'Z') ∨ c = '_' ∨ c = '$'

/-- One character that a name can begin with, then any number of these and of digits. -/
def Legal (name : String) : Prop :=
  ∃ c cs, name.toList = c :: cs ∧ IsStart c ∧ ∀ d ∈ cs, IsStart d ∨ ('0' ≤ d ∧ d ≤ '9')

theorem isBetween_iff {first final c : Char} :
    (decide (c.val ≥ first.val) && decide (c.val ≤ final.val)) = true ↔ first ≤ c ∧ c ≤ final :=
  Bool.and_eq_true_iff.trans (and_congr decide_eq_true_iff decide_eq_true_iff)

theorem isLetter_iff {c : Char} : isLetter c = true ↔ IsStart c := by
  have hlower : c.isLower = true ↔ 'a' ≤ c ∧ c ≤ 'z' := isBetween_iff
  have hupper : c.isUpper = true ↔ 'A' ≤ c ∧ c ≤ 'Z' := decide_eq_true_iff
  have halpha : c.isAlpha = true ↔ c.isUpper = true ∨ c.isLower = true := Bool.or_eq_true_iff
  simp only [isLetter, Bool.or_eq_true, beq_iff_eq, halpha, hlower, hupper, IsStart]
  rw [or_comm (b := 'a' ≤ c ∧ c ≤ 'z'), or_assoc, or_assoc]

theorem isLetterOrDigit_iff {c : Char} : isLetterOrDigit c = true ↔ IsStart c ∨ ('0' ≤ c ∧ c ≤ '9') := by
  have hdigit : c.isDigit = true ↔ '0' ≤ c ∧ c ≤ '9' := isBetween_iff
  rw [isLetterOrDigit, Bool.or_eq_true, isLetter_iff, hdigit]

/-- The names that are accepted are the legal ones. -/
theorem isValid_iff_legal {name : String} : isValid name = true ↔ Legal name := by
  rw [isValid, Legal]
  cases name.toList with
  | nil => simp [isValidChars]
  | cons c cs => simp [isValidChars, isLetter_iff, isLetterOrDigit_iff]

instance (name : String) : Decidable (Legal name) := decidable_of_iff _ isValid_iff_legal

end Identifier

/-! ## Declared names -/

namespace Definition

mutual

/-- A definition and everything below it, each at its place. -/
def places (place : Pointer) : Definition → List (Pointer × Definition)
  | ⟨type, format, description, nullable, items, additionalProperties, properties, required, enumValues,
      reference⟩ =>
    (place, ⟨type, format, description, nullable, items, additionalProperties, properties, required, enumValues,
      reference⟩) ::
      (placesOfProperties place properties ++ placesOfOptional (place.push "items") items ++
        placesOfOptional (place.push "additionalProperties") additionalProperties)

def placesOfOptional (place : Pointer) : Option Definition → List (Pointer × Definition)
  | none => []
  | some d => places place d

def placesOfProperties (place : Pointer) : List (String × Definition) → List (Pointer × Definition)
  | [] => []
  | (name, d) :: rest => places (place.append ["properties", name]) d ++ placesOfProperties place rest

end

/-- The names of the properties below a definition, at any depth. -/
def names (place : Pointer) (d : Definition) : List Declaration :=
  (d.places place).flatMap fun (place, x) => x.properties.map fun (name, _) => ⟨name, place.append ["properties", name]⟩

end Definition

namespace FunctionDefinition

def names (place : Pointer) (f : FunctionDefinition) : List Declaration :=
  f.input.toList.flatMap (·.definition.names (place.push "input")) ++
    f.output.toList.flatMap (·.definition.names (place.push "output"))

/-- The name of a function and those of the properties below its input and output. -/
def declared (kind name : String) (f : FunctionDefinition) : List Declaration :=
  ⟨name, ⟨[kind, name]⟩⟩ :: f.names ⟨[kind, name]⟩

end FunctionDefinition

/-- Every name that the document declares, once for each time it is declared. -/
def FunctionDocument.names (doc : FunctionDocument) : List Declaration :=
  doc.exports.flatMap (fun (name, f) => f.declared "exports" name) ++
    doc.imports.flatMap (fun (name, f) => f.declared "imports" name) ++
    doc.schemas.flatMap fun (name, d) => ⟨name, .schema name⟩ :: d.names (.schema name)

namespace Definition

theorem placesOfProperties_eq (place : Pointer) (ps : List (String × Definition)) :
    placesOfProperties place ps = ps.flatMap fun (name, d) => d.places (place.append ["properties", name]) := by
  induction ps with
  | nil => rfl
  | cons e ps ih =>
    obtain ⟨name, d⟩ := e
    rw [placesOfProperties, ih, List.flatMap_cons]

theorem placesOfOptional_eq (place : Pointer) (d : Option Definition) :
    placesOfOptional place d = d.toList.flatMap (places place) := by
  cases d with
  | none => rfl
  | some d => simp [placesOfOptional]

theorem places_eq (place : Pointer) (d : Definition) :
    d.places place = (place, d) ::
      (d.properties.flatMap (fun (name, x) => x.places (place.append ["properties", name])) ++
        d.items.toList.flatMap (places (place.push "items")) ++
        d.additionalProperties.toList.flatMap (places (place.push "additionalProperties"))) := by
  obtain ⟨type, format, description, nullable, items, values, properties, required, enumValues, reference⟩ := d
  rw [places, placesOfProperties_eq, placesOfOptional_eq, placesOfOptional_eq]

/-- What stands at some place is what can be found. -/
theorem exists_mem_places_iff {x : Definition} (d : Definition) : ∀ place : Pointer,
    (∃ p, (p, x) ∈ d.places place) ↔ ∃ ways, d.follow? ways = some x := by
  induction d using Definition.induct with
  | h d ihProperties ihItems ihValues =>
    intro place
    rw [places_eq]
    simp only [List.mem_cons, List.mem_append, List.mem_flatMap, Option.mem_toList, Prod.mk.injEq]
    constructor
    · rintro ⟨p, ⟨rfl, rfl⟩ | (⟨e, he, hx⟩ | ⟨item, hi, hx⟩) | ⟨value, hv, hx⟩⟩
      · exact ⟨[], rfl⟩
      · obtain ⟨index, hindex⟩ := List.mem_iff_getElem?.mp he
        obtain ⟨ways, hways⟩ := (ihProperties e he _).mp ⟨p, hx⟩
        exact ⟨.property index :: ways, by simp [follow?, below?, hindex, hways]⟩
      · obtain ⟨ways, hways⟩ := (ihItems item hi _).mp ⟨p, hx⟩
        exact ⟨.items :: ways, by simp [follow?, below?, hi, hways]⟩
      · obtain ⟨ways, hways⟩ := (ihValues value hv _).mp ⟨p, hx⟩
        exact ⟨.mapValues :: ways, by simp [follow?, below?, hv, hways]⟩
    · rintro ⟨ways, hways⟩
      cases ways with
      | nil => cases hways; exact ⟨place, Or.inl ⟨rfl, rfl⟩⟩
      | cons way ways =>
        obtain ⟨y, hy, hx⟩ := Option.bind_eq_some_iff.mp hways
        cases way with
        | property index =>
          obtain ⟨e, he, rfl⟩ := Option.map_eq_some_iff.mp hy
          have hmem := List.mem_of_getElem? he
          obtain ⟨p, hp⟩ := (ihProperties e hmem (place.append ["properties", e.1])).mpr ⟨ways, hx⟩
          exact ⟨p, Or.inr (Or.inl (Or.inl ⟨e, hmem, hp⟩))⟩
        | items =>
          obtain ⟨p, hp⟩ := (ihItems y hy (place.push "items")).mpr ⟨ways, hx⟩
          exact ⟨p, Or.inr (Or.inl (Or.inr ⟨y, hy, hp⟩))⟩
        | mapValues =>
          obtain ⟨p, hp⟩ := (ihValues y hy (place.push "additionalProperties")).mpr ⟨ways, hx⟩
          exact ⟨p, Or.inr (Or.inr ⟨y, hy, hp⟩)⟩

theorem forall_mem_names {P : String → Prop} {place : Pointer} {d : Definition} :
    (∀ x ∈ d.names place, P x.name) ↔
      ∀ ways x, d.follow? ways = some x → ∀ name ∈ Keyed.keys x.properties, P name := by
  have hplaces : (∀ x ∈ d.names place, P x.name) ↔
      ∀ x, (∃ p, (p, x) ∈ d.places place) → ∀ name ∈ Keyed.keys x.properties, P name := by
    simp only [names, List.mem_flatMap, List.mem_map, Keyed.keys]
    constructor
    · rintro h x ⟨p, hp⟩ _ ⟨e, he, rfl⟩
      exact h ⟨e.1, p.append ["properties", e.1]⟩ ⟨(p, x), hp, e, he, rfl⟩
    · rintro h _ ⟨⟨p, x⟩, hp, e, he, rfl⟩
      exact h x ⟨p, hp⟩ e.1 ⟨e, he, rfl⟩
  simp only [hplaces, exists_mem_places_iff, forall_exists_index]
  exact forall_comm

end Definition

theorem Side.forall_iff {P : Side → Prop} : (∀ side, P side) ↔ P .exported ∧ P .imported :=
  ⟨fun h => ⟨h .exported, h .imported⟩, fun h side => by cases side <;> simp only [h]⟩

theorem Slot.forall_iff {P : Slot → Prop} : (∀ slot, P slot) ↔ P .input ∧ P .output :=
  ⟨fun h => ⟨h .input, h .output⟩, fun h slot => by cases slot <;> simp only [h]⟩

theorem FunctionDefinition.forall_mem_names {P : String → Prop} {place : Pointer} {f : FunctionDefinition} :
    (∀ x ∈ f.names place, P x.name) ↔ ∀ slot p, f.parameter? slot = some p →
      ∀ ways x, p.definition.follow? ways = some x → ∀ name ∈ Keyed.keys x.properties, P name := by
  have hslot : ∀ (p : Option ParameterDefinition) (place : Pointer),
      (∀ x ∈ p.toList.flatMap (·.definition.names place), P x.name) ↔ ∀ q, p = some q →
        ∀ ways x, q.definition.follow? ways = some x → ∀ name ∈ Keyed.keys x.properties, P name := by
    intro p place
    cases p with
    | none => simp
    | some p => simp [Definition.forall_mem_names]
  rw [names, List.forall_mem_append, hslot, hslot, Slot.forall_iff]
  exact Iff.rfl

namespace FunctionDocument

variable {doc : FunctionDocument}

/-- Every definition of a document is below a schema, an input or an output. -/
theorem forall_definition?_iff {P : Definition → Prop} :
    (∀ root ways d, doc.definition? root ways = some d → P d) ↔
      (∀ side, ∀ e ∈ doc.functions side, ∀ slot p, e.2.parameter? slot = some p →
        ∀ ways d, p.definition.follow? ways = some d → P d) ∧
      ∀ e ∈ doc.schemas, ∀ ways d, e.2.follow? ways = some d → P d := by
  constructor
  · intro h
    refine ⟨fun side e he slot p hp ways d hd => ?_, fun e he ways d hd => ?_⟩
    · obtain ⟨index, hindex⟩ := List.mem_iff_getElem?.mp he
      exact h (.parameter side index slot) ways d (by simp [definition?, root?, hindex, hp, hd])
    · obtain ⟨index, hindex⟩ := List.mem_iff_getElem?.mp he
      exact h (.schema index) ways d (by simp [definition?, root?, hindex, hd])
  · rintro ⟨hfunctions, hschemas⟩ root ways d hd
    obtain ⟨x, hx, hd⟩ := Option.bind_eq_some_iff.mp hd
    cases root with
    | schema index =>
      obtain ⟨e, he, rfl⟩ := Option.map_eq_some_iff.mp hx
      exact hschemas e (List.mem_of_getElem? he) ways d hd
    | parameter side index slot =>
      obtain ⟨e, he, hx⟩ := Option.bind_eq_some_iff.mp hx
      obtain ⟨p, hp, rfl⟩ := Option.map_eq_some_iff.mp hx
      exact hfunctions side e (List.mem_of_getElem? he) slot p hp ways d hd

/-- What is declared is the name of a function, of a schema, or of a property. -/
theorem forall_mem_names {P : String → Prop} :
    (∀ x ∈ doc.names, P x.name) ↔
      (∀ side, ∀ name ∈ Keyed.keys (doc.functions side), P name) ∧ (∀ name ∈ Keyed.keys doc.schemas, P name) ∧
        ∀ root ways d, doc.definition? root ways = some d → ∀ name ∈ Keyed.keys d.properties, P name := by
  rw [forall_definition?_iff]
  simp only [names, FunctionDefinition.declared, List.forall_mem_append, List.forall_mem_flatMap, List.forall_mem_cons,
    FunctionDefinition.forall_mem_names, Definition.forall_mem_names, Side.forall_iff, functions, Keyed.keys,
    List.forall_mem_map, forall_and]
  tauto

end FunctionDocument

/-! ## Checked names -/

namespace Declaration

theorem ofProperties_toProperties (place : Pointer) (required : List String) (ps : List (String × Definition)) :
    ofProperties place (Definition.toProperties required ps) = ps.flatMap fun (name, d) =>
      ⟨name, place.append ["properties", name]⟩ :: ofNode (place.append ["properties", name]) d.toNode := by
  induction ps with
  | nil => rfl
  | cons e ps ih =>
    obtain ⟨name, d⟩ := e
    rw [Definition.toProperties, ofProperties, ih, List.flatMap_cons]

theorem ofOptional_toNode? (place : Pointer) (d : Option Definition) :
    ofOptional place (Definition.toNode? d) = d.toList.flatMap fun d => ofNode place d.toNode := by
  cases d with
  | none => rfl
  | some d => simp [Definition.toNode?, ofOptional]

theorem ofNode_toNode (place : Pointer) (d : Definition) :
    ofNode place d.toNode =
      (d.properties.flatMap fun (name, x) =>
        ⟨name, place.append ["properties", name]⟩ :: ofNode (place.append ["properties", name]) x.toNode) ++
      (d.items.toList.flatMap fun x => ofNode (place.push "items") x.toNode) ++
      d.additionalProperties.toList.flatMap fun x => ofNode (place.push "additionalProperties") x.toNode := by
  obtain ⟨type, format, description, nullable, items, values, properties, required, enumValues, reference⟩ := d
  rw [Definition.toNode, ofNode, ofProperties_toProperties, ofOptional_toNode?, ofOptional_toNode?]

/-- Below a node the names of its properties come in another order. -/
theorem perm_ofNode (d : Definition) : ∀ place, (ofNode place d.toNode).Perm (d.names place) := by
  induction d using Definition.induct with
  | h d ihProperties ihItems ihValues =>
    intro place
    rw [ofNode_toNode, Definition.names, Definition.places_eq, List.flatMap_cons, List.flatMap_append,
      List.flatMap_append, List.flatMap_assoc, List.flatMap_assoc, List.flatMap_assoc]
    simp only [← List.append_assoc]
    refine List.Perm.append (List.Perm.append ?_ ?_) ?_
    · -- checking names a property right before what is below it, `names` all properties first
      refine (List.map_append_flatMap_perm _ _ _).symm.trans (List.Perm.append_left _ ?_)
      exact List.Perm.flatMap_left _ fun e he => ihProperties e he _
    · exact List.Perm.flatMap_left _ fun item hi => ihItems item (Option.mem_toList.mp hi) _
    · exact List.Perm.flatMap_left _ fun value hv => ihValues value (Option.mem_toList.mp hv) _

theorem perm_ofFunction (kind name : String) (f : FunctionDefinition) :
    (ofFunction kind (f.toFunction name)).Perm (f.declared kind name) := by
  have hparameter : ∀ (place : Pointer) (p : Option ParameterDefinition),
      (ofParameter place (p.map (·.toParameter))).Perm (p.toList.flatMap (·.definition.names place)) := by
    intro place p
    cases p with
    | none => exact List.Perm.refl _
    | some p =>
      rw [Option.map_some, Option.toList_some, List.flatMap_singleton]
      exact perm_ofNode p.definition place
  rw [ofFunction, FunctionDefinition.declared, FunctionDefinition.names, List.cons_append]
  exact ((hparameter _ f.input).append (hparameter _ f.output)).cons _

/-- The names that are checked are the declared ones. -/
theorem perm_names (doc : FunctionDocument) :
    (all (lowerFunctions doc.exports) (lowerFunctions doc.imports) (lowerSchemas doc.schemas)).Perm doc.names := by
  rw [all, lowerFunctions, lowerFunctions, lowerSchemas, List.flatMap_map, List.flatMap_map, List.flatMap_map]
  refine List.Perm.append (List.Perm.append ?_ ?_) ?_
  · exact List.Perm.flatMap_left _ fun e _ => perm_ofFunction "exports" e.1 e.2
  · exact List.Perm.flatMap_left _ fun e _ => perm_ofFunction "imports" e.1 e.2
  · exact List.Perm.flatMap_left _ fun e _ => (perm_ofNode e.2 (.schema e.1)).cons _

/-- One error for each name that is not legal, at its place. -/
theorem errors_check_eq (xs : List Declaration) :
    (check xs).errors =
      (xs.filter fun x => ¬ Identifier.Legal x.name).map fun x => (Problem.invalidName x.name).located x.place := by
  rw [check_eq]
  induction xs with
  | nil => rfl
  | cons x xs ih =>
    dsimp only at ih ⊢
    by_cases h : Identifier.Legal x.name
    · have hnone : x.error? = none := if_pos (Identifier.isValid_iff_legal.mpr h)
      rw [List.filterMap_cons_none hnone, List.filter_cons_of_neg (by simpa using h), ih]
    · have hsome : x.error? = some ((Problem.invalidName x.name).located x.place) :=
        if_neg fun hvalid => h (Identifier.isValid_iff_legal.mp hvalid)
      rw [List.filterMap_cons_some hsome, List.filter_cons_of_pos (by simpa using h), List.map_cons, ih]

end Declaration

end BindingSchema
