import BindingSchema.Proofs.Document.Places
import BindingSchema.Proofs.Document.Trimming
import BindingSchema.Proofs.Interface.Fields

/-!
Reading a document without what says nothing.

A record is read member by member, and a member that is left out would leave its field as it is, if the
field was not read before; where no key comes twice it was not (`foldlM_trimMembers`). The other members
are read the same, so every record is (`Record.fold_trim`), and an empty entry of a map is read as a null
one (`named_trim`). From these it follows for definitions, by induction on the value (`Definition.read_trim`),
for functions and for the document (`FunctionDocument.read_trim`): it is read as the same types, or the
same is found wrong with it.
-/

namespace BindingSchema

open Decode

/-! ## Records and maps -/

namespace Decode

open BindingSchema.Part

variable {part : Part} {σ : Type} {step : σ → String → Value → Result σ}

/-- Where a field that was not read yet is left as it is by a member that is left out, the members that are
left out can be passed over. -/
theorem foldlM_trimMembers (blank : σ → String → Prop)
    (hother : ∀ s s' name v key, step s name v = .ok s' → key ≠ name → blank s key → blank s' key)
    (homitted : ∀ s key v, part.omits key v = true → blank s key → step s key v = .ok s)
    {members : List (String × Value)} (hnodup : (Keyed.keys members).Nodup)
    (hkept : ∀ m ∈ members, part.omits m.1 m.2 = false → ∀ s, step s m.1 (part.entry m.1 m.2) = step s m.1 m.2)
    {s : σ} (hs : ∀ key ∈ Keyed.keys members, blank s key) :
    (part.trimMembers members).foldlM (fun s m => step s m.1 m.2) s = members.foldlM (fun s m => step s m.1 m.2) s := by
  induction members generalizing s with
  | nil => rfl
  | cons m rest ih =>
    obtain ⟨key, v⟩ := m
    obtain ⟨hnotMem, hnodup⟩ := List.nodup_cons.mp hnodup
    obtain ⟨hblank, hs⟩ := List.forall_mem_cons.mp hs
    obtain ⟨hkeep, hkept⟩ := List.forall_mem_cons.mp hkept
    rw [trimMembers_cons, List.foldlM_cons]
    cases homits : part.omits key v with
    | true =>
      rw [if_pos rfl, homitted s key v homits hblank]
      exact ih hnodup hkept hs
    | false =>
      rw [if_neg Bool.false_ne_true, List.foldlM_cons, ← hkeep homits s]
      cases hstep : step s key (part.entry key v) with
      | error e => rfl
      | ok s' =>
        refine ih hnodup hkept fun name hname => hother s s' key _ name hstep ?_ (hs name hname)
        rintro rfl
        exact hnotMem hname

/-- A record is read the same without what says nothing, if that holds of each of its fields. -/
theorem Record.fold_trim {record : Record} {source : Source} (blank : σ → String → Prop)
    (hother : ∀ s s' name v key, step s name v = .ok s' → key ≠ name → blank s key → blank s' key)
    (homitted : ∀ s key v, part.omits key v = true → blank s key → step s key v = .ok s) {v : Value}
    (hv : v.Unrepeated)
    (hmember : ∀ members, v = .object members → ∀ m ∈ members, part.omits m.1 m.2 = false → ∀ s,
      step s m.1 (part.entry m.1 m.2) = step s m.1 m.2)
    (hitem : ∀ items, v = .array items → part.fields = [] ∨ part.fields = record.fields ∧ ∀ w ∈ items, ∀ field s,
      step s field ((part.item field).trim w) = step s field w)
    {s : σ} (hs : ∀ key, blank s key) : record.fold source step s (part.trim v) = record.fold source step s v := by
  cases v with
  | object members =>
    exact foldlM_trimMembers blank hother homitted (Value.unrepeated_object.mp hv).1 (hmember members rfl)
      fun key _ => hs key
  | array items =>
    rcases hitem items rfl with hfields | ⟨hfields, hitem⟩
    · rw [trim, hfields, trimItems_nil]
    · rw [trim, fold, fold, hfields, zip_trimItems, length_trimItems, List.foldlM_map,
        foldlM_congr fun e he s => hitem e.2 (List.of_mem_zip he).2 e.1 s]
  | _ => rfl

/-- An entry of a map. -/
def readEntry {α : Type} (absent : α) (read : Value → Result α) : Value → Result α
  | .null => .ok absent
  | v => read v

theorem readEntry_of_ne {α : Type} {absent : α} {read : Value → Result α} {v : Value} (h : v.isNull = false) :
    readEntry absent read v = read v := by
  cases v with
  | null => cases h
  | _ => rfl

theorem trim_of_isNull {v : Value} (h : v.isNull = true) : part.trim v = v := by
  cases v with
  | null => rfl
  | _ => cases h

/-- A map is read the same if its entries are, and if an empty entry is read as one that is left out. -/
theorem named_trim {α : Type} {absent : α} {read : Value → Result α} (homits : ∀ key v, part.omits key v = false)
    (hfields : part.fields = []) (hempty : read (.object []) = .ok absent) {v : Value}
    (hread : ∀ members, v = .object members → ∀ m ∈ members, read ((part.below m.1).trim m.2) = read m.2) :
    named absent read (part.trim v) = named absent read v := by
  cases v with
  | object members =>
    have hentry : ∀ m ∈ members, readEntry absent read (part.entry m.1 m.2) = readEntry absent read m.2 := by
      intro m hm
      cases hnull : m.2.isNull with
      | true =>
        rw [entry, hnull, Bool.and_true]
        split
        · obtain ⟨key, v⟩ := m
          cases v with
          | null => exact hempty
          | _ => cases hnull
        · exact congrArg _ (trim_of_isNull hnull)
      | false =>
        rw [entry, hnull, Bool.and_false, if_neg Bool.false_ne_true, readEntry_of_ne hnull,
          readEntry_of_ne ((isNull_trim m.2).trans hnull), hread members rfl m hm]
    rw [trim, trimMembers_eq_map homits]
    show List.mapM (fun m : String × Value => (readEntry absent read m.2).map (m.1, ·)) (members.map _) =
      members.mapM fun m => (readEntry absent read m.2).map (m.1, ·)
    rw [List.mapM_map]
    exact mapM_congr fun m hm => by rw [Function.comp, hentry m hm]
  | array items => rw [trim, hfields, trimItems_nil]
  | _ => rfl

end Decode

namespace Definition

/-- The field `key` of a definition was not read yet. -/
structure Blank (d : Definition) (key : String) : Prop where
  type : key = "type" → d.type = none
  format : key = "format" → d.format = none
  description : key = "description" → d.description = none
  nullable : key = "nullable" → d.nullable = none
  items : key = "items" → d.items = none
  additionalProperties : key = "additionalProperties" → d.additionalProperties = none
  properties : key = "properties" → d.properties = []
  required : key = "required" → d.required = []
  enumValues : key = "enum" → d.enumValues = none
  reference : key = "$ref" → d.reference = none

theorem blank_empty (key : String) : Blank {} key := by
  constructor <;> exact fun _ => rfl

theorem blank_readField {source : Source} {d d' : Definition} {name key : String} {v : Value} {r : Readings}
    (h : readField source d name v r = .ok d') (hne : key ≠ name) (hd : d.Blank key) : d'.Blank key := by
  unfold readField at h
  split at h
  case h_5 =>
    split at h
    · cases h
      exact { hd with items := fun _ => rfl }
    · obtain ⟨a, rfl⟩ := eq_of_set h
      exact { hd with items := fun hkey => absurd hkey hne }
  case h_11 =>
    cases h
    exact hd
  all_goals obtain ⟨a, rfl⟩ := eq_of_set h
  case h_1 => exact { hd with type := fun hkey => absurd hkey hne }
  case h_2 => exact { hd with format := fun hkey => absurd hkey hne }
  case h_3 => exact { hd with description := fun hkey => absurd hkey hne }
  case h_4 => exact { hd with nullable := fun hkey => absurd hkey hne }
  case h_6 => exact { hd with additionalProperties := fun hkey => absurd hkey hne }
  case h_7 => exact { hd with properties := fun hkey => absurd hkey hne }
  case h_8 => exact { hd with required := fun hkey => absurd hkey hne }
  case h_9 => exact { hd with enumValues := fun hkey => absurd hkey hne }
  case h_10 => exact { hd with reference := fun hkey => absurd hkey hne }

/-- What is left out would leave a field as it is that was not read yet. -/
theorem readField_omitted {source : Source} {d : Definition} {key : String} {v : Value} {listed : Bool}
    (homits : (Part.definition listed).omits key v = true) (hd : d.Blank key) :
    readField source d key v (readings source v) = .ok d := by
  obtain ⟨type, format, description, nullable, items, values, properties, required, enumValues, reference⟩ := d
  unfold Part.omits at homits
  split at homits
  · simp only [Part.optional, List.contains_iff_mem, List.mem_cons, List.not_mem_nil, or_false] at homits
    rcases homits with rfl | rfl | rfl | rfl | rfl | rfl | rfl | rfl | rfl | rfl
    · cases hd.type rfl; rfl
    · cases hd.format rfl; rfl
    · cases hd.description rfl; rfl
    · cases hd.nullable rfl; rfl
    · cases hd.items rfl; rfl
    · cases hd.additionalProperties rfl; rfl
    · cases hd.properties rfl; rfl
    · cases hd.required rfl; rfl
    · cases hd.enumValues rfl; rfl
    · cases hd.reference rfl; rfl
  · simp only [Part.isDefinition, Bool.true_and, beq_iff_eq] at homits
    subst homits
    cases hd.additionalProperties rfl
    rfl
  · cases homits

/-- What is in a field of a definition. -/
inductive FieldPart : String → Part → Prop where
  | items (listed : Bool) : FieldPart "items" (.definition listed)
  | additionalProperties (listed : Bool) : FieldPart "additionalProperties" (.definition listed)
  | properties (filled : Bool) : FieldPart "properties" (.definitions filled)
  | other (key : String) : FieldPart key .other

theorem fieldPart_below (listed : Bool) (key : String) : FieldPart key ((Part.definition listed).below key) := by
  unfold Part.below
  split <;> first | exact .other _ | rename_i hpart; cases hpart <;> constructor

theorem fieldPart_item (listed : Bool) (key : String) : FieldPart key ((Part.definition listed).item key) := by
  unfold Part.item
  split
  · exact .additionalProperties true
  · exact .properties false
  · exact fieldPart_below listed _

/-- A value that is read the same, whatever it is read as, once it is trimmed. -/
def Trims (v : Value) : Prop :=
  (∀ source listed, read source ((Part.definition listed).trim v) = read source v) ∧
    ∀ source filled, named {} (read source) ((Part.definitions filled).trim v) = named {} (read source) v

theorem readField_trim {v : Value} (hv : Trims v) {key : String} {part : Part} (hpart : FieldPart key part)
    (source : Source) (d : Definition) :
    readField source d key (part.trim v) (readings source (part.trim v)) =
      readField source d key v (readings source v) := by
  obtain ⟨hdefinition, hentries⟩ := hv
  cases hpart with
  | items listed =>
    simp only [readField, Part.isNull_trim, readings, hdefinition]
  | additionalProperties listed =>
    have hvalues : mapValues ((Part.definition listed).trim v) (readings source ((Part.definition listed).trim v)) =
        mapValues v (readings source v) := by
      have hread := hdefinition .inPlace listed
      cases v with
      | object members => exact congrArg (Except.map some) hread
      | array items => exact congrArg (Except.map some) hread
      | _ => rfl
    simp only [readField, hvalues]
  | properties filled => simp only [readField, entries_readings, hentries]
  | other => rw [Part.trim_other]

/-- Definitions and maps of definitions are read the same without what says nothing. -/
theorem read_trim {v : Value} (hv : v.Unrepeated) : Trims v := by
  induction v using Value.inductItems with
  | object members ih =>
    have hmembers := (Value.unrepeated_object.mp hv).2
    constructor
    · intro source listed
      rw [read_eq_fold, read_eq_fold]
      refine Record.fold_trim Blank (fun _ _ _ _ _ h hne hd => blank_readField h hne hd)
        (fun _ _ _ homits hd => readField_omitted homits hd) hv ?_ ?_ blank_empty
      · intro _ heq m hm _ d
        cases heq
        exact readField_trim (ih m hm (hmembers m hm)) (fieldPart_below listed m.1) source d
      · intro _ heq
        cases heq
    · intro source filled
      refine named_trim (Part.omits_eq_false rfl rfl) rfl (by rw [read, readMembers]) ?_
      intro _ heq m hm
      cases heq
      exact (ih m hm (hmembers m hm)).1 source true
  | array items ih =>
    have hitems := Value.unrepeated_array.mp hv
    constructor
    · intro source listed
      rw [read_eq_fold, read_eq_fold]
      refine Record.fold_trim Blank (fun _ _ _ _ _ h hne hd => blank_readField h hne hd)
        (fun _ _ _ homits hd => readField_omitted homits hd) hv ?_ ?_ blank_empty
      · intro _ heq
        cases heq
      · intro _ heq
        cases heq
        cases listed with
        | false => exact Or.inl rfl
        | true =>
          refine Or.inr ⟨rfl, fun w hw field d => ?_⟩
          exact readField_trim (ih w hw (hitems w hw)) (fieldPart_item true field) source d
    · intro source filled
      rw [Part.trim, show (Part.definitions filled).fields = [] from rfl, Part.trimItems_nil]
  | other v hobject harray =>
    exact ⟨fun _ _ => by rw [Part.trim_of_scalar hobject harray], fun _ _ => by rw [Part.trim_of_scalar hobject harray]⟩

end Definition

theorem ParameterDefinition.read_trim {v : Value} (hv : v.Unrepeated) :
    read ((Part.definition true).trim v) = read v := by
  cases v with
  | object members =>
    have hdefinition := (Definition.read_trim hv).1 .setAside true
    have hcontent : Keyed.get? ((Part.definition true).trimMembers members) "contentType" =
        Keyed.get? members "contentType" :=
      Part.get?_trimMembers_of_other (Value.unrepeated_object.mp hv).1 (by decide) rfl rfl
    rw [Part.trim] at hdefinition ⊢
    simp only [read, hcontent, hdefinition]
  | _ => rfl

namespace FunctionDefinition

/-- The field `key` of a function was not read yet. -/
structure Blank (f : FunctionDefinition) (key : String) : Prop where
  description : key = "description" → f.description = none
  codeSamples : key = "codeSamples" → f.codeSamples = []
  input : key = "input" → f.input = none
  output : key = "output" → f.output = none

theorem blank_empty (key : String) : Blank {} key := by
  constructor <;> exact fun _ => rfl

theorem blank_readField {f f' : FunctionDefinition} {name key : String} {v : Value} (h : readField f name v = .ok f')
    (hne : key ≠ name) (hf : f.Blank key) : f'.Blank key := by
  unfold readField at h
  split at h
  case h_5 =>
    cases h
    exact hf
  all_goals obtain ⟨a, rfl⟩ := eq_of_set h
  case h_1 => exact { hf with description := fun hkey => absurd hkey hne }
  case h_2 => exact { hf with codeSamples := fun hkey => absurd hkey hne }
  case h_3 => exact { hf with input := fun hkey => absurd hkey hne }
  case h_4 => exact { hf with output := fun hkey => absurd hkey hne }

theorem readField_omitted {f : FunctionDefinition} {key : String} {v : Value}
    (homits : Part.function.omits key v = true) (hf : f.Blank key) : readField f key v = .ok f := by
  obtain ⟨description, codeSamples, input, output⟩ := f
  unfold Part.omits at homits
  split at homits
  · simp only [Part.optional, List.contains_iff_mem, List.mem_cons, List.not_mem_nil, or_false] at homits
    rcases homits with rfl | rfl | rfl | rfl
    · cases hf.description rfl; rfl
    · cases hf.codeSamples rfl; rfl
    · cases hf.input rfl; rfl
    · cases hf.output rfl; rfl
  · cases homits
  · cases homits

theorem readField_trim {v : Value} (hv : v.Unrepeated) (key : String) (f : FunctionDefinition) :
    readField f key ((Part.function.below key).trim v) = readField f key v := by
  have hparameter : optional ParameterDefinition.read ((Part.definition true).trim v) =
      optional ParameterDefinition.read v := by
    have hread := ParameterDefinition.read_trim hv
    cases v with
    | object members => exact congrArg (Except.map some) hread
    | _ => rfl
  unfold Part.below
  split <;> first | rw [Part.trim_other] | rename_i hpart; cases hpart <;> simp only [readField, hparameter]

theorem read_trim {v : Value} (hv : v.Unrepeated) : read (Part.function.trim v) = read v := by
  refine Record.fold_trim Blank (fun _ _ _ _ _ h hne hf => blank_readField h hne hf)
    (fun _ _ _ homits hf => readField_omitted homits hf) hv ?_ ?_ blank_empty
  · rintro members rfl m hm _ f
    exact readField_trim ((Value.unrepeated_object.mp hv).2 m hm) m.1 f
  · rintro items rfl
    refine Or.inr ⟨rfl, fun w hw field f => ?_⟩
    exact readField_trim (Value.unrepeated_array.mp hv w hw) field f

end FunctionDefinition

namespace FunctionDocument

theorem readComponents_trim {v : Value} (hv : v.Unrepeated) :
    readComponents (Part.components.trim v) = readComponents v := by
  have hschemas : ∀ w : Value, w.Unrepeated → ∀ (field : String) (s : Keyed Definition),
      (if field = "schemas" then named {} (Definition.read .inPlace) ((Part.components.below field).trim w)
        else return s) =
        if field = "schemas" then named {} (Definition.read .inPlace) w else return s := by
    intro w hw field s
    split
    · rename_i hfield
      subst hfield
      exact (Definition.read_trim hw).2 .inPlace true
    · rfl
  refine Record.fold_trim (fun s key => key = "schemas" → s = []) ?_ ?_ hv ?_ ?_ ?_
  · rintro s s' name w key h hne hs rfl
    rw [if_neg (Ne.symm hne)] at h
    exact pure_eq_ok.mp h ▸ hs rfl
  · intro s key w homits hs
    have hkey : key = "schemas" := by simpa [Part.optional] using Part.mem_optional_of_omits homits
    subst hkey
    cases hs rfl
    cases w with
    | null => rfl
    | bool b => cases b <;> cases homits
    | _ => cases homits
  · rintro members rfl m hm _ s
    exact hschemas m.2 ((Value.unrepeated_object.mp hv).2 m hm) m.1 s
  · rintro items rfl
    exact Or.inr ⟨rfl, fun w hw field s => hschemas w (Value.unrepeated_array.mp hv w hw) field s⟩
  · exact fun _ _ => rfl

/-- The field `key` of a document was not read yet. -/
structure Draft.Blank (d : Draft) (key : String) : Prop where
  exports : key = "exports" → d.exports = []
  imports : key = "imports" → d.imports = []
  components : key = "components" → d.schemas = []

theorem blank_readField {d d' : Draft} {name key : String} {v : Value} (h : readField d name v = .ok d')
    (hne : key ≠ name) (hd : d.Blank key) : d'.Blank key := by
  obtain ⟨hexports, himports, hcomponents⟩ := readField_other h
  constructor
  · rintro rfl
    rw [hexports hne.symm, hd.exports rfl]
  · rintro rfl
    rw [himports hne.symm, hd.imports rfl]
  · rintro rfl
    rw [hcomponents hne.symm, hd.components rfl]

theorem readField_omitted {d : Draft} {key : String} {v : Value} (homits : Part.document.omits key v = true)
    (hd : d.Blank key) : readField d key v = .ok d := by
  obtain ⟨version, exports, imports, schemas⟩ := d
  unfold Part.omits at homits
  split at homits
  · simp only [Part.optional, List.contains_iff_mem, List.mem_cons, List.not_mem_nil, or_false] at homits
    rcases homits with rfl | rfl | rfl
    · cases hd.exports rfl; rfl
    · cases hd.imports rfl; rfl
    · cases hd.components rfl; rfl
  · cases homits
  · cases homits

theorem readField_trim {v : Value} (hv : v.Unrepeated) (key : String) (d : Draft) :
    readField d key ((Part.document.below key).trim v) = readField d key v := by
  have hfunctions : named {} FunctionDefinition.read (Part.functions.trim v) = named {} FunctionDefinition.read v := by
    have homits : ∀ key v, Part.functions.omits key v = false := Part.omits_eq_false rfl rfl
    have hempty : FunctionDefinition.read (.object []) = .ok {} := rfl
    refine named_trim homits rfl hempty ?_
    rintro members rfl m hm
    exact FunctionDefinition.read_trim ((Value.unrepeated_object.mp hv).2 m hm)
  have hcomponents := readComponents_trim hv
  unfold Part.below
  split <;>
    first
    | rw [Part.trim_other]
    | rename_i hpart; cases hpart <;> simp only [readField, hfunctions, hcomponents, Part.isNull_trim]

/-- A document is read the same without what says nothing. -/
theorem read_trim {raw : Value} (hraw : raw.Unrepeated) : read (Part.document.trim raw) = read raw := by
  have hfold : record.fold .inPlace readField {} (Part.document.trim raw) = record.fold .inPlace readField {} raw := by
    refine Record.fold_trim Draft.Blank (fun _ _ _ _ _ h hne hd => blank_readField h hne hd)
      (fun _ _ _ homits hd => readField_omitted homits hd) hraw ?_ (fun _ _ => Or.inl rfl)
      fun _ => ⟨fun _ => rfl, fun _ => rfl, fun _ => rfl⟩
    rintro members rfl m hm _ d
    exact readField_trim ((Value.unrepeated_object.mp hraw).2 m hm) m.1 d
  unfold read
  rw [hfold]
  cases raw with
  | array items => rw [Part.trim, show Part.document.fields = [] from rfl, Part.trimItems_nil]
  | _ => rfl

end FunctionDocument

end BindingSchema
