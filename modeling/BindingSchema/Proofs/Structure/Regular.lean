import BindingSchema.Proofs.Structure.Grammar
import BindingSchema.Proofs.Structure.Legality

/-!
What the structure of a regular document promises of all its definitions.

A regular document writes its parts as objects, and none as the list of its fields. The walk then
comes to the description of every definition (`Walked.checked_of_records`), and everything that the
check of a description finds in order is in order in the definition read from it (`proper_of_check`):
its names and enum are identifiers, what it requires is among its properties, and its reference names
a schema of the document. So it is in all definitions of the document (`proper_of_regular`).
-/

namespace BindingSchema

open Decode

theorem Keyed.isSome_get? {α : Type u} {m : Keyed α} {key : String} :
    (Keyed.get? m key).isSome = true ↔ key ∈ Keyed.keys m := by
  constructor
  · intro h
    obtain ⟨value, hvalue⟩ := Option.isSome_iff_exists.mp h
    exact List.mem_map_of_mem (Keyed.mem_of_get? hvalue)
  · intro h
    induction m with
    | nil => cases h
    | cons e rest ih =>
      obtain ⟨k, v⟩ := e
      by_cases hk : k = key
      · simp [Keyed.get?, hk]
      · rw [Keyed.get?, if_neg hk]
        exact ih ((List.mem_cons.mp h).resolve_left (Ne.symm hk))

/-- What the checks of a document and of its normal form both ask of a definition. -/
structure Definition.Proper (schemas : List String) (d : Definition) : Prop where
  names : ∀ name ∈ Keyed.keys d.properties, Identifier.isValid name = true
  required : d.properties ≠ [] → ∀ name ∈ d.required, (Keyed.get? d.properties name).isSome = true
  enumValues : ∀ values, d.enumValues = some values →
    ∀ v ∈ values, ∃ name, v = .string name ∧ Identifier.isValid name = true
  reference : ∀ path, d.reference = some path → ∃ name ∈ schemas, SchemaRef.parse path = .ok name

namespace Structure

/-! ## One description -/

theorem checkName_eq_nil {name : String} {place : Pointer} :
    checkName name place = [] ↔ Identifier.isValid name = true := by
  by_cases h : Identifier.isValid name = true <;> simp [checkName, h]

section

variable {source : Source} {members : List (String × Value)} {d : Definition}
  (hfields : Definition.Fields source members d)

include hfields

/-- Properties were read from an object with their names as keys, which is checked as a whole. -/
theorem checkProperties_of_ne_nil (hne : d.properties ≠ []) {place : Pointer}
    (hcheck : checkProperties members place = []) :
    ∃ entries, Keyed.keys d.properties = Keyed.keys entries ∧ checkRequired members entries place = [] ∧
      ∀ name ∈ Keyed.keys entries, Identifier.isValid name = true := by
  obtain ⟨v, hv, hnamed⟩ := hfields.properties.some hne
  rcases keys_of_named hnamed with ⟨_, hnil⟩ | ⟨entries, rfl, hkeys⟩
  · exact absurd hnil hne
  refine ⟨entries, hkeys, ?_⟩
  unfold checkProperties at hcheck
  rw [present?_eq_some hv (by simp)] at hcheck
  cases entries with
  | nil =>
    rw [Keyed.keys, Keyed.keys, List.map_nil, List.map_eq_nil_iff] at hkeys
    exact absurd hkeys hne
  | cons e rest =>
    simp only [List.append_eq_nil_iff, List.flatMap_eq_nil_iff, checkName_eq_nil] at hcheck
    exact ⟨hcheck.1.2, hcheck.2⟩

theorem mem_keys_of_checkRequired {place : Pointer} {entries : List (String × Value)}
    (hcheck : checkRequired members entries place = []) {name : String} (hname : name ∈ d.required) :
    name ∈ Keyed.keys entries := by
  obtain ⟨v, hv, hread⟩ := hfields.required.some (List.ne_nil_of_mem hname)
  cases v with
  | null =>
    rw [Except.ok.inj hread.symm] at hname
    cases hname
  | array items =>
    obtain ⟨index, hindex⟩ := List.mem_iff_getElem?.mp hname
    obtain ⟨hlt, hget⟩ := List.getElem?_eq_some_iff.mp hindex
    have hrel := mapM_eq_ok.mp hread
    have hlt' : index < items.length := hrel.length_eq ▸ hlt
    have hitem := hrel.get hlt' hlt
    rw [List.get_eq_getElem, List.get_eq_getElem, hget] at hitem
    -- a text was read from a text
    have hmem : Value.string name ∈ items := by
      cases hv : items[index] with
      | string s =>
        rw [hv] at hitem
        cases hitem
        exact hv ▸ List.getElem_mem hlt'
      | _ => rw [hv] at hitem; cases hitem
    unfold checkRequired at hcheck
    rw [hv] at hcheck
    have := List.flatMap_eq_nil_iff.mp hcheck _ hmem
    by_contra hnot
    rw [← Keyed.isSome_get?] at hnot
    simp [hnot] at this
  | _ => cases hread

theorem enum_of_checkEnum {place : Pointer} (hcheck : checkEnum members place = []) {values : List Value}
    (hvalues : d.enumValues = some values) :
    ∀ v ∈ values, ∃ name, v = .string name ∧ Identifier.isValid name = true := by
  obtain ⟨w, hw, hread⟩ := hfields.enumValues.some (by rw [hvalues]; exact Option.some_ne_none values)
  rw [hvalues] at hread
  obtain ⟨hne, hlist⟩ := optional_eq_some hread
  unfold checkEnum at hcheck
  rw [present?_eq_some hw hne] at hcheck
  cases w with
  | array items =>
    have hitems : items = values := by
      have hrel := mapM_eq_ok.mp hlist
      clear hlist hcheck hne hread hvalues hw
      induction hrel with
      | nil => rfl
      | cons hv _ ih => rw [Except.ok.inj hv, ih]
    subst hitems
    intro v hv
    have := List.flatMap_eq_nil_iff.mp hcheck v hv
    cases v with
    | string name => exact ⟨name, rfl, checkName_eq_nil.mp this⟩
    | _ => cases this
  | _ => cases hlist

theorem reference_of_checkReference {schemas : List String} {place : Pointer}
    (hcheck : checkReference schemas members place = []) {path : String} (hpath : d.reference = some path) :
    ∃ name ∈ schemas, SchemaRef.parse path = .ok name := by
  obtain ⟨w, hw, hread⟩ := hfields.reference.some (by rw [hpath]; exact Option.some_ne_none path)
  rw [hpath] at hread
  obtain ⟨hne, hstring⟩ := optional_eq_some hread
  unfold checkReference at hcheck
  rw [present?_eq_some hw hne] at hcheck
  cases w with
  | string s =>
    cases hstring
    cases hparse : SchemaRef.parse path with
    | error e => simp [hparse] at hcheck
    | ok name =>
      refine ⟨name, ?_, rfl⟩
      by_contra hnot
      simp [hparse, hnot] at hcheck
  | _ => cases hstring

end

/-- A definition whose description is in order is proper. -/
theorem proper_of_check {schemas : List String} {source : Source} {members : List (String × Value)} {d : Definition}
    {place : Pointer} (hnodup : (Keyed.keys members).Nodup)
    (hread : Definition.read source (.object members) = .ok d)
    (hcheck : checkDescription schemas members place = []) : d.Proper schemas := by
  have hfields := Definition.fields_of_read hnodup hread
  unfold checkDescription at hcheck
  simp only [List.append_eq_nil_iff] at hcheck
  obtain ⟨⟨⟨⟨⟨_, _⟩, hproperties⟩, _⟩, henum⟩, hreference⟩ := hcheck
  refine ⟨?_, ?_, fun values => enum_of_checkEnum hfields henum, fun path => reference_of_checkReference hfields hreference⟩
  · intro name hname
    obtain ⟨entries, hkeys, _, hvalid⟩ := checkProperties_of_ne_nil hfields
      (fun hnil => by rw [hnil] at hname; cases hname) hproperties
    exact hvalid name (hkeys ▸ hname)
  · intro hne name hname
    obtain ⟨entries, hkeys, hrequired, _⟩ := checkProperties_of_ne_nil hfields hne hproperties
    exact Keyed.isSome_get?.mpr (hkeys ▸ mem_keys_of_checkRequired hfields hrequired hname)

theorem Checked.proper {schemas : List String} {d : Definition} (h : Checked schemas d) : d.Proper schemas := by
  rcases h with rfl | ⟨source, members, place, hnodup, hread, hcheck⟩
  · exact ⟨nofun, fun h => absurd rfl h, nofun, nofun⟩
  · exact proper_of_check hnodup hread hcheck

end Structure

/-! ## Regular documents -/

/-- An object, or nothing. -/
def Value.IsRecord (v : Value) : Prop := v.isObject = true ∨ v.isNull = true

theorem Value.IsRecord.not_isArray {v : Value} (h : v.IsRecord) : v.isArray = false := by
  cases v with
  | array items => rcases h with h | h <;> cases h
  | _ => rfl

/-- The parts of the document are written as objects or left out: the functions, the components, the
schemas, each input and output, and each property and item, at any depth. -/
structure Regular (raw : Value) : Prop where
  functions : ∀ (side : Side) v, raw.follow? [.field side.key] = some v → v.IsRecord
  function : ∀ (side : Side) index v, raw.follow? [.field side.key, .entry index] = some v → v.IsRecord
  components : ∀ v, raw.follow? [.field "components"] = some v → v.IsRecord
  schemas : ∀ v, raw.follow? [.field "components", .field "schemas"] = some v → v.IsRecord
  root : ∀ (root : Root) v, raw.follow? root.keys = some v → v.IsRecord
  member : ∀ (root : Root) ways (way : Way) v, way ≠ .mapValues →
    raw.follow? (placeKeys root (ways ++ [way])) = some v → v.IsRecord

theorem Value.follow?_append (v : Value) (keys keys' : List Value.Key) :
    v.follow? (keys ++ keys') = (v.follow? keys).bind (·.follow? keys') := by
  induction keys generalizing v with
  | nil => rfl
  | cons key keys ih =>
    rw [List.cons_append, Value.follow?, Value.follow?, Option.bind_assoc]
    exact congrArg _ (funext fun w => ih w)

/-- There is no list on the way if none of what is met is one. -/
theorem Value.not_meetsList {keys : List Value.Key} {v : Value}
    (h : ∀ count w, v.follow? (keys.take count) = some w → w.isArray = false) : v.meetsList keys = false := by
  induction keys generalizing v with
  | nil => exact h 0 v rfl
  | cons key keys ih =>
    refine Bool.or_eq_false_iff.mpr ⟨h 0 v rfl, ?_⟩
    cases hw : v.member? key with
    | none => rfl
    | some w =>
      refine ih fun count u hu => h (count + 1) u ?_
      rw [List.take_succ_cons, Value.follow?, hw]
      exact hu

theorem Regular.not_meetsList_root {raw : Value} (h : Regular raw) (hlist : raw.isArray = false) (root : Root) :
    raw.meetsList root.keys = false := by
  refine Value.not_meetsList fun count w hw => ?_
  cases root with
  | schema index =>
    rcases count with _ | _ | _ | count
    · cases hw; exact hlist
    · exact (h.components w hw).not_isArray
    · exact (h.schemas w hw).not_isArray
    · exact (h.root (.schema index) w (by simpa [Root.keys] using hw)).not_isArray
  | parameter side index slot =>
    rcases count with _ | _ | _ | count
    · cases hw; exact hlist
    · exact (h.functions side w hw).not_isArray
    · exact (h.function side index w hw).not_isArray
    · exact (h.root (.parameter side index slot) w (by simpa [Root.keys] using hw)).not_isArray

namespace Structure

/-- Map values that are written as a list are found wrong. -/
theorem Walked.not_isArray_mapValues {schemas : List String} {v w : Value} {d : Definition} (h : Walked schemas v d)
    (hw : v.follow? Way.mapValues.keys = some w) : w.isArray = false := by
  obtain ⟨_, ⟨place, _, hwalk⟩, _⟩ := h
  obtain ⟨_, hmember, hnil⟩ := Option.bind_eq_some_iff.mp hw
  cases hnil
  cases v with
  | object members =>
    have hcheck := (walk_object.mp hwalk).1 rfl
    unfold checkDescription at hcheck
    simp only [List.append_eq_nil_iff] at hcheck
    obtain ⟨⟨⟨_, hvalues⟩, _⟩, _⟩ := hcheck
    cases w with
    | array items =>
      unfold checkMapValues at hvalues
      rw [present?_eq_some hmember (by simp)] at hvalues
      cases hvalues
    | _ => rfl
  | _ => cases hmember

/-- Below a description that was walked over, every definition is checked if properties and items
are written as objects. -/
theorem Walked.checked_of_records {schemas : List String} {ways : List Way} {v : Value} {d x : Definition}
    (h : Walked schemas v d) (hlist : v.isArray = false)
    (hrecords : ∀ ways (way : Way) w, way ≠ .mapValues →
      v.follow? ((ways ++ [way]).flatMap Way.keys) = some w → w.IsRecord)
    (hx : d.follow? ways = some x) : Checked schemas x := by
  induction ways generalizing v d with
  | nil => cases hx; exact h.checked hlist
  | cons way ways ih =>
    obtain ⟨y, hy, hx⟩ := Option.bind_eq_some_iff.mp hx
    rcases h.below hlist hy with rfl | ⟨w, hw, hbelow⟩
    · exact Or.inl (eq_empty_of_follow? hx)
    · refine ih hbelow ?_ (fun ways' way' u hne hu => ?_) hx
      · by_cases hway : way = .mapValues
        · subst hway
          exact h.not_isArray_mapValues hw
        · exact (hrecords [] way w hway (by simpa using hw)).not_isArray
      · refine hrecords (way :: ways') way' u hne ?_
        rw [List.cons_append, List.flatMap_cons, Value.follow?_append, hw]
        exact hu

end Structure

/-! ## Their names -/

namespace FunctionDocument

variable {raw : Value} {doc : FunctionDocument}

/-- A document is written as an object, or as a list. -/
theorem object_of_read (h : FunctionDocument.read raw = .ok doc) (hlist : raw.isArray = false) :
    ∃ members, raw = .object members := by
  obtain ⟨_, hfold, _⟩ := bind_eq_ok.mp h
  exact Record.object_of_fold hfold hlist

/-- A map that a member of its name is read from has the keys of that member. -/
theorem keys_of_given {α : Type} {absent : α} {read : Value → Result α} {members : List (String × Value)}
    {key : String} {xs : Keyed α} (h : Given members key (fun v => named absent read v = .ok xs) (xs = [])) :
    Keyed.keys xs = Keyed.keys (Structure.membersAt (.object members) [key]) := by
  unfold Given at h
  simp only [Structure.membersAt, Value.get?]
  cases hv : Keyed.get? members key with
  | none =>
    simp only [hv] at h ⊢
    rw [h]
    rfl
  | some v =>
    simp only [hv] at h ⊢
    rcases keys_of_named h with ⟨rfl, hnil⟩ | ⟨entries, rfl, hkeys⟩
    · rw [hnil]; rfl
    · exact hkeys

theorem keys_functions (hraw : raw.Unrepeated) (h : FunctionDocument.read raw = .ok doc)
    (hlist : raw.isArray = false) (side : Side) :
    Keyed.keys (doc.functions side) = Keyed.keys (Structure.membersAt raw [side.key]) := by
  obtain ⟨members, rfl⟩ := object_of_read h hlist
  exact keys_of_given ((parts_of_read (Value.unrepeated_object.mp hraw).1 h).functions side)

theorem keys_schemas (hraw : raw.Unrepeated) (h : FunctionDocument.read raw = .ok doc) (hlist : raw.isArray = false)
    (hcomponents : ∀ v, raw.follow? [.field "components"] = some v → v.isArray = false) :
    Keyed.keys doc.schemas = Structure.schemaNames raw := by
  obtain ⟨members, rfl⟩ := object_of_read h hlist
  obtain ⟨hnodup, hmembers⟩ := Value.unrepeated_object.mp hraw
  have hschemas := (parts_of_read hnodup h).schemas
  unfold Given at hschemas
  rw [Structure.schemaNames_eq, Structure.membersAt, Value.get?]
  cases hv : Keyed.get? members "components" with
  | none =>
    simp only [hv] at hschemas
    rw [hschemas]
    rfl
  | some v =>
    simp only [hv] at hschemas
    rcases hschemas with ⟨hnull, hnil⟩ | hread
    · rw [hnil]
      cases v with
      | null => rfl
      | _ => cases hnull
    have hfollow : Value.follow? (.object members) [.field "components"] = some v := by
      simp [Value.follow?, Value.member?, hv]
    obtain ⟨components, rfl⟩ := Record.object_of_fold hread (hcomponents v hfollow)
    have hunrepeated := hmembers _ (Keyed.mem_of_get? hv)
    exact keys_of_given (schemas_of_readComponents (Value.unrepeated_object.mp hunrepeated).1 hread)

end FunctionDocument

/-! ## All definitions -/

/-- In a regular document that is read and in order, every definition is proper and every function
and schema has an identifier for a name. -/
theorem proper_of_regular {raw : Value} {doc : FunctionDocument} (hraw : raw.Unrepeated) (hlist : raw.isArray = false)
    (hregular : Regular raw) (hcheck : Structure.check raw = []) (hread : FunctionDocument.read raw = .ok doc) :
    (∀ root ways d, doc.definition? root ways = some d → d.Proper (Keyed.keys doc.schemas)) ∧
      (∀ side, ∀ name ∈ Keyed.keys (doc.functions side), Identifier.isValid name = true) ∧
      ∀ name ∈ Keyed.keys doc.schemas, Identifier.isValid name = true := by
  have hcomponents : ∀ v, raw.follow? [.field "components"] = some v → v.isArray = false :=
    fun v hv => (hregular.components v hv).not_isArray
  have hschemas := FunctionDocument.keys_schemas hraw hread hlist hcomponents
  obtain ⟨hdeclarations, hwalk⟩ := List.append_eq_nil_iff.mp hcheck
  rw [Structure.checkDeclarations] at hdeclarations
  simp only [List.append_eq_nil_iff, List.flatMap_eq_nil_iff, Structure.checkName_eq_nil] at hdeclarations
  obtain ⟨⟨hexports, himports⟩, hnames⟩ := hdeclarations
  refine ⟨?_, ?_, fun name hname => hnames name (hschemas ▸ hname)⟩
  · intro root ways d hd
    obtain ⟨r, hroot, hfollow⟩ := Option.bind_eq_some_iff.mp hd
    rw [hschemas]
    have hlistRoot := hregular.not_meetsList_root hlist root
    rcases FunctionDocument.read_root hraw hread hlistRoot hroot with rfl | ⟨w, source, hw, hdefinition⟩
    · rw [Structure.eq_empty_of_follow? hfollow]
      exact Structure.Checked.proper (Or.inl rfl)
    · have hwalked : Structure.Walked (Structure.schemaNames raw) w r :=
        ⟨hraw.follow? hw, Structure.walk_root hwalk hw, source, hdefinition⟩
      refine (hwalked.checked_of_records (hregular.root root w hw).not_isArray ?_ hfollow).proper
      intro ways way u hne hu
      refine hregular.member root ways way u hne ?_
      rw [placeKeys, Value.follow?_append, hw]
      exact hu
  · intro side name hname
    rw [FunctionDocument.keys_functions hraw hread hlist side] at hname
    have hside : Structure.checkFunctions raw side.key = [] := by cases side <;> assumption
    rw [Structure.checkFunctions_eq, List.flatMap_eq_nil_iff] at hside
    obtain ⟨e, he, rfl⟩ := List.mem_map.mp hname
    have := hside e he
    simp only [List.append_eq_nil_iff, Structure.checkName_eq_nil] at this
    exact this.1.1

end BindingSchema
