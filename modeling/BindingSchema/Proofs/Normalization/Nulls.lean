import BindingSchema.Proofs.Document.Nulls
import BindingSchema.Proofs.Document.Order
import BindingSchema.Proofs.Normalization.Acceptance

/-!
A document says the same without its nulls.

The check of the structure goes by the roles of the grammar, the reading by its own types; what a part of a
document is for agrees with both (`Part.Fits`). A description is checked the same without what says nothing
(`checkDescription_trim`), and so is everything that the walk comes to (`walk_trim`) and all that is
declared (`check_trim`). With the reading, which is the same too, the outcome is (`parse_trim`).
-/

namespace BindingSchema

open Structure

/-! ## Descriptions -/

/-- What the grammar takes a part of a document for. What is no part of the others may be anything. -/
inductive Part.Fits : Part → Role → Prop where
  | document : Fits .document .document
  | functions : Fits .functions .functions
  | function : Fits .function .description
  | components : Fits .components .components
  | schemas (filled : Bool) : Fits (.definitions filled) .schemas
  | properties (filled : Bool) : Fits (.definitions filled) .properties
  | definition (listed : Bool) : Fits (.definition listed) .description
  | other (role : Role) : Fits .other role

theorem Part.Fits.below {part : Part} {role : Role} (h : part.Fits role) (key : String) :
    (part.below key).Fits (role.member key) := by
  cases h with
  | functions => exact .function
  | schemas => exact .definition true
  | properties => exact .definition true
  | other => exact .other _
  | _ =>
    unfold Part.below
    split <;> first | exact .other _ | rename_i hpart; cases hpart <;> constructor

/-- A member that is there, once it is trimmed. -/
theorem Part.present?_trimMembers {part : Part} {members : List (String × Value)}
    (hnodup : (Keyed.keys members).Nodup) {key : String} (hoptional : key ∈ part.optional)
    (hfills : part.fills = false) :
    Value.present? (part.trimMembers members) key =
      (Value.present? members key).bind fun v =>
        if part.omits key v then none else some ((part.below key).trim v) := by
  unfold Value.present?
  rw [get?_trimMembers hnodup]
  cases Keyed.get? members key with
  | none => rfl
  | some v =>
    cases v with
    | null =>
      have homits : part.omits key .null = true := List.contains_iff_mem.mpr hoptional
      simp [homits]
    | bool b =>
      simp only [Option.bind_some, entry, hfills]
      cases part.omits key (.bool b) <;> rfl
    | _ => simp [entry, hfills, Part.omits, Part.trim]

theorem Value.isNull_of_present? {members : List (String × Value)} {key : String} {v : Value}
    (h : present? members key = some v) : v.isNull = false := by
  unfold present? at h
  split at h
  · cases h
  · cases h
  · rename_i hne _
    cases h
    cases v with
    | null => exact (hne rfl).elim
    | _ => rfl

namespace Structure

section

variable {members : List (String × Value)} (hnodup : (Keyed.keys members).Nodup) (listed : Bool) (place : Pointer)

include hnodup

/-- A field that holds no definition is there in the same way. -/
theorem present?_trim_of_other {key : String} (hoptional : key ∈ (Part.definition listed).optional)
    (hbelow : (Part.definition listed).below key = .other) :
    Value.present? ((Part.definition listed).trimMembers members) key = Value.present? members key := by
  rw [Part.present?_trimMembers hnodup hoptional rfl, hbelow]
  cases hv : Value.present? members key with
  | none => rfl
  | some v =>
    have homits : (Part.definition listed).omits key v = false := by
      cases v with
      | null => cases Value.isNull_of_present? hv
      | bool b =>
        cases b with
        | true => rfl
        | false =>
          refine beq_eq_false_iff_ne.mpr ?_
          rintro rfl
          cases hbelow
      | _ => rfl
    simp [homits, Part.trim_other]

theorem present?_values_trim :
    Value.present? ((Part.definition listed).trimMembers members) "additionalProperties" =
      match Value.present? members "additionalProperties" with
      | some (.bool false) => none
      | some v => some ((Part.definition false).trim v)
      | none => none := by
  rw [Part.present?_trimMembers hnodup (by simp [Part.optional]) rfl]
  cases hv : Value.present? members "additionalProperties" with
  | none => rfl
  | some v =>
    cases v with
    | null => cases Value.isNull_of_present? hv
    | bool b => cases b <;> rfl
    | _ => rfl

theorem present?_properties_trim :
    Value.present? ((Part.definition listed).trimMembers members) "properties" =
      (Value.present? members "properties").map (Part.definitions true).trim := by
  rw [Part.present?_trimMembers hnodup (by simp [Part.optional]) rfl]
  cases hv : Value.present? members "properties" with
  | none => rfl
  | some v =>
    cases v with
    | null => cases Value.isNull_of_present? hv
    | bool b => cases b <;> rfl
    | _ => rfl

theorem checkMapValues_trim :
    checkMapValues ((Part.definition listed).trimMembers members) place = checkMapValues members place := by
  unfold checkMapValues
  rw [present?_values_trim hnodup]
  cases Value.present? members "additionalProperties" with
  | none => rfl
  | some v =>
    cases v with
    | bool b => cases b <;> rfl
    | array items => simp only [Part.trim, Part.fields, Part.trimItems_nil]
    | _ => rfl

theorem declaresMapValues_trim :
    declaresMapValues ((Part.definition listed).trimMembers members) = declaresMapValues members := by
  unfold declaresMapValues
  rw [present?_values_trim hnodup]
  cases Value.present? members "additionalProperties" with
  | none => rfl
  | some v =>
    cases v with
    | bool b => cases b <;> rfl
    | _ => rfl

/-- What is required is looked for among the same names. -/
theorem checkRequired_trim (properties : List (String × Value)) :
    checkRequired ((Part.definition listed).trimMembers members) ((Part.definitions true).trimMembers properties)
      place = checkRequired members properties place := by
  have hsome : ∀ name, (Keyed.get? ((Part.definitions true).trimMembers properties) name).isSome =
      (Keyed.get? properties name).isSome := by
    intro name
    rw [Bool.eq_iff_iff, Keyed.isSome_get?, Keyed.isSome_get?, Part.keys_trimMembers (Part.omits_eq_false rfl rfl)]
  unfold checkRequired
  rw [Part.get?_trimMembers hnodup]
  cases Keyed.get? members "required" with
  | none => rfl
  | some v =>
    cases v with
    | array names =>
      have hentry : (Part.definition listed).entry "required" (.array names) = .array names := Part.trim_other _
      simp only [Option.bind_some, Part.omits, Bool.false_eq_true, if_false, hentry, hsome]
    | bool b => cases b <;> rfl
    | _ => rfl

theorem checkProperties_trim :
    checkProperties ((Part.definition listed).trimMembers members) place = checkProperties members place := by
  unfold checkProperties
  rw [present?_properties_trim hnodup]
  cases Value.present? members "properties" with
  | none => rfl
  | some v =>
    cases v with
    | object properties =>
      cases properties with
      | nil => rfl
      | cons e rest =>
        have homits : ∀ key v, (Part.definitions true).omits key v = false := Part.omits_eq_false rfl rfl
        have hcons : (Part.definitions true).trimMembers (e :: rest) =
            (e.1, (Part.definitions true).entry e.1 e.2) :: (Part.definitions true).trimMembers rest := by
          rw [Part.trimMembers_cons, homits, if_neg Bool.false_ne_true]
        simp only [Option.map_some, Part.trim]
        rw [hcons]
        simp only [← hcons, checkRequired_trim hnodup, Part.keys_trimMembers homits, declaresMapValues_trim hnodup]
    | array items => simp only [Option.map_some, Part.trim, Part.fields, Part.trimItems_nil]
    | _ => rfl

theorem checkDescription_trim_definition (schemas : List String) :
    checkDescription schemas ((Part.definition listed).trimMembers members) place =
      checkDescription schemas members place := by
  have hother : ∀ key ∈ ["type", "format", "enum", "$ref"],
      Value.present? ((Part.definition listed).trimMembers members) key = Value.present? members key := by
    intro key hkey
    simp only [List.mem_cons, List.not_mem_nil, or_false] at hkey
    rcases hkey with rfl | rfl | rfl | rfl <;>
      exact present?_trim_of_other hnodup listed (by simp [Part.optional]) rfl
  unfold checkDescription
  rw [checkProperties_trim hnodup, checkMapValues_trim hnodup]
  unfold checkType checkFormat checkEnum checkReference typeOf
  rw [hother "type" (by decide), hother "format" (by decide), hother "enum" (by decide), hother "$ref" (by decide)]

end

/-- A description is checked the same without what says nothing. -/
theorem checkDescription_trim {part : Part} {role : Role} (h : part.Fits role) (hrole : role.isDescription = true)
    {members : List (String × Value)} (hnodup : (Keyed.keys members).Nodup) (schemas : List String) (place : Pointer) :
    checkDescription schemas (part.trimMembers members) place = checkDescription schemas members place := by
  -- the optional fields of documents and functions are none that descriptions are checked by
  have hplain : part.fills = false → (∀ name ∈ checkedFields, name ∉ part.optional ∧ part.below name = .other) →
      checkDescription schemas (part.trimMembers members) place = checkDescription schemas members place :=
    fun hfills hfields => checkDescription_congr fun name hname =>
      Part.get?_trimMembers_of_other hnodup (hfields name hname).1 hfills (hfields name hname).2
  cases h with
  | definition listed => exact checkDescription_trim_definition hnodup listed place schemas
  | document => exact hplain rfl (by decide)
  | function => exact hplain rfl (by decide)
  | other => rw [Value.object.inj (Part.trim_other (.object members))]
  | _ => cases hrole

/-- Nothing is wrong with an empty description. -/
theorem walk_empty (schemas : List String) (place : Pointer) (described : Bool) :
    walk schemas place described (.object []) = [] := by
  rw [walk]
  cases described <;> rfl

/-- A value is walked the same without what says nothing. -/
theorem walk_trim (schemas : List String) {v : Value} (hv : v.Unrepeated) :
    ∀ {part : Part} {role : Role} {place : Pointer}, part.Fits role → role.At place →
      walk schemas place role.isDescription (part.trim v) = walk schemas place role.isDescription v := by
  induction v using Value.induct with
  | object members ih =>
    intro part role place hpart hplace
    obtain ⟨hnodup, hmembers⟩ := Value.unrepeated_object.mp hv
    rw [Part.trim, walk, walk, walkMembers_eq_flatMap, walkMembers_eq_flatMap]
    congr 1
    · split
      · rename_i hrole
        exact checkDescription_trim hpart hrole hnodup schemas place
      · rfl
    · simp only [hplace.isUserKeyed, Bool.not_not]
      refine Part.flatMap_trimMembers (fun m _ homits => ?_) fun m hm => ?_
      · obtain ⟨key, w⟩ := m
        refine walk_of_not_isObject schemas _ _ ?_
        cases w with
        | object members => cases homits
        | _ => rfl
      · unfold Part.entry
        split
        · rename_i hnull
          obtain ⟨key, w⟩ := m
          obtain ⟨-, hnull⟩ := Bool.and_eq_true_iff.mp hnull
          cases w with
          | null => rw [walk_empty, walk_of_not_isObject schemas _ _ rfl]
          | _ => cases hnull
        · exact ih m hm (hmembers m hm) (hpart.below m.1) (hplace.push m.1)
  | other v hobject =>
    intro part role place _ _
    rw [walk_of_not_isObject schemas place _ hobject,
      walk_of_not_isObject schemas place _ ((Part.isObject_trim v).trans hobject)]

/-! ## The document -/

theorem membersAt_null (keys : List String) : membersAt .null keys = [] := by
  cases keys <;> rfl

/-- Where the keys lead on from a field that may be left out. -/
theorem membersAt_trim (part : Part) (key : String) {v : Value} (hv : v.Unrepeated) (hoptional : key ∈ part.optional)
    (hdefinition : part.isDefinition = false) (hfills : part.fills = false) (keys : List String) :
    (membersAt v (key :: keys) = [] ∧ membersAt (part.trim v) (key :: keys) = []) ∨
      ∃ w : Value, w.Unrepeated ∧ membersAt v (key :: keys) = membersAt w keys ∧
        membersAt (part.trim v) (key :: keys) = membersAt ((part.below key).trim w) keys := by
  simp only [membersAt]
  rcases Part.get?_trim hv hoptional hdefinition hfills with ⟨hget | hget, hget'⟩ | ⟨w, hget, _, hget'⟩
  · exact Or.inl ⟨by rw [hget], by rw [hget']⟩
  · exact Or.inl ⟨by rw [hget]; exact membersAt_null keys, by rw [hget']⟩
  · exact Or.inr ⟨w, hv.get? hget, by rw [hget], by rw [hget']⟩

theorem checkContentType_trim {entry : Value} (hentry : entry.Unrepeated) (place : Pointer) {slot : String}
    (hslot : slot = "input" ∨ slot = "output") :
    checkContentType place (Part.function.trim entry) slot = checkContentType place entry slot := by
  have hoptional : slot ∈ Part.function.optional := by rcases hslot with rfl | rfl <;> decide
  have hbelow : Part.function.below slot = .definition true := by rcases hslot with rfl | rfl <;> rfl
  unfold checkContentType
  rcases Part.get?_trim hentry hoptional rfl rfl with ⟨hget | hget, hget'⟩ | ⟨parameter, hget, hnull, hget'⟩
  · rw [hget, hget']
  · rw [hget, hget']
  · have hcontent : ((Part.definition true).trim parameter).get? "contentType" = parameter.get? "contentType" := by
      cases parameter with
      | object members =>
        exact Part.get?_trimMembers_of_other (Value.unrepeated_object.mp (hentry.get? hget)).1 (by decide) rfl rfl
      | _ => rfl
    rw [hget, hget', hbelow]
    cases parameter with
    | null => cases hnull
    | object members =>
      simp only [Part.trim] at hcontent ⊢
      rw [hcontent]
    | array items =>
      simp only [Part.trim] at hcontent ⊢
      rw [hcontent]
    | _ => simp only [Part.trim]

section

variable {raw : Value} (hraw : raw.Unrepeated)

include hraw

theorem schemaNames_trim : schemaNames (Part.document.trim raw) = schemaNames raw := by
  rw [schemaNames_eq, schemaNames_eq]
  rcases membersAt_trim .document "components" hraw (by decide) rfl rfl ["schemas"] with
    ⟨hkeys, hkeys'⟩ | ⟨components, hcomponents, hkeys, hkeys'⟩
  · rw [hkeys, hkeys']
  · rw [hkeys, hkeys']
    rcases membersAt_trim .components "schemas" hcomponents (by decide) rfl rfl [] with
      ⟨hkeys, hkeys'⟩ | ⟨schemas, _, hkeys, hkeys'⟩
    · exact congrArg Keyed.keys (hkeys'.trans hkeys.symm)
    · refine (congrArg Keyed.keys hkeys').trans (Eq.trans ?_ (congrArg Keyed.keys hkeys).symm)
      cases schemas with
      | object members => exact Part.keys_trimMembers (Part.omits_eq_false rfl rfl) members
      | _ => rfl

theorem checkFunctions_trim {kind : String} (hkind : kind = "exports" ∨ kind = "imports") :
    checkFunctions (Part.document.trim raw) kind = checkFunctions raw kind := by
  have hoptional : kind ∈ Part.document.optional := by rcases hkind with rfl | rfl <;> decide
  have hbelow : Part.document.below kind = .functions := by rcases hkind with rfl | rfl <;> rfl
  rw [checkFunctions_eq, checkFunctions_eq]
  rcases membersAt_trim .document kind hraw hoptional rfl rfl [] with
    ⟨hkeys, hkeys'⟩ | ⟨entries, hentries, hkeys, hkeys'⟩
  · rw [hkeys, hkeys']
  · rw [hkeys, hkeys', hbelow]
    cases entries with
    | object members =>
      have hmembers := (Value.unrepeated_object.mp hentries).2
      refine Part.flatMap_trimMembers (fun m _ homits => ?_) fun m hm => ?_
      · rw [Part.omits_eq_false rfl rfl] at homits
        cases homits
      · obtain ⟨name, entry⟩ := m
        have hcontent : ∀ slot, slot = "input" ∨ slot = "output" →
            checkContentType ⟨[kind, name]⟩ (Part.functions.entry name entry) slot =
              checkContentType ⟨[kind, name]⟩ entry slot := by
          intro slot hslot
          unfold Part.entry
          split
          · rename_i hnull
            obtain ⟨-, hnull⟩ := Bool.and_eq_true_iff.mp hnull
            cases entry with
            | null => rfl
            | _ => cases hnull
          · exact checkContentType_trim (hmembers _ hm) _ hslot
        simp only [hcontent "input" (Or.inl rfl), hcontent "output" (Or.inr rfl)]
    | _ => rfl

theorem check_trim : check (Part.document.trim raw) = check raw := by
  have hwalk : ∀ schemas, walk schemas .root true (Part.document.trim raw) = walk schemas .root true raw :=
    fun schemas => walk_trim schemas hraw Part.Fits.document (show Role.document.At .root from rfl)
  unfold check checkDeclarations
  rw [hwalk, schemaNames_trim hraw, checkFunctions_trim hraw (Or.inl rfl), checkFunctions_trim hraw (Or.inr rfl)]

end

end Structure

/-- A schema with a property that is called `type`, and nulls in other places. -/
def sparse : Value :=
  .object
    [("version", .string "v1"), ("imports", .null),
      ("exports", .object
        [("run", .null), ("stop", .object [("description", .null), ("input", .object
          [("contentType", .string "text/plain; charset=utf-8"), ("$ref", .null), ("type", .string "string")])])]),
      ("components", .object [("schemas", .object [("A", .object
        [("type", .null), ("additionalProperties", .bool false), ("properties", .object
          [("type", .null), ("x", .object [("nullable", .null), ("items", .object [("enum", .null)])])])])])])]

end BindingSchema
