import BindingSchema.Proofs.Document.Records

/-!
Documents without what says nothing.

What may be left out of an object depends on what the object is for, which follows from where it stands
(`Part`, `Part.below`). `Part.trim` leaves out all of it: the fields that are null and map values that are
`false`. An entry of the author's own name is never left out; if it is null it is written as an empty
object. A value that is no part of a document keeps its members (`trim_other`), and so does any member
that is there in the trimmed object (`get?_trimMembers`).
-/

namespace BindingSchema

/-! ## Parts of a document -/

/-- What a value in a document is for. -/
inductive Part where
  | document
  /-- Functions by name: the exports or the imports. -/
  | functions
  | function
  | components
  /-- Definitions by name: the schemas, or the properties of a definition. `filled` tells whether its null
  entries are to be written as empty ones. -/
  | definitions (filled : Bool)
  /-- `listed` tells whether it may be written as the list of its fields. -/
  | definition (listed : Bool)
  /-- Anything that is no part of the others. -/
  | other
  deriving DecidableEq

namespace Part

/-- The fields that may be null. -/
def optional : Part → List String
  | document => ["exports", "imports", "components"]
  | components => ["schemas"]
  | function => ["description", "codeSamples", "input", "output"]
  | definition _ =>
    ["type", "format", "description", "nullable", "items", "additionalProperties", "properties", "required", "enum",
      "$ref"]
  | functions | definitions _ | other => []

def isDefinition : Part → Bool
  | definition _ => true
  | _ => false

/-- Whether a member says the same as no member. -/
def omits (part : Part) (key : String) : Value → Bool
  | .null => part.optional.contains key
  | .bool false => part.isDefinition && key == "additionalProperties"
  | _ => false

/-- Whether null entries are written as empty ones. -/
def fills : Part → Bool
  | functions | definitions true => true
  | _ => false

/-- What the member `key` of an object is for. -/
def below : Part → String → Part
  | document, "exports" | document, "imports" => functions
  | document, "components" => components
  | components, "schemas" => definitions true
  | functions, _ => function
  | function, "input" | function, "output" => definition true
  | definitions _, _ => definition true
  | definition _, "items" => definition true
  | definition _, "additionalProperties" => definition false
  | definition _, "properties" => definitions true
  | _, _ => other

/-- The fields of a part that may be written as a list. -/
def fields : Part → List String
  | components => FunctionDocument.componentsRecord.fields
  | function => FunctionDefinition.record.fields
  | definition true => Definition.record.fields
  | _ => []

/-- What the item of the list that stands for the field is for. -/
def item : Part → String → Part
  | definition _, "additionalProperties" => definition true
  | definition _, "properties" => definitions false
  | part, field => part.below field

mutual

/-- The value without what says nothing. -/
def trim (part : Part) : Value → Value
  | .object members => .object (trimMembers part members)
  | .array items => .array (trimItems part part.fields items)
  | v => v

def trimMembers (part : Part) : List (String × Value) → List (String × Value)
  | [] => []
  | (key, v) :: rest =>
    if part.omits key v then trimMembers part rest
    else (key, if part.fills && v.isNull then .object [] else trim (part.below key) v) :: trimMembers part rest

def trimItems (part : Part) : List String → List Value → List Value
  | field :: fields, v :: rest => trim (part.item field) v :: trimItems part fields rest
  | _, items => items

end

/-- The value of a member that is kept. -/
def entry (part : Part) (key : String) (v : Value) : Value :=
  if part.fills && v.isNull then .object [] else (part.below key).trim v

variable {part : Part}

theorem trimMembers_eq (members : List (String × Value)) :
    part.trimMembers members =
      members.filterMap fun m => if part.omits m.1 m.2 then none else some (m.1, part.entry m.1 m.2) := by
  induction members with
  | nil => rfl
  | cons m rest ih =>
    obtain ⟨key, v⟩ := m
    rw [trimMembers, ih, List.filterMap_cons]
    cases part.omits key v <;> rfl

theorem trimMembers_cons (m : String × Value) (rest : List (String × Value)) :
    part.trimMembers (m :: rest) =
      if part.omits m.1 m.2 then part.trimMembers rest else (m.1, part.entry m.1 m.2) :: part.trimMembers rest := by
  obtain ⟨key, v⟩ := m
  rw [trimMembers]
  rfl

theorem isNull_trim (v : Value) : (part.trim v).isNull = v.isNull := by
  cases v <;> rfl

theorem isObject_trim (v : Value) : (part.trim v).isObject = v.isObject := by
  cases v <;> rfl

theorem trim_of_scalar {v : Value} (hobject : v.isObject = false) (harray : v.asArray? = none) : part.trim v = v := by
  cases v with
  | object members => cases hobject
  | array items => cases harray
  | _ => rfl

theorem trimItems_nil (items : List Value) : part.trimItems [] items = items := by
  cases items <;> rfl

theorem length_trimItems (fields : List String) (items : List Value) :
    (part.trimItems fields items).length = items.length := by
  induction items generalizing fields with
  | nil => cases fields <;> rfl
  | cons v rest ih =>
    cases fields with
    | nil => rfl
    | cons field fields => rw [trimItems, List.length_cons, ih, List.length_cons]

theorem zip_trimItems (fields : List String) (items : List Value) :
    fields.zip (part.trimItems fields items) = (fields.zip items).map fun e => (e.1, (part.item e.1).trim e.2) := by
  induction items generalizing fields with
  | nil => cases fields <;> rfl
  | cons v rest ih =>
    cases fields with
    | nil => rfl
    | cons field fields => rw [trimItems, List.zip_cons_cons, ih]; rfl

/-- Where there are no fields, every member is kept. -/
theorem omits_eq_false (hoptional : part.optional = []) (hdefinition : part.isDefinition = false) (key : String)
    (v : Value) : part.omits key v = false := by
  unfold omits
  split
  · rw [hoptional]
    rfl
  · rw [hdefinition]
    rfl
  · rfl

theorem trimMembers_eq_map (homits : ∀ key v, part.omits key v = false) (members : List (String × Value)) :
    part.trimMembers members = members.map fun m => (m.1, part.entry m.1 m.2) := by
  rw [trimMembers_eq, ← List.filterMap_eq_map]
  exact List.filterMap_congr fun m _ => by simp [homits]

theorem keys_trimMembers (homits : ∀ key v, part.omits key v = false) (members : List (String × Value)) :
    Keyed.keys (part.trimMembers members) = Keyed.keys members := by
  rw [trimMembers_eq_map homits, Keyed.keys, List.map_map, Keyed.keys]
  rfl

theorem flatMap_trimMembers {β : Type} {f : String × Value → List β} {members : List (String × Value)}
    (homitted : ∀ m ∈ members, part.omits m.1 m.2 = true → f m = [])
    (hkept : ∀ m ∈ members, f (m.1, part.entry m.1 m.2) = f m) :
    (part.trimMembers members).flatMap f = members.flatMap f := by
  induction members with
  | nil => rfl
  | cons m rest ih =>
    obtain ⟨hm, homitted⟩ := List.forall_mem_cons.mp homitted
    obtain ⟨hkeep, hkept⟩ := List.forall_mem_cons.mp hkept
    rw [trimMembers_cons, List.flatMap_cons, ← ih homitted hkept]
    split
    · rename_i homits
      rw [hm homits, List.nil_append]
    · rw [List.flatMap_cons, hkeep]

/-- What is no part of the others is kept as it is. -/
theorem trim_other (v : Value) : other.trim v = v := by
  induction v using Value.inductItems with
  | object members ih =>
    rw [trim, trimMembers_eq_map (omits_eq_false rfl rfl)]
    refine congrArg Value.object ((List.map_congr_left fun m hm => ?_).trans (List.map_id members))
    exact congrArg (Prod.mk m.1) (ih m hm)
  | array items => exact congrArg Value.array (trimItems_nil items)
  | other v hobject harray => exact trim_of_scalar hobject harray

/-- What is found under a key that comes once. -/
theorem get?_trimMembers {members : List (String × Value)} (hnodup : (Keyed.keys members).Nodup) (key : String) :
    Keyed.get? (part.trimMembers members) key =
      (Keyed.get? members key).bind fun v => if part.omits key v then none else some (part.entry key v) := by
  induction members with
  | nil => rfl
  | cons m rest ih =>
    obtain ⟨name, v⟩ := m
    obtain ⟨hnotMem, hnodup⟩ := List.nodup_cons.mp hnodup
    rw [trimMembers_cons]
    by_cases hname : name = key
    · subst hname
      rw [Keyed.get?_eq_none hnotMem] at ih
      cases homits : part.omits name v with
      | true => simp [Keyed.get?, homits, ih hnodup]
      | false => simp [Keyed.get?, homits]
    · cases homits : part.omits name v with
      | true => simpa [Keyed.get?, hname] using ih hnodup
      | false => simpa [Keyed.get?, hname] using ih hnodup

theorem mem_optional_of_omits {key : String} {v : Value} (h : part.omits key v = true) : key ∈ part.optional := by
  unfold omits at h
  split at h
  · exact List.contains_iff_mem.mp h
  · obtain ⟨hdefinition, hkey⟩ := Bool.and_eq_true_iff.mp h
    rw [beq_iff_eq.mp hkey]
    cases part with
    | definition listed => simp [optional]
    | _ => cases hdefinition
  · cases h

/-- A member that may not be left out and is no part of the others stays as it is. -/
theorem get?_trimMembers_of_other {members : List (String × Value)} (hnodup : (Keyed.keys members).Nodup) {key : String}
    (hoptional : key ∉ part.optional) (hfills : part.fills = false) (hbelow : part.below key = .other) :
    Keyed.get? (part.trimMembers members) key = Keyed.get? members key := by
  rw [get?_trimMembers hnodup]
  cases Keyed.get? members key with
  | none => rfl
  | some v =>
    have homits : part.omits key v = false := Bool.eq_false_iff.mpr fun h => hoptional (mem_optional_of_omits h)
    simp [homits, entry, hfills, hbelow, trim_other]

/-- A field that may be left out is missing or null, and missing once trimmed; or it is there, and trimmed. -/
theorem get?_trim {v : Value} (hv : v.Unrepeated) {key : String} (hoptional : key ∈ part.optional)
    (hdefinition : part.isDefinition = false) (hfills : part.fills = false) :
    ((v.get? key = none ∨ v.get? key = some .null) ∧ (part.trim v).get? key = none) ∨
      ∃ w, v.get? key = some w ∧ w.isNull = false ∧ (part.trim v).get? key = some ((part.below key).trim w) := by
  cases v with
  | object members =>
    have hget : ((part.trim (.object members)).get? key) = (Keyed.get? members key).bind fun v =>
        if part.omits key v then none else some (part.entry key v) :=
      get?_trimMembers (Value.unrepeated_object.mp hv).1 key
    rw [hget, Value.get?]
    cases Keyed.get? members key with
    | none => exact Or.inl ⟨Or.inl rfl, rfl⟩
    | some w =>
      cases w with
      | null =>
        have homits : part.omits key .null = true := List.contains_iff_mem.mpr hoptional
        exact Or.inl ⟨Or.inr rfl, if_pos homits⟩
      | bool b =>
        have homits : part.omits key (.bool b) = false := by
          cases b with
          | true => rfl
          | false => rw [omits, hdefinition, Bool.false_and]
        refine Or.inr ⟨.bool b, rfl, rfl, ?_⟩
        simp [homits, entry, hfills]
      | _ =>
        refine Or.inr ⟨_, rfl, rfl, ?_⟩
        simp [omits, entry, hfills]
  | _ => exact Or.inl ⟨Or.inl rfl, rfl⟩

end Part

end BindingSchema
