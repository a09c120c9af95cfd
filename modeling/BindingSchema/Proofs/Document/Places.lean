import BindingSchema.Proofs.Document.Records
import BindingSchema.Proofs.Interface.Nodes
import BindingSchema.Structure

/-!
Where the definitions of a document come from in the value it was read from.

A place is where a definition begins, and the ways down from there. It leads to a definition in the
document, and by its keys to a value. As long as no list is met, what is found at a place was
read from the value found by its keys, or is the empty definition that stands for a null or a flag
(`read_below`, `read_root`).
-/

namespace BindingSchema

/-! ## Places in a value -/

namespace Value

/-- A key on the way down a value: a member by its name or by its number. -/
inductive Key where
  | field (name : String)
  | entry (index : Nat)

def member? : Value → Key → Option Value
  | .object members, .field name => Keyed.get? members name
  | .object members, .entry index => members[index]?.map (·.2)
  | _, _ => none

def follow? (v : Value) : List Key → Option Value
  | [] => some v
  | key :: keys => (v.member? key).bind (follow? · keys)

def isArray : Value → Bool
  | .array _ => true
  | _ => false

/-- Whether there is a list on the way, or at its end. -/
def meetsList (v : Value) : List Key → Bool
  | [] => v.isArray
  | key :: keys => v.isArray || (v.member? key).any (meetsList · keys)

theorem not_isArray_of_not_meetsList {v : Value} {keys : List Key} (h : v.meetsList keys = false) :
    v.isArray = false := by
  cases keys with
  | nil => exact h
  | cons key keys => exact (Bool.or_eq_false_iff.mp h).1

theorem meetsList_of_member? {v w : Value} {key : Key} {keys : List Key} (h : v.meetsList (key :: keys) = false)
    (hw : v.member? key = some w) : w.meetsList keys = false := by
  have := (Bool.or_eq_false_iff.mp h).2
  rwa [hw] at this

theorem meetsList_of_follow? {keys keys' : List Key} {v w : Value} (h : v.meetsList (keys ++ keys') = false)
    (hw : v.follow? keys = some w) : w.meetsList keys' = false := by
  induction keys generalizing v with
  | nil => cases hw; exact h
  | cons key keys ih =>
    obtain ⟨u, hu, hw⟩ := Option.bind_eq_some_iff.mp hw
    exact ih (meetsList_of_member? h hu) hw

theorem not_meetsList_of_append {keys keys' : List Key} {v : Value} (h : v.meetsList (keys ++ keys') = false) :
    v.meetsList keys = false := by
  induction keys generalizing v with
  | nil => exact not_isArray_of_not_meetsList h
  | cons key keys ih =>
    refine Bool.or_eq_false_iff.mpr ⟨not_isArray_of_not_meetsList h, ?_⟩
    cases hw : v.member? key with
    | none => rfl
    | some w => exact ih (meetsList_of_member? h hw)

theorem exists_mem_of_member? {v w : Value} {key : Key} (hw : v.member? key = some w) :
    ∃ members name, v = .object members ∧ (name, w) ∈ members := by
  cases v with
  | object members =>
    cases key with
    | field name => exact ⟨members, name, rfl, Keyed.mem_of_get? hw⟩
    | entry index =>
      obtain ⟨⟨name, u⟩, hm, rfl⟩ := Option.map_eq_some_iff.mp hw
      exact ⟨members, name, rfl, List.mem_of_getElem? hm⟩
  | _ => cases hw

theorem Unrepeated.follow? {keys : List Key} {v w : Value} (h : v.Unrepeated) (hw : v.follow? keys = some w) :
    w.Unrepeated := by
  induction keys generalizing v with
  | nil => cases hw; exact h
  | cons key keys ih =>
    obtain ⟨u, hu, hrest⟩ := Option.bind_eq_some_iff.mp hw
    obtain ⟨members, name, rfl, hmem⟩ := exists_mem_of_member? hu
    exact ih ((unrepeated_object.mp h).2 _ hmem) hrest

end Value

/-! ## Places in a document -/

open Value (Key)

def Way.keys : Way → List Key
  | .property index => [.field "properties", .entry index]
  | .items => [.field "items"]
  | .mapValues => [.field "additionalProperties"]

def Side.key : Side → String
  | .exported => "exports"
  | .imported => "imports"

def Slot.key : Slot → String
  | .input => "input"
  | .output => "output"

def Root.keys : Root → List Key
  | .schema index => [.field "components", .field "schemas", .entry index]
  | .parameter side index slot => [.field side.key, .entry index, .field slot.key]

namespace Definition

def below? (d : Definition) : Way → Option Definition
  | .property index => d.properties[index]?.map (·.2)
  | .items => d.items
  | .mapValues => d.additionalProperties

def follow? (d : Definition) : List Way → Option Definition
  | [] => some d
  | way :: ways => (d.below? way).bind (follow? · ways)

/-- What holds of a definition if it holds of those right below it holds of every definition. -/
theorem induct {P : Definition → Prop}
    (h : ∀ d : Definition, (∀ e ∈ d.properties, P e.2) → (∀ item, d.items = some item → P item) →
      (∀ value, d.additionalProperties = some value → P value) → P d) : ∀ d, P d := by
  intro d
  induction hd : sizeOf d using Nat.strongRecOn generalizing d with
  | ind size ih =>
    subst hd
    refine h d ?_ ?_ ?_
    · intro e he
      refine ih (sizeOf e.2) ?_ e.2 rfl
      obtain ⟨type, format, description, nullable, items, values, properties, required, enumValues, reference⟩ := d
      have hlt := List.sizeOf_lt_of_mem he
      obtain ⟨name, x⟩ := e
      simp only [mk.sizeOf_spec, Prod.mk.sizeOf_spec] at hlt ⊢
      omega
    · intro item hi
      refine ih (sizeOf item) ?_ item rfl
      obtain ⟨type, format, description, nullable, items, values, properties, required, enumValues, reference⟩ := d
      simp only at hi
      subst hi
      simp only [mk.sizeOf_spec, Option.some.sizeOf_spec]
      omega
    · intro value hv
      refine ih (sizeOf value) ?_ value rfl
      obtain ⟨type, format, description, nullable, items, values, properties, required, enumValues, reference⟩ := d
      simp only at hv
      subst hv
      simp only [mk.sizeOf_spec, Option.some.sizeOf_spec]
      omega

end Definition

def FunctionDefinition.parameter? (f : FunctionDefinition) : Slot → Option ParameterDefinition
  | .input => f.input
  | .output => f.output

namespace FunctionDocument

def functions (doc : FunctionDocument) : Side → Keyed FunctionDefinition
  | .exported => doc.exports
  | .imported => doc.imports

def root? (doc : FunctionDocument) : Root → Option Definition
  | .schema index => doc.schemas[index]?.map (·.2)
  | .parameter side index slot =>
    (doc.functions side)[index]?.bind fun f => (f.2.parameter? slot).map (·.definition)

/-- The definition at a place. Every definition of a document is at some place. -/
def definition? (doc : FunctionDocument) (root : Root) (ways : List Way) : Option Definition :=
  (doc.root? root).bind (·.follow? ways)

end FunctionDocument

/-- The keys of a place. -/
def placeKeys (root : Root) (ways : List Way) : List Key := root.keys ++ ways.flatMap Way.keys

/-! ## Reading -/

open Decode

theorem Decode.Given.some {members : List (String × Value)} {key : String} {P : Value → Prop} {Q : Prop}
    (h : Given members key P Q) (hQ : ¬ Q) : ∃ v, Keyed.get? members key = some v ∧ P v := by
  unfold Given at h
  split at h
  · rename_i v hv
    exact ⟨v, hv, h⟩
  · exact absurd h hQ

/-- A record is written as an object or as a list. -/
theorem Decode.Record.object_of_fold {σ : Type} {record : Record} {source : Source}
    {step : σ → String → Value → Result σ} {s t : σ} {v : Value} (h : record.fold source step s v = .ok t)
    (hlist : v.isArray = false) : ∃ members, v = .object members := by
  cases v with
  | object members => exact ⟨members, rfl⟩
  | array items => cases hlist
  | _ => cases h

/-- And so is a definition. -/
theorem Definition.object_of_read {source : Source} {v : Value} {d : Definition}
    (h : Definition.read source v = .ok d) (hlist : v.isArray = false) : ∃ members, v = .object members := by
  cases v with
  | object members => exact ⟨members, rfl⟩
  | array items => cases hlist
  | _ => simp [Definition.read] at h

/-- What is below a definition was read from what is below its value. -/
theorem Definition.read_below {source : Source} {v : Value} {d x : Definition} {way : Way} (hv : v.Unrepeated)
    (h : Definition.read source v = .ok d) (hlist : v.isArray = false) (hx : d.below? way = some x) :
    x = {} ∨ ∃ w source', v.follow? way.keys = some w ∧ Definition.read source' w = .ok x := by
  obtain ⟨members, rfl⟩ := Definition.object_of_read h hlist
  have hfields := fields_of_read (Value.unrepeated_object.mp hv).1 h
  cases way with
  | property index =>
    obtain ⟨⟨name, y⟩, hy, rfl⟩ := Option.map_eq_some_iff.mp hx
    obtain ⟨v, hv, hentries⟩ := hfields.properties.some (by rintro hnil; rw [hnil] at hy; cases hy)
    obtain ⟨entries, w, rfl, hw, hread⟩ := entry_of_named hentries hy
    rcases hread with ⟨_, rfl⟩ | hread
    · exact Or.inl rfl
    · exact Or.inr ⟨w, source, by simp [Way.keys, Value.follow?, Value.member?, hv, hw], hread⟩
  | items =>
    obtain ⟨w, hw, hitems⟩ := hfields.items.some (by rintro hnil; rw [Definition.below?, hnil] at hx; cases hx)
    rcases hitems with ⟨_, hnone⟩ | ⟨y, hy, hsome⟩
    · rw [Definition.below?, hnone] at hx
      cases hx
    · rw [Definition.below?, hsome] at hx
      cases hx
      exact Or.inr ⟨w, source, by simp [Way.keys, Value.follow?, Value.member?, hw], hy⟩
  | mapValues =>
    obtain ⟨w, hw, hvalues⟩ := hfields.additionalProperties.some
      (by rintro hnil; rw [Definition.below?, hnil] at hx; cases hx)
    unfold mapValues at hvalues
    replace hx : d.additionalProperties = some x := hx
    rw [hx] at hvalues
    split at hvalues
    · cases hvalues
    · cases hvalues
    · cases hvalues
      exact Or.inl rfl
    · obtain ⟨y, hy, hsome⟩ := map_eq_ok.mp hvalues
      cases hsome
      exact Or.inr ⟨w, .inPlace, by simp [Way.keys, Value.follow?, Value.member?, hw], hy⟩

/-! ## Reading a document -/

theorem ParameterDefinition.read_eq_ok {v : Value} {p : ParameterDefinition}
    (h : ParameterDefinition.read v = .ok p) : Definition.read .setAside v = .ok p.definition := by
  cases v with
  | object members =>
    obtain ⟨contentType, _, h⟩ := bind_eq_ok.mp h
    cases contentType with
    | none => cases h
    | some contentType =>
      obtain ⟨d, hd, h⟩ := bind_eq_ok.mp h
      cases h
      exact hd
  | _ => cases h

/-- The inputs and outputs of a function were read from its members of those names. -/
theorem FunctionDefinition.read_parameter {members : List (String × Value)} {f : FunctionDefinition}
    (hnodup : (Keyed.keys members).Nodup) (h : FunctionDefinition.read (.object members) = .ok f) (slot : Slot) :
    Given members slot.key (fun v => optional ParameterDefinition.read v = .ok (f.parameter? slot))
      (f.parameter? slot = none) := by
  have hother : ∀ (s : FunctionDefinition) (name : String) (v : Value) (s' : FunctionDefinition),
      name ≠ slot.key → readField s name v = .ok s' → s'.parameter? slot = s.parameter? slot := by
    intro s name v s' hne h
    unfold readField at h
    split at h
    case h_5 =>
      cases h
      rfl
    all_goals
      obtain ⟨a, _, h⟩ := bind_eq_ok.mp h
      cases h
      cases slot <;> first | rfl | exact absurd rfl hne
  have hkey : ∀ (s : FunctionDefinition) (v : Value) (s' : FunctionDefinition), readField s slot.key v = .ok s' →
      optional ParameterDefinition.read v = .ok (s'.parameter? slot) := by
    intro s v s' h
    cases slot with
    | input => exact ok_of_set (·.parameter? .input) h fun _ => rfl
    | output => exact ok_of_set (·.parameter? .output) h fun _ => rfl
  have hempty : ({} : FunctionDefinition).parameter? slot = none := by cases slot <;> rfl
  rw [← hempty]
  exact given_of_foldlM readField (·.parameter? slot) (fun v a => optional ParameterDefinition.read v = .ok a) hkey
    hother hnodup h

namespace FunctionDocument

/-- What the parts of a document were read from. -/
structure Parts (members : List (String × Value)) (doc : FunctionDocument) : Prop where
  functions : ∀ side : Side, Given members side.key
    (fun v => named {} FunctionDefinition.read v = .ok (doc.functions side)) (doc.functions side = [])
  schemas : Given members "components"
    (fun v => (v.isNull = true ∧ doc.schemas = []) ∨ readComponents v = .ok doc.schemas) (doc.schemas = [])

theorem readField_other {s s' : Draft} {name : String} {v : Value} (h : readField s name v = .ok s') :
    (name ≠ "exports" → s'.exports = s.exports) ∧ (name ≠ "imports" → s'.imports = s.imports) ∧
      (name ≠ "components" → s'.schemas = s.schemas) := by
  unfold readField at h
  split at h
  case h_4 =>
    split at h
    · cases h
      simp
    · obtain ⟨a, _, h⟩ := bind_eq_ok.mp h
      cases h
      simp
  case h_5 =>
    cases h
    simp
  all_goals
    obtain ⟨a, _, h⟩ := bind_eq_ok.mp h
    cases h
    simp

theorem parts_of_read {members : List (String × Value)} {doc : FunctionDocument}
    (hnodup : (Keyed.keys members).Nodup) (h : read (.object members) = .ok doc) : Parts members doc := by
  obtain ⟨s, hs, h⟩ := bind_eq_ok.mp h
  obtain ⟨version, _, h⟩ := bind_eq_ok.mp h
  cases h
  constructor
  · intro side
    cases side with
    | exported =>
      refine given_of_foldlM readField (·.exports) (fun v a => named {} FunctionDefinition.read v = .ok a) ?_
        (fun _ _ _ _ hne h => (readField_other h).1 hne) hnodup hs
      intro s v s' h
      exact ok_of_set (·.exports) h fun _ => rfl
    | imported =>
      refine given_of_foldlM readField (·.imports) (fun v a => named {} FunctionDefinition.read v = .ok a) ?_
        (fun _ _ _ _ hne h => (readField_other h).2.1 hne) hnodup hs
      intro s v s' h
      exact ok_of_set (·.imports) h fun _ => rfl
  · refine given_of_foldlM readField (·.schemas)
      (fun v a => (v.isNull = true ∧ a = []) ∨ readComponents v = .ok a) ?_
      (fun _ _ _ _ hne h => (readField_other h).2.2 hne) hnodup hs
    intro s v s' h
    simp only [readField] at h
    split at h
    · rename_i hnull
      cases h
      exact Or.inl ⟨hnull, rfl⟩
    · obtain ⟨a, ha, h⟩ := bind_eq_ok.mp h
      cases h
      exact Or.inr ha

/-- The schemas of components that are written as an object. -/
theorem schemas_of_readComponents {members : List (String × Value)} {schemas : Keyed Definition}
    (hnodup : (Keyed.keys members).Nodup) (h : readComponents (.object members) = .ok schemas) :
    Given members "schemas" (fun v => named {} (Definition.read .inPlace) v = .ok schemas) (schemas = []) := by
  let step : Keyed Definition → String → Value → Result (Keyed Definition) := fun schemas field v =>
    if field = "schemas" then named {} (Definition.read .inPlace) v else return schemas
  refine given_of_foldlM step id (fun v a => named {} (Definition.read .inPlace) v = .ok a) ?_ ?_ hnodup h
  · intro s v s' h
    simpa [step] using h
  · intro s name v s' hne h
    simp only [step, if_neg hne] at h
    exact (pure_eq_ok.mp h).symm

/-- What stands where definitions begin was read from the value found by its keys. -/
theorem read_root {raw : Value} {doc : FunctionDocument} {root : Root} {d : Definition} (hraw : raw.Unrepeated)
    (h : FunctionDocument.read raw = .ok doc) (hlist : raw.meetsList root.keys = false)
    (hd : doc.root? root = some d) :
    d = {} ∨ ∃ w source, raw.follow? root.keys = some w ∧ Definition.read source w = .ok d := by
  obtain ⟨_, hfold, _⟩ := bind_eq_ok.mp h
  obtain ⟨members, rfl⟩ := Record.object_of_fold hfold (Value.not_isArray_of_not_meetsList hlist)
  obtain ⟨hnodup, hmembers⟩ := Value.unrepeated_object.mp hraw
  have hparts := parts_of_read hnodup h
  cases root with
  | schema index =>
    obtain ⟨⟨name, x⟩, hx, rfl⟩ := Option.map_eq_some_iff.mp hd
    have hne : doc.schemas ≠ [] := by
      rintro hnil
      rw [hnil] at hx
      cases hx
    obtain ⟨v, hv, hcomponents⟩ := hparts.schemas.some hne
    rcases hcomponents with ⟨_, hnil⟩ | hcomponents
    · exact absurd hnil hne
    obtain ⟨components, rfl⟩ := Record.object_of_fold hcomponents
      (Value.not_isArray_of_not_meetsList (Value.meetsList_of_member? hlist hv))
    have hnodup := (Value.unrepeated_object.mp (hmembers _ (Keyed.mem_of_get? hv))).1
    obtain ⟨u, hu, hnamed⟩ := (schemas_of_readComponents hnodup hcomponents).some hne
    obtain ⟨entries, w, rfl, hw, hread⟩ := entry_of_named hnamed hx
    rcases hread with ⟨_, rfl⟩ | hread
    · exact Or.inl rfl
    · exact Or.inr ⟨w, .inPlace, by simp [Root.keys, Value.follow?, Value.member?, hv, hu, hw], hread⟩
  | parameter side index slot =>
    obtain ⟨⟨name, f⟩, hf, hd⟩ := Option.bind_eq_some_iff.mp hd
    obtain ⟨p, hp, rfl⟩ := Option.map_eq_some_iff.mp hd
    obtain ⟨v, hv, hnamed⟩ := (hparts.functions side).some (by rintro hnil; rw [hnil] at hf; cases hf)
    obtain ⟨entries, entry, rfl, hentry, hread⟩ := entry_of_named hnamed hf
    rcases hread with ⟨_, rfl⟩ | hread
    · cases slot <;> cases hp
    have hfound : Value.member? (.object entries) (.entry index) = some entry := by
      simp [Value.member?, hentry]
    obtain ⟨fields, rfl⟩ := Record.object_of_fold hread (Value.not_isArray_of_not_meetsList
      (Value.meetsList_of_member? (Value.meetsList_of_member? hlist hv) hfound))
    have hentries := Value.unrepeated_object.mp (hmembers _ (Keyed.mem_of_get? hv))
    have hnodup := (Value.unrepeated_object.mp (hentries.2 _ (List.mem_of_getElem? hentry))).1
    obtain ⟨w, hw, hparameter⟩ := (FunctionDefinition.read_parameter hnodup hread slot).some
      (by rw [hp]; exact Option.some_ne_none p)
    rw [hp] at hparameter
    refine Or.inr ⟨w, .setAside, ?_, ?_⟩
    · simp [Root.keys, Value.follow?, Value.member?, hv, hentry, hw]
    · exact ParameterDefinition.read_eq_ok (optional_eq_some hparameter).2

end FunctionDocument

end BindingSchema
