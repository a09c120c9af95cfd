import BindingSchema.Document.Decode
import Mathlib.Data.List.Forall2

/-!
What a record that was read has in its fields.

A record is read member by member. Where no key comes twice, a field of the outcome was read from
the member of its name, or is what it was at the start (`given_of_foldlM`). One fact about a single
member, that it sets the field of its name and leaves the others, therefore gives what every field
of a definition (`fields_of_read`), function or document was read from.
-/

namespace BindingSchema

/-! ## Values that no reader repeats a key in -/

namespace Value

mutual

/-- No object in the value, at any depth, has a key twice. -/
def Unrepeated : Value → Prop
  | .object members => (Keyed.keys members).Nodup ∧ UnrepeatedMembers members
  | .array items => UnrepeatedItems items
  | _ => True

def UnrepeatedMembers : List (String × Value) → Prop
  | [] => True
  | (_, v) :: rest => Unrepeated v ∧ UnrepeatedMembers rest

def UnrepeatedItems : List Value → Prop
  | [] => True
  | v :: rest => Unrepeated v ∧ UnrepeatedItems rest

end

theorem unrepeatedMembers_iff {members : List (String × Value)} :
    UnrepeatedMembers members ↔ ∀ m ∈ members, m.2.Unrepeated := by
  induction members with
  | nil => simp [UnrepeatedMembers]
  | cons m rest ih =>
    obtain ⟨key, v⟩ := m
    simp [UnrepeatedMembers, ih]

theorem unrepeated_object {members : List (String × Value)} :
    (object members).Unrepeated ↔ (Keyed.keys members).Nodup ∧ ∀ m ∈ members, m.2.Unrepeated := by
  rw [← unrepeatedMembers_iff]
  simp only [Unrepeated]

/-- What holds of a list or an object if it holds of everything in it holds of every value. -/
theorem inductItems {P : Value → Prop} (object : ∀ members, (∀ m ∈ members, P m.2) → P (.object members))
    (array : ∀ items, (∀ v ∈ items, P v) → P (.array items))
    (other : ∀ v, v.isObject = false → v.asArray? = none → P v) : ∀ v, P v := by
  intro v
  induction hv : sizeOf v using Nat.strongRecOn generalizing v with
  | ind size ih =>
    subst hv
    cases v with
    | object members =>
      refine object members fun m hm => ih (sizeOf m.2) ?_ m.2 rfl
      have hlt := List.sizeOf_lt_of_mem hm
      obtain ⟨key, w⟩ := m
      simp only [Prod.mk.sizeOf_spec] at hlt
      simp only [Value.object.sizeOf_spec]
      omega
    | array items =>
      refine array items fun w hw => ih (sizeOf w) ?_ w rfl
      have hlt := List.sizeOf_lt_of_mem hw
      simp only [Value.array.sizeOf_spec]
      omega
    | _ => exact other _ rfl rfl

end Value

theorem Keyed.mem_of_get? {α : Type u} {m : Keyed α} {key : String} {value : α}
    (h : Keyed.get? m key = some value) : (key, value) ∈ m := by
  induction m with
  | nil => cases h
  | cons e rest ih =>
    obtain ⟨k, v⟩ := e
    by_cases hk : k = key
    · subst hk
      simp only [Keyed.get?, if_true, Option.some.injEq] at h
      subst h
      exact List.mem_cons_self
    · rw [Keyed.get?, if_neg hk] at h
      exact List.mem_cons_of_mem _ (ih h)

theorem Keyed.get?_eq_none {α : Type u} {m : Keyed α} {key : String} (h : key ∉ Keyed.keys m) :
    Keyed.get? m key = none := by
  cases hget : Keyed.get? m key with
  | none => rfl
  | some value => exact absurd (List.mem_map_of_mem (Keyed.mem_of_get? hget)) h

namespace Decode

/-! ## Results -/

theorem bind_eq_ok {α β : Type} {x : Result α} {f : α → Result β} {b : β} :
    (x >>= f) = .ok b ↔ ∃ a, x = .ok a ∧ f a = .ok b := by
  constructor
  · intro h
    cases x with
    | error e => cases h
    | ok a => exact ⟨a, rfl, h⟩
  · rintro ⟨a, rfl, h⟩
    exact h

theorem map_eq_ok {α β : Type} {x : Result α} {f : α → β} {b : β} :
    x.map f = .ok b ↔ ∃ a, x = .ok a ∧ f a = b := by
  constructor
  · intro h
    cases x with
    | error e => cases h
    | ok a => exact ⟨a, rfl, Except.ok.inj h⟩
  · rintro ⟨a, rfl, rfl⟩
    rfl

theorem pure_eq_ok {α : Type} {a b : α} : (pure a : Result α) = .ok b ↔ a = b :=
  ⟨Except.ok.inj, congrArg _⟩

/-- A field that a reading sets is what was read. -/
theorem ok_of_set {σ α : Type} {x : Result α} {set : α → σ} (field : σ → α) {s : σ}
    (h : (x >>= fun a => pure (set a)) = .ok s) (hset : ∀ a, field (set a) = a) : x = .ok (field s) := by
  obtain ⟨a, ha, h⟩ := bind_eq_ok.mp h
  rw [← pure_eq_ok.mp h, hset]
  exact ha

theorem eq_of_set {σ α : Type} {x : Result α} {set : α → σ} {s : σ} (h : (x >>= fun a => pure (set a)) = .ok s) :
    ∃ a, set a = s := by
  obtain ⟨a, _, h⟩ := bind_eq_ok.mp h
  exact ⟨a, pure_eq_ok.mp h⟩

/-- A value that is not left out is not null, and is read. -/
theorem optional_eq_some {α : Type} {read : Value → Result α} {v : Value} {a : α}
    (h : optional read v = .ok (some a)) : v ≠ .null ∧ read v = .ok a := by
  unfold optional at h
  split at h
  · cases h
  · rename_i hne
    obtain ⟨b, hb, hsome⟩ := map_eq_ok.mp h
    cases hsome
    exact ⟨hne, hb⟩

theorem mapM_eq_ok {α β : Type} {f : α → Result β} {xs : List α} {ys : List β} :
    xs.mapM f = .ok ys ↔ List.Forall₂ (fun x y => f x = .ok y) xs ys := by
  induction xs generalizing ys with
  | nil =>
    rw [List.mapM_nil, pure_eq_ok, List.forall₂_nil_left_iff]
    exact eq_comm
  | cons x xs ih =>
    simp only [List.mapM_cons, bind_eq_ok, pure_eq_ok, List.forall₂_cons_left_iff, ih]
    constructor
    · rintro ⟨y, hy, rest, hrest, rfl⟩
      exact ⟨y, rest, hy, hrest, rfl⟩
    · rintro ⟨y, rest, hy, hrest, rfl⟩
      exact ⟨y, hy, rest, hrest, rfl⟩

theorem mapM_congr {α β : Type} {f g : α → Result β} {xs : List α} (h : ∀ x ∈ xs, f x = g x) :
    xs.mapM f = xs.mapM g := by
  induction xs with
  | nil => rfl
  | cons x xs ih =>
    obtain ⟨hx, hxs⟩ := List.forall_mem_cons.mp h
    rw [List.mapM_cons, List.mapM_cons, hx, ih hxs]

theorem foldlM_congr {σ α : Type} {f g : σ → α → Result σ} {xs : List α} (h : ∀ x ∈ xs, ∀ s, f s x = g s x) {s : σ} :
    xs.foldlM f s = xs.foldlM g s := by
  induction xs generalizing s with
  | nil => rfl
  | cons x xs ih =>
    obtain ⟨hx, hxs⟩ := List.forall_mem_cons.mp h
    rw [List.foldlM_cons, List.foldlM_cons, hx]
    exact bind_congr fun s => ih hxs

theorem foldlM_map {σ τ α : Type} {f : σ → τ} {step : σ → α → Result σ} {step' : τ → α → Result τ} {xs : List α}
    (h : ∀ x ∈ xs, ∀ s, step' (f s) x = (step s x).map f) {s : σ} :
    xs.foldlM step' (f s) = (xs.foldlM step s).map f := by
  induction xs generalizing s with
  | nil => rfl
  | cons x xs ih =>
    obtain ⟨hx, hxs⟩ := List.forall_mem_cons.mp h
    rw [List.foldlM_cons, List.foldlM_cons, hx]
    cases step s x with
    | error e => rfl
    | ok t => exact ih hxs

/-! ## Members and fields -/

/-- The member `key` has the property `P`; if there is none, `Q` holds. -/
def Given (members : List (String × Value)) (key : String) (P : Value → Prop) (Q : Prop) : Prop :=
  match Keyed.get? members key with
  | some v => P v
  | none => Q

/-- Where the member of its name sets a field and no other member changes it, the field was read
from its member. -/
theorem given_of_foldlM {σ α : Type} (step : σ → String → Value → Result σ) (field : σ → α)
    (Reads : Value → α → Prop) {key : String} (hkey : ∀ s v s', step s key v = .ok s' → Reads v (field s'))
    (hother : ∀ s name v s', name ≠ key → step s name v = .ok s' → field s' = field s)
    {members : List (String × Value)} {s t : σ} (hnodup : (Keyed.keys members).Nodup)
    (h : members.foldlM (fun s m => step s m.1 m.2) s = .ok t) :
    Given members key (fun v => Reads v (field t)) (field t = field s) := by
  induction members generalizing s with
  | nil =>
    cases h
    rfl
  | cons m rest ih =>
    obtain ⟨name, v⟩ := m
    obtain ⟨hnotMem, hnodup⟩ := List.nodup_cons.mp hnodup
    rw [List.foldlM_cons, bind_eq_ok] at h
    obtain ⟨s', hs', hrest⟩ := h
    have ih := ih hnodup hrest
    unfold Given at ih ⊢
    by_cases hk : name = key
    · subst hk
      rw [Keyed.get?_eq_none hnotMem] at ih
      rw [Keyed.get?, if_pos rfl]
      simp only [ih]
      exact hkey s v s' hs'
    · rw [Keyed.get?, if_neg hk]
      rw [hother s name v s' hk hs'] at ih
      exact ih

/-- The names in a map are the keys it was read from. -/
theorem keys_of_named {α : Type} {absent : α} {read : Value → Result α} {v : Value} {xs : Keyed α}
    (h : named absent read v = .ok xs) :
    (v = .null ∧ xs = []) ∨ ∃ members, v = .object members ∧ Keyed.keys xs = Keyed.keys members := by
  cases v with
  | null =>
    cases h
    exact Or.inl ⟨rfl, rfl⟩
  | object members =>
    refine Or.inr ⟨members, rfl, ?_⟩
    have hrel := mapM_eq_ok.mp h
    clear h
    induction hrel with
    | nil => rfl
    | @cons m x ms xs hread _ ih =>
      obtain ⟨y, _, rfl⟩ := map_eq_ok.mp hread
      rw [Keyed.keys, List.map_cons, ← Keyed.keys, ih]
      rfl
  | _ => cases h

/-- An entry of a map was read from the entry of the same number, if that is not null. -/
theorem entry_of_named {α : Type} {absent : α} {read : Value → Result α} {v : Value} {xs : Keyed α}
    (h : named absent read v = .ok xs) {index : Nat} {name : String} {x : α} (hx : xs[index]? = some (name, x)) :
    ∃ members w, v = .object members ∧ members[index]? = some (name, w) ∧
      ((w.isNull = true ∧ x = absent) ∨ read w = .ok x) := by
  cases v with
  | null =>
    cases h
    cases hx
  | object members =>
    have hrel := mapM_eq_ok.mp h
    obtain ⟨hlt, hget⟩ := List.getElem?_eq_some_iff.mp hx
    have hlt' : index < members.length := hrel.length_eq ▸ hlt
    have hread := hrel.get hlt' hlt
    simp only [List.get_eq_getElem, hget] at hread
    obtain ⟨y, hy, hpair⟩ := map_eq_ok.mp hread
    obtain ⟨hname, rfl⟩ := Prod.mk.inj hpair
    refine ⟨members, members[index].2, rfl, ?_, ?_⟩
    · rw [List.getElem?_eq_getElem hlt', ← hname]
    · split at hy
      · rename_i hnull
        exact Or.inl ⟨by rw [hnull]; rfl, (Except.ok.inj hy).symm⟩
      · exact Or.inr hy
  | _ => cases h

end Decode

/-! ## Definitions -/

namespace Definition

open Decode

def readings (source : Source) (v : Value) : Readings where
  definition := fun s => read s v
  entries := fun _ =>
    match v with
    | .null => .ok []
    | .object members => readEntries source members
    | v => .error (mismatch v "a map")

theorem readMembers_eq (source : Source) (members : List (String × Value)) (d : Definition) :
    readMembers source members d =
      members.foldlM (fun d m => readField source d m.1 m.2 (readings source m.2)) d := by
  induction members generalizing d with
  | nil => rw [readMembers]; rfl
  | cons m rest ih =>
    obtain ⟨field, v⟩ := m
    rw [List.foldlM_cons]
    cases v <;> simp only [readMembers, ih] <;> rfl

theorem readItems_eq (source : Source) (fields : List String) (items : List Value) (d : Definition) :
    readItems source fields items d =
      (fields.zip items).foldlM (fun d m => readField source d m.1 m.2 (readings source m.2)) d := by
  induction items generalizing fields d with
  | nil => cases fields <;> rfl
  | cons v rest ih =>
    cases fields with
    | nil => rfl
    | cons field fields =>
      rw [List.zip_cons_cons, List.foldlM_cons]
      cases v <;> simp only [readItems, ih] <;> rfl

/-- A definition is a record, whose fields may be made of definitions. -/
theorem read_eq_fold (source : Source) (v : Value) :
    read source v = record.fold source (fun d name v => readField source d name v (readings source v)) {} v := by
  cases v with
  | object members => rw [read, readMembers_eq, Record.fold]
  | array items => rw [read, readItems_eq]; rfl
  | _ => rfl

theorem entries_readings (source : Source) (v : Value) :
    (readings source v).entries () = named {} (read source) v := by
  cases v with
  | object members =>
    show readEntries source members = members.mapM _
    induction members with
    | nil => rw [readEntries]; rfl
    | cons m rest ih =>
      obtain ⟨name, v⟩ := m
      have hbind : ∀ (r : Result Definition) (tail : Result (List (String × Definition))),
          (r >>= fun d => tail >>= fun ds => pure ((name, d) :: ds)) =
            (r.map fun d => (name, d)) >>= fun e => tail >>= fun ds => pure (e :: ds) := by
        intro r tail
        cases r <;> rfl
      rw [readEntries, List.mapM_cons, ih]
      cases v with
      | null => rfl
      | _ => exact hbind (read source _) _
  | _ => rfl

/-- A member leaves every field alone but the one of its name. -/
theorem readField_other {source : Source} {d d' : Definition} {name : String} {v : Value} {r : Readings}
    (h : readField source d name v r = .ok d') :
    (name ≠ "type" → d'.type = d.type) ∧ (name ≠ "format" → d'.format = d.format) ∧
      (name ≠ "items" → d'.items = d.items) ∧
      (name ≠ "additionalProperties" → d'.additionalProperties = d.additionalProperties) ∧
      (name ≠ "properties" → d'.properties = d.properties) ∧ (name ≠ "required" → d'.required = d.required) ∧
      (name ≠ "enum" → d'.enumValues = d.enumValues) ∧ (name ≠ "$ref" → d'.reference = d.reference) := by
  unfold readField at h
  split at h
  case h_5 =>
    split at h
    · cases h
      simp
    · obtain ⟨a, _, h⟩ := bind_eq_ok.mp h
      cases h
      simp
  case h_11 =>
    cases h
    simp
  all_goals
    obtain ⟨a, _, h⟩ := bind_eq_ok.mp h
    cases h
    simp

/-- What the fields of a definition that was written as an object were read from. -/
structure Fields (source : Source) (members : List (String × Value)) (d : Definition) : Prop where
  type : Given members "type" (fun v => optional (word source TypeName.words) v = .ok d.type) (d.type = none)
  format : Given members "format" (fun v => optional (word source Format.words) v = .ok d.format) (d.format = none)
  items : Given members "items"
    (fun v => (v.isNull = true ∧ d.items = none) ∨ ∃ x, read source v = .ok x ∧ d.items = some x) (d.items = none)
  additionalProperties : Given members "additionalProperties"
    (fun v => mapValues v (readings source v) = .ok d.additionalProperties) (d.additionalProperties = none)
  properties : Given members "properties"
    (fun v => named {} (read source) v = .ok d.properties) (d.properties = [])
  required : Given members "required" (fun v => listOrNull string v = .ok d.required) (d.required = [])
  enumValues : Given members "enum" (fun v => optional (list .ok) v = .ok d.enumValues) (d.enumValues = none)
  reference : Given members "$ref" (fun v => optional string v = .ok d.reference) (d.reference = none)

theorem fields_of_read {source : Source} {members : List (String × Value)} {d : Definition}
    (hnodup : (Keyed.keys members).Nodup) (h : read source (.object members) = .ok d) :
    Fields source members d := by
  rw [read, readMembers_eq] at h
  let step : Definition → String → Value → Result Definition := fun d name v =>
    readField source d name v (readings source v)
  refine ⟨?_, ?_, ?_, ?_, ?_, ?_, ?_, ?_⟩
  · refine given_of_foldlM step (·.type) (fun v a => optional (word source TypeName.words) v = .ok a) ?_
      (fun _ _ _ _ hne h => (readField_other h).1 hne) hnodup h
    intro s v s' h
    exact ok_of_set (·.type) h fun _ => rfl
  · refine given_of_foldlM step (·.format) (fun v a => optional (word source Format.words) v = .ok a) ?_
      (fun _ _ _ _ hne h => (readField_other h).2.1 hne) hnodup h
    intro s v s' h
    exact ok_of_set (·.format) h fun _ => rfl
  · refine given_of_foldlM step (·.items)
      (fun v a => (v.isNull = true ∧ a = none) ∨ ∃ x, read source v = .ok x ∧ a = some x) ?_
      (fun _ _ _ _ hne h => (readField_other h).2.2.1 hne) hnodup h
    intro s v s' h
    simp only [step, readField] at h
    split at h
    · rename_i hnull
      cases h
      exact Or.inl ⟨hnull, rfl⟩
    · obtain ⟨a, ha, h⟩ := bind_eq_ok.mp h
      cases h
      exact Or.inr ⟨a, ha, rfl⟩
  · refine given_of_foldlM step (·.additionalProperties) (fun v a => mapValues v (readings source v) = .ok a) ?_
      (fun _ _ _ _ hne h => (readField_other h).2.2.2.1 hne) hnodup h
    intro s v s' h
    exact ok_of_set (·.additionalProperties) h fun _ => rfl
  · refine given_of_foldlM step (·.properties) (fun v a => named {} (read source) v = .ok a) ?_
      (fun _ _ _ _ hne h => (readField_other h).2.2.2.2.1 hne) hnodup h
    intro s v s' h
    rw [← entries_readings]
    exact ok_of_set (·.properties) h fun _ => rfl
  · refine given_of_foldlM step (·.required) (fun v a => listOrNull string v = .ok a) ?_
      (fun _ _ _ _ hne h => (readField_other h).2.2.2.2.2.1 hne) hnodup h
    intro s v s' h
    exact ok_of_set (·.required) h fun _ => rfl
  · refine given_of_foldlM step (·.enumValues) (fun v a => optional (list .ok) v = .ok a) ?_
      (fun _ _ _ _ hne h => (readField_other h).2.2.2.2.2.2.1 hne) hnodup h
    intro s v s' h
    exact ok_of_set (·.enumValues) h fun _ => rfl
  · refine given_of_foldlM step (·.reference) (fun v a => optional string v = .ok a) ?_
      (fun _ _ _ _ hne h => (readField_other h).2.2.2.2.2.2.2 hne) hnodup h
    intro s v s' h
    exact ok_of_set (·.reference) h fun _ => rfl

end Definition

end BindingSchema
