import BindingSchema.Interface.Encode
import BindingSchema.Proofs.Document.Records
import BindingSchema.Proofs.Document.Words

/-!
Fields written one after the other, and read in that order.

A record is written as a list of fields of which some may be left out. Its reader goes through the
members and sets one field after the other (`Reads`), so the members of two records in one object are
read by both readers, each of which passes over what is the other's (`Reads.pass`). What is written
has the keys of some of the fields, in their order (`Among`): no key comes twice
(`Among.unrepeated_iff`), and a reader that knows none of the fields passes over all of it.
-/

namespace BindingSchema

open Decode Encode

/-! ## Values -/

namespace Value

theorem unrepeated_array {items : List Value} : (array items).Unrepeated ↔ ∀ v ∈ items, v.Unrepeated := by
  rw [Unrepeated]
  induction items with
  | nil => simp [UnrepeatedItems]
  | cons v items ih => simp [UnrepeatedItems, ih]

end Value

/-! ## Keys -/

namespace Keyed

variable {α : Type u}

theorem keys_append (m n : Keyed α) : keys (m ++ n) = keys m ++ keys n := List.map_append

theorem get?_append_of_not_mem {m : Keyed α} {key : String} (h : key ∉ keys m) (n : Keyed α) :
    get? (m ++ n) key = get? n key := by
  induction m with
  | nil => rfl
  | cons e m ih =>
    obtain ⟨k, v⟩ := e
    have hk : k ≠ key := fun hk => h (hk ▸ List.mem_cons_self)
    rw [List.cons_append, get?, if_neg hk, ih fun hm => h (List.mem_cons_of_mem _ hm)]

end Keyed

namespace Encode

/-- The members have the names of some of the fields, in the order of the fields. -/
def Among (m : Members) (fields : List String) : Prop := (Keyed.keys m).Sublist fields

namespace Among

theorem field {name : String} {v : Value} : Among (field name v) [name] := List.Sublist.refl _

theorem optional {α : Type} {name : String} {encode : α → Value} {a : Option α} :
    Among (optionalField name encode a) [name] := by
  cases a with
  | none => exact List.nil_sublist _
  | some a => exact List.Sublist.refl _

theorem list {name : String} {items : List Value} : Among (listField name items) [name] := by
  cases items with
  | nil => exact List.nil_sublist _
  | cons item items => exact List.Sublist.refl _

theorem append {m n : Members} {ms ns : List String} (hm : Among m ms) (hn : Among n ns) :
    Among (m ++ n) (ms ++ ns) := by
  unfold Among
  rw [Keyed.keys_append]
  exact List.Sublist.append hm hn

/-- In a record without a field twice, a key can only be repeated further down. -/
theorem unrepeated_iff {m : Members} {fields : List String} (h : Among m fields) (hnodup : fields.Nodup) :
    (Value.object m).Unrepeated ↔ ∀ e ∈ m, e.2.Unrepeated := by
  rw [Value.unrepeated_object]
  exact and_iff_right (hnodup.sublist h)

end Among

/-! ## What the fields hold -/

theorem forall_mem_field {P : Value → Prop} {name : String} {v : Value} :
    (∀ m ∈ field name v, P m.2) ↔ P v := List.forall_mem_singleton

theorem forall_mem_optionalField {α : Type} {P : Value → Prop} {name : String} {encode : α → Value} {a : Option α} :
    (∀ m ∈ optionalField name encode a, P m.2) ↔ ∀ b, a = some b → P (encode b) := by
  cases a with
  | none => simp [optionalField]
  | some a => simp [optionalField]

theorem forall_mem_listField {name : String} {items : List Value} :
    (∀ m ∈ listField name items, m.2.Unrepeated) ↔ ∀ v ∈ items, v.Unrepeated := by
  cases items with
  | nil => simp [listField]
  | cons item items => simp [listField, Value.unrepeated_array]

end Encode

/-! ## Reading -/

namespace Decode

theorem optional_of_not_null {α : Type} {read : Value → Result α} {v : Value} (h : v.isNull = false) :
    optional read v = (read v).map some := by
  cases v with
  | null => cases h
  | _ => rfl

theorem mapM_encode {α β : Type} {read : β → Result α} {encode : α → β} {as : List α}
    (h : ∀ a ∈ as, read (encode a) = .ok a) : (as.map encode).mapM read = .ok as := by
  rw [mapM_eq_ok, List.forall₂_map_left_iff, List.forall₂_same]
  exact h

theorem list_encode {α : Type} {read : Value → Result α} {encode : α → Value} {as : List α}
    (h : ∀ a ∈ as, read (encode a) = .ok a) : list read (.array (as.map encode)) = .ok as := mapM_encode h

/-- What is written under a name is read back under that name. -/
theorem map_encode {α : Type} {read : Value → Result α} {encode : α → Value} {as : Keyed α}
    (h : ∀ a ∈ as, read (encode a.2) = .ok a.2) :
    map read (.object (as.map fun (key, a) => (key, encode a))) = .ok as := by
  refine mapM_encode fun (key, a) ha => ?_
  simp only [h _ ha]
  rfl

/-! ## Reading one field after the other -/

/-- One member after the other takes the reader from `s` to `t`. -/
def Reads {σ : Type} (step : σ → String → Value → Result σ) (members : Members) (s t : σ) : Prop :=
  members.foldlM (fun s m => step s m.1 m.2) s = .ok t

namespace Reads

variable {σ : Type} {step : σ → String → Value → Result σ} {s t u : σ} {m n : Members} {name : String}

theorem nil : Reads step [] s s := rfl

theorem append (h : Reads step m s t) (h' : Reads step n t u) : Reads step (m ++ n) s u := by
  unfold Reads at *
  rw [List.foldlM_append, h]
  exact h'

theorem single {v : Value} (h : step s name v = .ok t) : Reads step [(name, v)] s t := by
  unfold Reads
  rw [List.foldlM_cons, h]
  rfl

/-- A field that is always there. -/
theorem field {α : Type} {x : Result α} {v : Value} {a : α} (set : α → σ)
    (hstep : step s name v = (do return set (← x))) (hread : x = .ok a) :
    Reads step (Encode.field name v) s (set a) := by
  refine single ?_
  rw [hstep, hread]
  rfl

/-- A field that may be left out, and is not null if it is there. -/
theorem optional {α : Type} {read : Value → Result α} {encode : α → Value} (set : Option α → σ) (a : Option α)
    (hstep : ∀ v, step (set none) name v = (do return set (← Decode.optional read v)))
    (hnull : ∀ b, (encode b).isNull = false) (hread : ∀ b, read (encode b) = .ok b) :
    Reads step (optionalField name encode a) (set none) (set a) := by
  cases a with
  | none => exact nil
  | some b =>
    refine single ?_
    have hpresent : Decode.optional read (encode b) = .ok (some b) := by
      rw [optional_of_not_null (hnull b), hread]
      rfl
    rw [hstep, hpresent]
    rfl

/-- A list that is left out when empty. -/
theorem list {α : Type} {x : Result (List α)} {encode : α → Value} {as : List α} (set : List α → σ)
    (hstep : step (set []) name (.array (as.map encode)) = (do return set (← x))) (hread : x = .ok as) :
    Reads step (listField name (as.map encode)) (set []) (set as) := by
  cases as with
  | nil => exact nil
  | cons a as =>
    refine single ?_
    rw [hstep, hread]
    rfl

/-- Fields that the reader does not know leave it where it is. -/
theorem pass {fields : List String} (hm : Among m fields)
    (hstep : ∀ name ∈ fields, ∀ v, step s name v = .ok s) : Reads step m s s := by
  have hsubset : Keyed.keys m ⊆ fields := List.Sublist.subset hm
  clear hm
  induction m with
  | nil => exact nil
  | cons e m ih =>
    obtain ⟨name, v⟩ := e
    obtain ⟨hname, hrest⟩ := List.cons_subset.mp hsubset
    exact (single (hstep name hname v)).append (ih hrest)

end Reads

end Decode

end BindingSchema
