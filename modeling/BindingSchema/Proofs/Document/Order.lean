import BindingSchema.Proofs.Structure.Regular
import Mathlib.Data.List.Perm.Basic

/-!
Documents that list the same schemas in another order.

Two such documents are the same around the object of their schemas (`Value.Within`), whose members
are a permutation of each other. Neither the check of the structure nor the reading tells them
apart: nothing is found wrong with one if nothing is with the other (`Reordered.check_eq_nil`), and
they are read as the same functions with the same schemas in another order (`read_reordered`).
-/

namespace BindingSchema

open Decode

theorem Keyed.get?_append {α : Type u} (m m' : Keyed α) (key : String) :
    Keyed.get? (m ++ m') key = (Keyed.get? m key).or (Keyed.get? m' key) := by
  induction m with
  | nil => rfl
  | cons e rest ih =>
    obtain ⟨k, v⟩ := e
    by_cases hk : k = key <;> simp [Keyed.get?, hk, ih]

namespace Value

/-- Two objects that are the same but for one member `key`, whose values `P` relates. -/
def Within (key : String) (P : Value → Value → Prop) (v w : Value) : Prop :=
  ∃ before after x y, P x y ∧ v = .object (before ++ (key, x) :: after) ∧ w = .object (before ++ (key, y) :: after)

/-- Two objects with the same members in another order. -/
def Permuted (v w : Value) : Prop :=
  ∃ members members', members.Perm members' ∧ v = .object members ∧ w = .object members'

section

variable {key : String} {P : Value → Value → Prop} {v w : Value}

theorem Permuted.symm (h : Permuted v w) : Permuted w v := by
  obtain ⟨members, members', hperm, hv, hw⟩ := h
  exact ⟨members', members, hperm.symm, hw, hv⟩

theorem Permuted.unrepeated (h : Permuted v w) (hv : v.Unrepeated) : w.Unrepeated := by
  obtain ⟨members, members', hperm, rfl, rfl⟩ := h
  obtain ⟨hnodup, hmembers⟩ := unrepeated_object.mp hv
  exact unrepeated_object.mpr ⟨(hperm.map _).nodup_iff.mp hnodup, fun m hm => hmembers m (hperm.mem_iff.mpr hm)⟩

theorem mem_or_eq_of_mem {before after : List (String × Value)} {m e e' : String × Value}
    (h : m ∈ before ++ e' :: after) : m ∈ before ++ e :: after ∨ m = e' := by
  simp only [List.mem_append, List.mem_cons] at h ⊢
  tauto

theorem Within.symm (hP : ∀ x y, P x y → P y x) (h : Within key P v w) : Within key P w v := by
  obtain ⟨before, after, x, y, hxy, hv, hw⟩ := h
  exact ⟨before, after, y, x, hP x y hxy, hw, hv⟩

theorem Within.unrepeated (hP : ∀ x y, P x y → x.Unrepeated → y.Unrepeated) (h : Within key P v w)
    (hv : v.Unrepeated) : w.Unrepeated := by
  obtain ⟨before, after, x, y, hxy, rfl, rfl⟩ := h
  obtain ⟨hnodup, hmembers⟩ := unrepeated_object.mp hv
  refine unrepeated_object.mpr ⟨by simpa [Keyed.keys] using hnodup, fun m hm => ?_⟩
  rcases mem_or_eq_of_mem hm with hm | rfl
  · exact hmembers m hm
  · exact hP x y hxy (hmembers (key, x) (List.mem_append_right _ List.mem_cons_self))

theorem Within.get?_of_ne (h : Within key P v w) (name : String) (hne : name ≠ key) : w.get? name = v.get? name := by
  obtain ⟨before, after, x, y, _, rfl, rfl⟩ := h
  simp only [Value.get?, Keyed.get?_append, Keyed.get?, if_neg hne.symm]

theorem Unrepeated.get? {name : String} (hv : v.Unrepeated) (hw : v.get? name = some w) : w.Unrepeated := by
  cases v with
  | object members => exact (unrepeated_object.mp hv).2 _ (Keyed.mem_of_get? hw)
  | _ => cases hw

theorem Within.get? (h : Within key P v w) (hv : v.Unrepeated) :
    ∃ x y, v.get? key = some x ∧ w.get? key = some y ∧ P x y := by
  obtain ⟨before, after, x, y, hxy, rfl, rfl⟩ := h
  have hnodup := (unrepeated_object.mp hv).1
  have hbefore : Keyed.get? before key = none := by
    refine Keyed.get?_eq_none fun hmem => ?_
    simp only [Keyed.keys, List.map_append, List.map_cons, List.nodup_append] at hnodup
    exact hnodup.2.2 key hmem key List.mem_cons_self rfl
  refine ⟨x, y, ?_, ?_, hxy⟩ <;> simp [Value.get?, Keyed.get?_append, hbefore, Keyed.get?]

end

end Value

/-- Two documents that are the same but for the order of their schemas. -/
def Value.Reordered : Value → Value → Prop := Value.Within "components" (Value.Within "schemas" Value.Permuted)

namespace Value.Reordered

variable {raw raw' : Value}

theorem symm (h : raw.Reordered raw') : raw'.Reordered raw :=
  Within.symm (fun _ _ => Within.symm fun _ _ => Permuted.symm) h

theorem unrepeated (h : raw.Reordered raw') (hraw : raw.Unrepeated) : raw'.Unrepeated :=
  Within.unrepeated (fun _ _ => Within.unrepeated fun _ _ => Permuted.unrepeated) h hraw

theorem statedVersion?_eq (h : raw.Reordered raw') : Document.statedVersion? raw' = Document.statedVersion? raw := by
  rw [Document.statedVersion?, Within.get?_of_ne h _ (by decide), Document.statedVersion?]

/-- The names of the schemas come in another order. -/
theorem schemaNames_perm (h : raw.Reordered raw') (hraw : raw.Unrepeated) :
    (Structure.schemaNames raw).Perm (Structure.schemaNames raw') := by
  obtain ⟨components, components', hget, hget', hcomponents⟩ := Within.get? h hraw
  obtain ⟨_, _, hschemas, hschemas', entries, entries', hperm, rfl, rfl⟩ := hcomponents.get? (hraw.get? hget)
  simp only [Structure.schemaNames, hget, hget', Option.bind_some, hschemas, hschemas']
  exact hperm.map _

end Value.Reordered

namespace Structure

/-! ## The check -/

theorem checkReference_congr {schemas schemas' : List String} (hmem : ∀ name, name ∈ schemas ↔ name ∈ schemas')
    {fields : List (String × Value)} {place : Pointer} :
    checkReference schemas fields place = [] ↔ checkReference schemas' fields place = [] := by
  unfold checkReference
  split
  · rfl
  · split
    · simp [hmem]
    · simp
  · simp

theorem nodup_membersAt {v : Value} (hv : v.Unrepeated) (keys : List String) : (Keyed.keys (membersAt v keys)).Nodup := by
  induction keys generalizing v with
  | nil =>
    cases v with
    | object members => exact (Value.unrepeated_object.mp hv).1
    | _ => exact List.nodup_nil
  | cons key keys ih =>
    rw [membersAt]
    split
    · rename_i hw
      exact ih (hv.get? hw)
    · exact List.nodup_nil

/-- Whether something is wrong with a value depends on which schemas there are, not on their order. -/
theorem walk_congr {schemas schemas' : List String} (hmem : ∀ name, name ∈ schemas ↔ name ∈ schemas') {v : Value} :
    ∀ {place : Pointer} {described : Bool},
      walk schemas place described v = [] ↔ walk schemas' place described v = [] := by
  induction v using Value.induct with
  | object members ih =>
    intro place described
    rw [walk_object, walk_object]
    refine and_congr (imp_congr Iff.rfl ?_) (forall₂_congr fun m hm => ih m hm)
    simp only [checkDescription, List.append_eq_nil_iff, checkReference_congr hmem]
  | other v hv =>
    intro place described
    cases v with
    | object members => cases hv
    | _ => simp [walk]

/-- The members that a description is checked by. -/
def checkedFields : List String :=
  ["type", "format", "properties", "required", "additionalProperties", "enum", "$ref"]

theorem checkDescription_congr {schemas : List String} {fields fields' : List (String × Value)} {place : Pointer}
    (hget : ∀ name ∈ checkedFields, Keyed.get? fields' name = Keyed.get? fields name) :
    checkDescription schemas fields' place = checkDescription schemas fields place := by
  have hpresent : ∀ name ∈ checkedFields, Value.present? fields' name = Value.present? fields name := by
    intro name hname
    rw [Value.present?, hget name hname, Value.present?]
  have htypeOf : typeOf fields' = typeOf fields := by rw [typeOf, hpresent "type" (by decide), typeOf]
  have hvalues : declaresMapValues fields' = declaresMapValues fields := by
    rw [declaresMapValues, hpresent "additionalProperties" (by decide), declaresMapValues]
  have hrequired : ∀ properties, checkRequired fields' properties place = checkRequired fields properties place := by
    intro properties
    rw [checkRequired, hget "required" (by decide), checkRequired]
  unfold checkDescription checkType checkFormat checkProperties checkMapValues checkEnum checkReference
  rw [htypeOf, hvalues, hpresent "type" (by decide), hpresent "format" (by decide), hpresent "properties" (by decide),
    hpresent "additionalProperties" (by decide), hpresent "enum" (by decide), hpresent "$ref" (by decide)]
  simp only [hrequired]

/-- If nothing is wrong with an object, neither is anything with one that differs in a member of which the
same holds. -/
theorem walk_within {key : String} {P : Value → Value → Prop} {v w : Value} (h : Value.Within key P v w)
    {schemas : List String} {place : Pointer} {described : Bool} (hkey : described = true → key = "components")
    (hP : ∀ x y, P x y → walk schemas (place.push key) (!isUserKeyed place key described) x = [] →
      walk schemas (place.push key) (!isUserKeyed place key described) y = [])
    (hwalk : walk schemas place described v = []) : walk schemas place described w = [] := by
  have hget := h.get?_of_ne
  obtain ⟨before, after, x, y, hxy, rfl, rfl⟩ := h
  obtain ⟨hdescription, hmembers⟩ := walk_object.mp hwalk
  refine walk_object.mpr ⟨fun hdescribed => ?_, fun m hm => ?_⟩
  · obtain rfl := hkey hdescribed
    -- a description says nothing with a member of the name `components`
    rw [checkDescription_congr fun name hname => hget name (by rintro rfl; exact absurd hname (by decide))]
    exact hdescription hdescribed
  · rcases Value.mem_or_eq_of_mem hm with hm | rfl
    · exact hmembers m hm
    · exact hP x y hxy (hmembers (key, x) (List.mem_append_right _ List.mem_cons_self))

theorem checkFunctions_congr {raw raw' : Value} {kind : String} (h : raw'.get? kind = raw.get? kind) :
    checkFunctions raw' kind = checkFunctions raw kind := by
  rw [checkFunctions, h, checkFunctions]

end Structure

/-- Nothing is wrong with the structure of a document if nothing is in the other order. -/
theorem Value.Reordered.check_eq_nil {raw raw' : Value} (h : raw.Reordered raw') (hraw : raw.Unrepeated)
    (hcheck : Structure.check raw = []) : Structure.check raw' = [] := by
  have hnames := h.schemaNames_perm hraw
  unfold Structure.check Structure.checkDeclarations at *
  simp only [List.append_eq_nil_iff, List.flatMap_eq_nil_iff] at hcheck ⊢
  obtain ⟨⟨⟨hexports, himports⟩, hschemas⟩, hwalk⟩ := hcheck
  refine ⟨⟨⟨?_, ?_⟩, fun name hname => hschemas name (hnames.mem_iff.mpr hname)⟩, ?_⟩
  · rw [Structure.checkFunctions_congr (Within.get?_of_ne h _ (by decide)), hexports]
  · rw [Structure.checkFunctions_congr (Within.get?_of_ne h _ (by decide)), himports]
  · refine (Structure.walk_congr fun name => hnames.mem_iff).mp ?_
    -- the document counts as a description, but neither its components nor their schemas do
    refine Structure.walk_within h (fun _ => rfl) (fun x y hxy => ?_) hwalk
    refine Structure.walk_within hxy (fun hdescribed => nomatch hdescribed) fun u v huv => ?_
    obtain ⟨entries, entries', hperm, rfl, rfl⟩ := huv
    intro hentries
    refine Structure.walk_object.mpr ⟨fun hdescribed => (nomatch hdescribed), fun m hm => ?_⟩
    exact (Structure.walk_object.mp hentries).2 m (hperm.mem_iff.mpr hm)

/-! ## The reading -/

namespace Decode

theorem foldlM_rel {σ : Type} {step : σ → String → Value → Result σ} {R : σ → σ → Prop}
    (hstep : ∀ s s' name v t, R s s' → step s name v = .ok t → ∃ t', step s' name v = .ok t' ∧ R t t')
    {members : List (String × Value)} {s s' t : σ} (hs : R s s')
    (h : members.foldlM (fun s m => step s m.1 m.2) s = .ok t) :
    ∃ t', members.foldlM (fun s m => step s m.1 m.2) s' = .ok t' ∧ R t t' := by
  induction members generalizing s s' with
  | nil =>
    cases h
    exact ⟨s', rfl, hs⟩
  | cons m rest ih =>
    rw [List.foldlM_cons, bind_eq_ok] at h
    obtain ⟨u, hu, hrest⟩ := h
    obtain ⟨u', hu', huu'⟩ := hstep s s' m.1 m.2 u hs hu
    obtain ⟨t', ht', htt'⟩ := ih huu' hrest
    exact ⟨t', by rw [List.foldlM_cons, bind_eq_ok]; exact ⟨u', hu', ht'⟩, htt'⟩

/-- Two records that are the same but for one member are read alike, if that member and any other are. -/
theorem Record.fold_within {σ : Type} {record : Record} {source : Source} (step : σ → String → Value → Result σ)
    {R : σ → σ → Prop} {key : String} {P : Value → Value → Prop} {v w : Value} (h : Value.Within key P v w)
    (hstep : ∀ s s' name v t, R s s' → step s name v = .ok t → ∃ t', step s' name v = .ok t' ∧ R t t')
    (hkey : ∀ s s' x y t, R s s' → P x y → step s key x = .ok t → ∃ t', step s' key y = .ok t' ∧ R t t')
    {s s' t : σ} (hs : R s s') (hread : record.fold source step s v = .ok t) :
    ∃ t', record.fold source step s' w = .ok t' ∧ R t t' := by
  obtain ⟨before, after, x, y, hxy, rfl, rfl⟩ := h
  simp only [Record.fold, List.foldlM_append, List.foldlM_cons, bind_eq_ok] at hread ⊢
  obtain ⟨u, hu, u₁, hu₁, hrest⟩ := hread
  obtain ⟨u', hu', huu'⟩ := foldlM_rel hstep hs hu
  obtain ⟨u₁', hu₁', huu₁'⟩ := hkey u u' x y u₁ huu' hxy hu₁
  obtain ⟨t', ht', htt'⟩ := foldlM_rel hstep huu₁' hrest
  exact ⟨t', ⟨u', hu', u₁', hu₁', ht'⟩, htt'⟩

/-- A map in another order is read as the same entries in another order. -/
theorem named_perm {α : Type} {absent : α} {read : Value → Result α} {v w : Value} {xs : Keyed α}
    (h : Value.Permuted v w) (hread : named absent read v = .ok xs) :
    ∃ ys, named absent read w = .ok ys ∧ xs.Perm ys := by
  obtain ⟨members, members', hperm, rfl, rfl⟩ := h
  obtain ⟨ys, hys, hxs⟩ := List.perm_comp_forall₂ hperm.symm (mapM_eq_ok.mp hread)
  exact ⟨ys, mapM_eq_ok.mpr hys, hxs.symm⟩

end Decode

/-- Two documents with the same functions, and with the same schemas in another order. -/
structure FunctionDocument.Reordered (doc doc' : FunctionDocument) : Prop where
  exports : doc'.exports = doc.exports
  imports : doc'.imports = doc.imports
  schemas : doc.schemas.Perm doc'.schemas

namespace FunctionDocument

theorem Reordered.symm {doc doc' : FunctionDocument} (h : doc.Reordered doc') : doc'.Reordered doc :=
  ⟨h.exports.symm, h.imports.symm, h.schemas.symm⟩

theorem readComponents_perm {v w : Value} {xs : Keyed Definition} (h : Value.Within "schemas" Value.Permuted v w)
    (hread : readComponents v = .ok xs) : ∃ ys, readComponents w = .ok ys ∧ xs.Perm ys := by
  refine Record.fold_within _ h ?_ ?_ (List.Perm.refl []) hread
  · intro s s' name v t hs ht
    by_cases hname : name = "schemas"
    · simp only [if_pos hname] at ht ⊢
      exact ⟨t, ht, List.Perm.refl t⟩
    · simp only [if_neg hname] at ht ⊢
      cases ht
      exact ⟨s', rfl, hs⟩
  · intro s s' x y t _ hxy ht
    exact named_perm hxy ht

/-- What was read of a document, and of the same document with its schemas in another order. -/
structure Draft.Reordered (s s' : Draft) : Prop where
  version : s'.version = s.version
  exports : s'.exports = s.exports
  imports : s'.imports = s.imports
  schemas : s.schemas.Perm s'.schemas

theorem readField_reordered {s s' t : Draft} {name : String} {v : Value} (hs : s.Reordered s')
    (h : readField s name v = .ok t) : ∃ t', readField s' name v = .ok t' ∧ t.Reordered t' := by
  obtain ⟨hversion, hexports, himports, hschemas⟩ := hs
  unfold readField at h ⊢
  split at h
  · obtain ⟨a, ha, h⟩ := bind_eq_ok.mp h
    cases h
    exact ⟨_, bind_eq_ok.mpr ⟨a, ha, rfl⟩, rfl, hexports, himports, hschemas⟩
  · obtain ⟨a, ha, h⟩ := bind_eq_ok.mp h
    cases h
    exact ⟨_, bind_eq_ok.mpr ⟨a, ha, rfl⟩, hversion, rfl, himports, hschemas⟩
  · obtain ⟨a, ha, h⟩ := bind_eq_ok.mp h
    cases h
    exact ⟨_, bind_eq_ok.mpr ⟨a, ha, rfl⟩, hversion, hexports, rfl, hschemas⟩
  · split at h
    · cases h
      exact ⟨_, if_pos ‹_›, hversion, hexports, himports, .refl _⟩
    · obtain ⟨a, ha, h⟩ := bind_eq_ok.mp h
      cases h
      exact ⟨_, (if_neg ‹_›).trans (bind_eq_ok.mpr ⟨a, ha, rfl⟩), hversion, hexports, himports, .refl _⟩
  · cases h
    exact ⟨_, rfl, hversion, hexports, himports, hschemas⟩

theorem readField_components {s s' t : Draft} {v w : Value} (hs : s.Reordered s')
    (hvw : Value.Within "schemas" Value.Permuted v w) (h : readField s "components" v = .ok t) :
    ∃ t', readField s' "components" w = .ok t' ∧ t.Reordered t' := by
  have hnull : v.isNull = false ∧ w.isNull = false := by
    obtain ⟨_, _, _, _, _, rfl, rfl⟩ := hvw
    exact ⟨rfl, rfl⟩
  simp only [readField, hnull, Bool.false_eq_true, if_false] at h ⊢
  obtain ⟨xs, hxs, h⟩ := bind_eq_ok.mp h
  cases h
  obtain ⟨ys, hys, hperm⟩ := readComponents_perm hvw hxs
  exact ⟨_, bind_eq_ok.mpr ⟨ys, hys, rfl⟩, hs.version, hs.exports, hs.imports, hperm⟩

/-- Documents whose schemas stand in another order are read as such. -/
theorem read_reordered {raw raw' : Value} {doc : FunctionDocument} (h : raw.Reordered raw')
    (hread : FunctionDocument.read raw = .ok doc) :
    ∃ doc', FunctionDocument.read raw' = .ok doc' ∧ doc.Reordered doc' := by
  obtain ⟨s, hs, hread⟩ := bind_eq_ok.mp hread
  obtain ⟨version, hversion, hread⟩ := bind_eq_ok.mp hread
  cases hread
  obtain ⟨s', hs', hreordered⟩ := Record.fold_within readField h (R := Draft.Reordered)
    (fun _ _ _ _ _ hu ht => readField_reordered hu ht) (fun _ _ _ _ _ hu hvw ht => readField_components hu hvw ht)
    ⟨rfl, rfl, rfl, .refl _⟩ hs
  refine ⟨_, bind_eq_ok.mpr ⟨s', hs', bind_eq_ok.mpr ⟨version, ?_, rfl⟩⟩, hreordered.exports, hreordered.imports,
    hreordered.schemas⟩
  obtain ⟨before, after, x, y, _, rfl, rfl⟩ := h
  rw [hreordered.version]
  exact hversion

theorem nodup_keys_schemas {raw raw' : Value} {doc : FunctionDocument} (h : raw.Reordered raw') (hraw : raw.Unrepeated)
    (hread : FunctionDocument.read raw = .ok doc) : (Keyed.keys doc.schemas).Nodup := by
  obtain ⟨_, _, hget, _, _, _, _, _, _, rfl, _⟩ := Value.Within.get? h hraw
  obtain ⟨_, _, _, _, _, rfl, _⟩ := h
  rw [keys_schemas hraw hread rfl, Structure.schemaNames_eq]
  · exact Structure.nodup_membersAt hraw _
  · intro v hv
    obtain ⟨w, hw, hvw⟩ := Option.bind_eq_some_iff.mp hv
    cases hvw
    cases hget.symm.trans hw
    rfl

end FunctionDocument

end BindingSchema
