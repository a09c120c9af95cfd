import BindingSchema.Proofs.Interface.Fields
import BindingSchema.Proofs.Structure.Regular

/-!
What the walk leaves for reading to find.

The walk looks at the types, formats, enums, references, properties and map values of every description,
and at the content types; it does not look at the frame around them, nor at texts and flags
(`Value.FramedDefinition`, `Value.FramedFunction`). Both know the same words, each from a table of its own
(`TypeName.get?_words`, `Format.get?_words`, `ContentType.get?_words`), and take the same shapes. So
where the frame is in order and the walk finds nothing wrong, reading comes to its end
(`Described.succeeds`, `succeeds_read`), and a document is never turned down for its types alone
(`errors_of_framed`).
-/

namespace BindingSchema

open Decode

namespace Decode

/-! ## Readings that come to their end -/

def Succeeds {α : Type} (x : Result α) : Prop := ∃ a, x = .ok a

section

variable {α β σ : Type}

theorem Succeeds.bind {x : Result α} {f : α → Result β} (hx : Succeeds x)
    (hf : ∀ a, x = .ok a → Succeeds (f a)) : Succeeds (x >>= f) := by
  obtain ⟨a, rfl⟩ := hx
  exact hf a rfl

/-- A member that is read sets its field. -/
theorem Succeeds.set {x : Result α} (hx : Succeeds x) (set : α → σ) :
    Succeeds (x >>= fun a => pure (set a)) :=
  hx.bind fun a _ => ⟨set a, rfl⟩

theorem Succeeds.map {x : Result α} (hx : Succeeds x) (f : α → β) : Succeeds (x.map f) := by
  obtain ⟨a, rfl⟩ := hx
  exact ⟨f a, rfl⟩

theorem succeeds_mapM {f : α → Result β} {xs : List α} (h : ∀ x ∈ xs, Succeeds (f x)) :
    Succeeds (xs.mapM f) := by
  induction xs with
  | nil => exact ⟨[], rfl⟩
  | cons x xs ih =>
    obtain ⟨hx, hxs⟩ := List.forall_mem_cons.mp h
    rw [List.mapM_cons]
    exact hx.bind fun _ _ => (ih hxs).set _

theorem succeeds_foldlM {step : σ → α → Result σ} {xs : List α} (h : ∀ x ∈ xs, ∀ s, Succeeds (step s x)) :
    ∀ s, Succeeds (xs.foldlM step s) := by
  induction xs with
  | nil => exact fun s => ⟨s, rfl⟩
  | cons x xs ih =>
    obtain ⟨hx, hxs⟩ := List.forall_mem_cons.mp h
    intro s
    rw [List.foldlM_cons]
    exact (hx s).bind fun s' _ => ih hxs s'

theorem succeeds_optional {read : Value → Result α} {v : Value} (h : v ≠ .null → Succeeds (read v)) :
    Succeeds (optional read v) := by
  unfold optional
  split
  · exact ⟨none, rfl⟩
  · rename_i hne
    exact (h hne).map some

/-- A word that stands for something is read, by a table with the same words. -/
theorem succeeds_word {words : List (String × α)} {ofText? : String → Option α}
    (hwords : ∀ s, Keyed.get? words s = ofText? s) {v : Value} {a : α} (h : v.asString?.bind ofText? = some a)
    (source : Source) : Succeeds (word source words v) := by
  cases v with
  | string s => exact ⟨a, word_of_text hwords h⟩
  | _ => cases h

end

end Decode

/-! ## The frame -/

namespace Value

def IsString : Value → Prop
  | .string _ => True
  | _ => False

def IsBool : Value → Prop
  | .bool _ => True
  | _ => False

def IsListOf (P : Value → Prop) : Value → Prop
  | .array items => ∀ v ∈ items, P v
  | _ => False

/-- Null stands for what is left out. -/
def OrNull (P : Value → Prop) (v : Value) : Prop := v ≠ .null → P v

/-- A member that is there has the property. -/
def Has (v : Value) (key : String) (P : Value → Prop) : Prop := ∀ w, v.get? key = some w → P w

structure IsSample (v : Value) : Prop where
  lang : ∃ s, v.get? "lang" = some (.string s)
  source : ∃ s, v.get? "source" = some (.string s)
  label : v.Has "label" (OrNull IsString)

/-- What the walk does not look at in a description. -/
structure FramedDefinition (v : Value) : Prop where
  member : ∀ way : Way, way ≠ .mapValues → ∀ w, v.follow? way.keys = some w → w.IsRecord
  description : v.Has "description" (OrNull IsString)
  nullable : v.Has "nullable" (OrNull IsBool)
  required : v.Has "required" (OrNull (IsListOf IsString))

/-- The frame of a description and of all the descriptions below it. -/
def FramedBelow (v : Value) : Prop :=
  ∀ (ways : List Way) w, v.follow? (ways.flatMap Way.keys) = some w → w.FramedDefinition

theorem framedBelow_iff {v : Value} :
    v.FramedBelow ↔ v.FramedDefinition ∧ ∀ (way : Way) w, v.follow? way.keys = some w → w.FramedBelow := by
  constructor
  · refine fun h => ⟨h [] v rfl, fun way w hw ways u hu => h (way :: ways) u ?_⟩
    rw [List.flatMap_cons, follow?_append, hw]
    exact hu
  · rintro ⟨hv, hbelow⟩ ways u hu
    cases ways with
    | nil => cases hu; exact hv
    | cons way ways =>
      rw [List.flatMap_cons, follow?_append] at hu
      obtain ⟨w, hw, hu⟩ := Option.bind_eq_some_iff.mp hu
      exact hbelow way w hw ways u hu

/-- What the walk does not look at in a function. -/
structure FramedFunction (v : Value) : Prop where
  description : v.Has "description" (OrNull IsString)
  codeSamples : v.Has "codeSamples" (OrNull (IsListOf IsSample))

end Value

/-- The document is made of objects, or of nothing, where functions, components, schemas, properties and items
belong, and its texts and flags are such. -/
structure Framed (raw : Value) : Prop where
  functions : ∀ (side : Side) v, raw.follow? [.field side.key] = some v → v.IsRecord
  function : ∀ (side : Side) index v, raw.follow? [.field side.key, .entry index] = some v →
    v.IsRecord ∧ v.FramedFunction
  components : ∀ v, raw.follow? [.field "components"] = some v → v.IsRecord
  schemas : ∀ v, raw.follow? [.field "components", .field "schemas"] = some v → v.IsRecord
  schema : ∀ index v, raw.follow? (Root.schema index).keys = some v → v.IsRecord
  definition : ∀ (root : Root) v, raw.follow? root.keys = some v → v.FramedBelow

/-! ## Texts, flags and lists -/

namespace Decode

theorem succeeds_string {v : Value} (h : v.IsString) : Succeeds (string v) := by
  cases v with
  | string s => exact ⟨s, rfl⟩
  | _ => cases h

theorem succeeds_bool {v : Value} (h : v.IsBool) : Succeeds (bool v) := by
  cases v with
  | bool b => exact ⟨b, rfl⟩
  | _ => cases h

theorem succeeds_listOrNull {α : Type} {read : Value → Result α} {P : Value → Prop} {v : Value} (hv : v.Unrepeated)
    (h : v.OrNull (Value.IsListOf P)) (hread : ∀ w, w.Unrepeated → P w → Succeeds (read w)) :
    Succeeds (listOrNull read v) := by
  cases v with
  | null => exact ⟨[], rfl⟩
  | array items =>
    exact succeeds_mapM fun w hw => hread w (Value.unrepeated_array.mp hv w hw) (h (by simp) w hw)
  | _ => exact (h (by simp)).elim

theorem succeeds_named {α : Type} {absent : α} {read : Value → Result α} {v : Value} (hv : v.IsRecord)
    (hread : ∀ index w, v.member? (.entry index) = some w → w ≠ .null → Succeeds (read w)) :
    Succeeds (named absent read v) := by
  cases v with
  | null => exact ⟨[], rfl⟩
  | object members =>
    refine succeeds_mapM fun m hm => ?_
    obtain ⟨index, hindex⟩ := List.mem_iff_getElem?.mp hm
    have hentry : Value.member? (.object members) (.entry index) = some m.2 := by simp [Value.member?, hindex]
    refine Succeeds.map ?_ _
    dsimp only
    split
    · exact ⟨_, rfl⟩
    · rename_i hne
      exact hread index m.2 hentry hne
  | _ => rcases hv with hv | hv <;> cases hv

end Decode

theorem Keyed.get?_of_mem {α : Type u} {m : Keyed α} {key : String} {value : α} (hnodup : (Keyed.keys m).Nodup)
    (h : (key, value) ∈ m) : Keyed.get? m key = some value := by
  induction m with
  | nil => cases h
  | cons e rest ih =>
    obtain ⟨k, v⟩ := e
    obtain ⟨hnot, hnodup⟩ := List.nodup_cons.mp hnodup
    rcases List.mem_cons.mp h with heq | hmem
    · cases heq
      simp [Keyed.get?]
    · have hk : k ≠ key := by
        rintro rfl
        exact hnot (List.mem_map.mpr ⟨_, hmem, rfl⟩)
      rw [Keyed.get?, if_neg hk]
      exact ih hnodup hmem

/-- Where no key comes twice, a record is read if each of its members is. -/
theorem Decode.succeeds_members {σ : Type} (step : σ → String → Value → Result σ) {members : List (String × Value)}
    (hnodup : (Keyed.keys members).Nodup)
    (h : ∀ name w, Keyed.get? members name = some w → ∀ s, Succeeds (step s name w)) (s : σ) :
    Succeeds (members.foldlM (fun s m => step s m.1 m.2) s) :=
  succeeds_foldlM (fun m hm s => h m.1 m.2 (Keyed.get?_of_mem hnodup hm) s) s

/-- A text that must not be left out is there after reading, if it is there to be read. -/
theorem Decode.exists_text_of_foldlM {σ : Type} (step : σ → String → Value → Result σ) (field : σ → Option String)
    {key : String} (hkey : ∀ s v, ∃ set : String → σ, step s key v = (string v >>= fun a => pure (set a)) ∧
      ∀ a, field (set a) = some a)
    (hother : ∀ s name v s', name ≠ key → step s name v = .ok s' → field s' = field s)
    {members : List (String × Value)} {s t : σ} (hnodup : (Keyed.keys members).Nodup) {w : Value}
    (hw : Keyed.get? members key = some w) (h : members.foldlM (fun s m => step s m.1 m.2) s = .ok t) :
    ∃ text, field t = some text := by
  have hgiven := given_of_foldlM step field (fun _ a => ∃ text, a = some text) (fun s v s' h => ?_) hother hnodup h
  · unfold Given at hgiven
    rwa [hw] at hgiven
  · obtain ⟨set, hset, hfield⟩ := hkey s v
    obtain ⟨a, rfl⟩ := eq_of_set (hset ▸ h)
    exact ⟨a, hfield a⟩

/-! ## Code samples -/

namespace CodeSample

theorem readField_other {s s' : Draft} {name : String} {v : Value} (h : readField s name v = .ok s') :
    (name ≠ "lang" → s'.lang = s.lang) ∧ (name ≠ "source" → s'.source = s.source) := by
  unfold readField at h
  split at h
  case h_4 =>
    cases h
    simp
  all_goals
    obtain ⟨a, _, h⟩ := bind_eq_ok.mp h
    cases h
    simp

theorem succeeds_read {v : Value} (hv : v.Unrepeated) (h : v.IsSample) : Succeeds (read .inPlace v) := by
  obtain ⟨⟨lang, hlang⟩, ⟨src, hsource⟩, hlabel⟩ := h
  cases v with
  | object members =>
    have hnodup := (Value.unrepeated_object.mp hv).1
    have hfields : ∀ name w, Keyed.get? members name = some w → ∀ s, Succeeds (readField s name w) := by
      intro name w hget s
      unfold readField
      split
      · cases hget.symm.trans hlang
        exact ⟨_, rfl⟩
      · cases hget.symm.trans hsource
        exact ⟨_, rfl⟩
      · exact (succeeds_optional fun hne => succeeds_string (hlabel w hget hne)).set _
      · exact ⟨_, rfl⟩
    refine (succeeds_members readField hnodup hfields {}).bind fun d hd => ?_
    obtain ⟨lang', hlang'⟩ := exists_text_of_foldlM readField (·.lang)
      (fun s _ => ⟨fun a => { s with lang := some a }, rfl, fun _ => rfl⟩)
      (fun _ _ _ _ hne h => (readField_other h).1 hne) hnodup hlang hd
    obtain ⟨source', hsource'⟩ := exists_text_of_foldlM readField (·.source)
      (fun s _ => ⟨fun a => { s with source := some a }, rfl, fun _ => rfl⟩)
      (fun _ _ _ _ hne h => (readField_other h).2 hne) hnodup hsource hd
    rw [hlang', hsource']
    exact ⟨⟨lang', source', d.label⟩, rfl⟩
  | _ => cases hlang

end CodeSample

/-! ## One description -/

namespace Structure

section

variable {members : List (String × Value)} {place : Pointer} {v : Value}

theorem succeeds_type (hcheck : checkType members place = []) (hget : Keyed.get? members "type" = some v)
    (source : Source) : Succeeds (optional (word source TypeName.words) v) := by
  refine succeeds_optional fun hne => ?_
  have hpresent := present?_eq_some hget hne
  unfold checkType at hcheck
  rw [hpresent] at hcheck
  cases htype : typeOf members with
  | none => simp [htype] at hcheck
  | some t =>
    rw [typeOf, hpresent] at htype
    exact succeeds_word TypeName.get?_words htype source

theorem succeeds_format (hcheck : checkFormat members place = []) (hget : Keyed.get? members "format" = some v)
    (source : Source) : Succeeds (optional (word source Format.words) v) := by
  refine succeeds_optional fun hne => ?_
  unfold checkFormat at hcheck
  rw [present?_eq_some hget hne] at hcheck
  cases hformat : v.asString?.bind Format.ofText? with
  | none => simp [hformat] at hcheck
  | some f => exact succeeds_word Format.get?_words hformat source

theorem succeeds_enum (hcheck : checkEnum members place = []) (hget : Keyed.get? members "enum" = some v) :
    Succeeds (optional (list .ok) v) := by
  refine succeeds_optional fun hne => ?_
  unfold checkEnum at hcheck
  rw [present?_eq_some hget hne] at hcheck
  cases v with
  | array items => exact succeeds_mapM fun w _ => ⟨w, rfl⟩
  | _ => cases hcheck

theorem succeeds_reference {schemas : List String} (hcheck : checkReference schemas members place = [])
    (hget : Keyed.get? members "$ref" = some v) : Succeeds (optional string v) := by
  refine succeeds_optional fun hne => ?_
  unfold checkReference at hcheck
  rw [present?_eq_some hget hne] at hcheck
  cases v with
  | string path => exact ⟨path, rfl⟩
  | _ => cases hcheck

/-- Properties that the walk has nothing to say about are a map. -/
theorem isRecord_properties (hcheck : checkProperties members place = [])
    (hget : Keyed.get? members "properties" = some v) : v.IsRecord := by
  by_cases hne : v = .null
  · exact .inr (by rw [hne]; rfl)
  unfold checkProperties at hcheck
  rw [present?_eq_some hget hne] at hcheck
  cases v with
  | object entries => exact .inl rfl
  | _ => cases hcheck

/-- Map values that the walk has nothing to say about are a flag or an object. -/
theorem succeeds_mapValues (hcheck : checkMapValues members place = [])
    (hget : Keyed.get? members "additionalProperties" = some v) {r : Definition.Readings}
    (hread : v.isObject = true → Succeeds (r.definition .inPlace)) : Succeeds (Definition.mapValues v r) := by
  unfold Definition.mapValues
  split
  · exact ⟨_, rfl⟩
  · exact ⟨_, rfl⟩
  · exact ⟨_, rfl⟩
  · rename_i hnull hfalse htrue
    unfold checkMapValues at hcheck
    rw [present?_eq_some hget hnull] at hcheck
    cases v with
    | object entries => exact (hread rfl).map some
    | bool b => cases b <;> contradiction
    | _ => cases hcheck

end

end Structure

/-! ## Descriptions of descriptions -/

namespace Value

theorem IsRecord.isObject {v : Value} (h : v.IsRecord) (hne : v ≠ .null) : v.isObject = true := by
  refine h.resolve_right fun hnull => hne ?_
  cases v with
  | null => rfl
  | _ => cases hnull

theorem follow?_concat {keys : List Key} {key : Key} {u v w : Value} (hw : v.follow? keys = some w)
    (hu : w.member? key = some u) : v.follow? (keys ++ [key]) = some u := by
  rw [follow?_append, hw, Option.bind_some, follow?, hu]
  rfl

theorem sizeOf_lt_of_member? {v w : Value} {key : Key} (hw : v.member? key = some w) : sizeOf w < sizeOf v := by
  obtain ⟨members, name, rfl, hmem⟩ := exists_mem_of_member? hw
  have hlt := List.sizeOf_lt_of_mem hmem
  simp only [Prod.mk.sizeOf_spec, Value.object.sizeOf_spec] at hlt ⊢
  omega

theorem sizeOf_le_of_follow? {keys : List Key} {v w : Value} (hw : v.follow? keys = some w) : sizeOf w ≤ sizeOf v := by
  induction keys generalizing v with
  | nil => cases hw; exact Nat.le_refl _
  | cons key keys ih =>
    obtain ⟨u, hu, hrest⟩ := Option.bind_eq_some_iff.mp hw
    exact Nat.le_of_lt (Nat.lt_of_le_of_lt (ih hrest) (sizeOf_lt_of_member? hu))

/-- What a way leads to is smaller. -/
theorem sizeOf_lt_of_way {way : Way} {v w : Value} (hw : v.follow? way.keys = some w) : sizeOf w < sizeOf v := by
  obtain ⟨key, keys, hkeys⟩ : ∃ key keys, way.keys = key :: keys := by cases way <;> exact ⟨_, _, rfl⟩
  rw [hkeys] at hw
  obtain ⟨u, hu, hrest⟩ := Option.bind_eq_some_iff.mp hw
  exact Nat.lt_of_le_of_lt (sizeOf_le_of_follow? hrest) (sizeOf_lt_of_member? hu)

end Value

open Structure

/-- The walk went over a description and found nothing wrong with it or below, and the frame is in order. -/
structure Described (schemas : List String) (v : Value) : Prop where
  unrepeated : v.Unrepeated
  walk : ∃ place, Deep place ∧ Structure.walk schemas place true v = []
  framed : v.FramedBelow

namespace Described

variable {schemas : List String}

theorem below {v w : Value} {way : Way} (h : Described schemas v) (hw : v.follow? way.keys = some w) :
    Described schemas w := by
  obtain ⟨hv, ⟨place, hplace, hwalk⟩, hframed⟩ := h
  exact ⟨hv.follow? hw, walk_below hplace hwalk hw, (Value.framedBelow_iff.mp hframed).2 way w hw⟩

section

variable {members : List (String × Value)} (h : Described schemas (.object members))

include h

theorem checked : ∃ place, checkDescription schemas members place = [] := by
  obtain ⟨place, _, hwalk⟩ := h.walk
  exact ⟨place, (walk_object.mp hwalk).1 rfl⟩

/-- A member of a description is read, if the descriptions below are. -/
theorem succeeds_readField
    (ih : ∀ way w, Value.follow? (.object members) (Way.keys way) = some w → w.isObject = true →
      ∀ source, Succeeds (Definition.read source w))
    {name : String} {w : Value} (hget : Keyed.get? members name = some w) (source : Source) (d : Definition) :
    Succeeds (Definition.readField source d name w (Definition.readings source w)) := by
  obtain ⟨place, hcheck⟩ := h.checked
  unfold checkDescription at hcheck
  simp only [List.append_eq_nil_iff] at hcheck
  obtain ⟨⟨⟨⟨⟨htype, hformat⟩, hproperties⟩, hvalues⟩, henum⟩, hreference⟩ := hcheck
  have hframed := (Value.framedBelow_iff.mp h.framed).1
  -- in the order of the fields; last come the names that are passed over
  unfold Definition.readField
  split
  · exact (succeeds_type htype hget source).set _
  · exact (succeeds_format hformat hget source).set _
  · exact (succeeds_optional fun hne => succeeds_string (hframed.description w hget hne)).set _
  · exact (succeeds_optional fun hne => succeeds_bool (hframed.nullable w hget hne)).set _
  · have hway : Value.follow? (.object members) Way.items.keys = some w := by
      simp [Way.keys, Value.follow?, Value.member?, hget]
    split
    · exact ⟨_, rfl⟩
    · rename_i hnull
      have hobject := (hframed.member .items (by simp) w hway).resolve_right hnull
      exact (ih .items w hway hobject source).set _
  · have hway : Value.follow? (.object members) Way.mapValues.keys = some w := by
      simp [Way.keys, Value.follow?, Value.member?, hget]
    exact (succeeds_mapValues hvalues hget fun hobject => ih .mapValues w hway hobject .inPlace).set _
  · have hmap := isRecord_properties hproperties hget
    refine Succeeds.set ?_ _
    rw [Definition.entries_readings]
    refine succeeds_named hmap fun index u hu hne => ?_
    have hmember : Value.member? (.object members) (.field "properties") = some w := hget
    have hway : Value.follow? (.object members) (Way.property index).keys = some u := by
      simp [Way.keys, Value.follow?, hmember, hu]
    exact ih (.property index) u hway ((hframed.member _ (by simp) u hway).isObject hne) source
  · have hw := (Value.unrepeated_object.mp h.unrepeated).2 _ (Keyed.mem_of_get? hget)
    exact (succeeds_listOrNull hw (hframed.required w hget) fun u _ hu => succeeds_string hu).set _
  · exact (succeeds_enum henum hget).set _
  · exact (succeeds_reference hreference hget).set _
  · exact ⟨_, rfl⟩

end

/-- A description that the walk finds nothing wrong with, in a frame that is in order, is read as a
definition. The induction is on the size of its value. -/
theorem succeeds {v : Value} (h : Described schemas v) (hv : v.isObject = true) (source : Source) :
    Succeeds (Definition.read source v) := by
  induction hsize : sizeOf v using Nat.strongRecOn generalizing v source with
  | ind size ih =>
    subst hsize
    cases v with
    | object members =>
      have hnodup := (Value.unrepeated_object.mp h.unrepeated).1
      rw [Definition.read_eq_fold]
      let step : Definition → String → Value → Result Definition := fun d name w =>
        Definition.readField source d name w (Definition.readings source w)
      refine succeeds_members step hnodup (fun name w hget d => ?_) {}
      refine h.succeeds_readField (fun way u hu hobject source => ?_) hget source d
      exact ih (sizeOf u) (Value.sizeOf_lt_of_way hu) (h.below hu) hobject source rfl
    | _ => cases hv

end Described

/-! ## Functions -/

/-- A description whose content type is not found wrong is read as an input or output. -/
theorem succeeds_parameter {schemas : List String} {place : Pointer} {fields : List (String × Value)} {v : Value}
    {slot : Slot} (hcheck : checkContentType place (.object fields) slot.key = [])
    (hget : Keyed.get? fields slot.key = some v) (hne : v ≠ .null) (h : Described schemas v) :
    Succeeds (ParameterDefinition.read v) := by
  unfold checkContentType at hcheck
  rw [Value.get?, hget] at hcheck
  cases v with
  | null => exact absurd rfl hne
  | object members =>
    have hword : (((Keyed.get? members "contentType").bind (·.asString?)).bind ContentType.ofText?).isSome := by
      by_contra hnot
      simp [Value.get?, hnot] at hcheck
    obtain ⟨c, hc⟩ := Option.isSome_iff_exists.mp hword
    rw [Option.bind_assoc] at hc
    obtain ⟨w, hw, hc⟩ := Option.bind_eq_some_iff.mp hc
    -- the content type is read in place, and the definition around it is set aside
    obtain ⟨contentType, hcontentType⟩ := succeeds_word ContentType.get?_words hc .inPlace
    obtain ⟨d, hd⟩ := h.succeeds rfl .setAside
    refine ⟨⟨contentType, d⟩, ?_⟩
    have hread : (Keyed.get? members "contentType").mapM (word .inPlace ContentType.words) =
        .ok (some contentType) := by
      rw [hw]
      show (word .inPlace ContentType.words w).map some = _
      rw [hcontentType]
      rfl
    rw [ParameterDefinition.read, hread, hd]
    rfl
  | _ => cases hcheck

/-! ## Documents -/

theorem Structure.checkContentType_of_entry {raw entry : Value} {side : Side} {index : Nat}
    (hcheck : checkFunctions raw side.key = [])
    (hentry : raw.follow? [.field side.key, .entry index] = some entry) (slot : Slot) :
    ∃ place, checkContentType place entry slot.key = [] := by
  obtain ⟨v, hv, hentry⟩ := Option.bind_eq_some_iff.mp hentry
  obtain ⟨_, hentry, hnil⟩ := Option.bind_eq_some_iff.mp hentry
  cases hnil
  cases raw with
  | object members =>
    cases v with
    | object entries =>
      obtain ⟨⟨name, _⟩, hindex, rfl⟩ := Option.map_eq_some_iff.mp hentry
      rw [checkFunctions, Value.get?, show Keyed.get? members side.key = _ from hv] at hcheck
      have := List.flatMap_eq_nil_iff.mp hcheck _ (List.mem_of_getElem? hindex)
      simp only [List.append_eq_nil_iff] at this
      cases slot with
      | input => exact ⟨_, this.1.2⟩
      | output => exact ⟨_, this.2⟩
    | _ => cases hentry
  | _ => cases hv

/-- The walk goes over every description that stands where definitions begin. -/
theorem Framed.described {raw v : Value} {root : Root} {schemas : List String} (hframed : Framed raw)
    (hraw : raw.Unrepeated) (hwalk : walk schemas .root true raw = []) (hv : raw.follow? root.keys = some v) :
    Described schemas v :=
  ⟨hraw.follow? hv, walk_root hwalk hv, hframed.definition root v hv⟩

namespace FunctionDocument

theorem version_readField {s s' : Draft} {name : String} {v : Value} (h : readField s name v = .ok s')
    (hne : name ≠ "version") : s'.version = s.version := by
  unfold readField at h
  split at h
  case h_4 =>
    split at h
    · cases h
      rfl
    · obtain ⟨schemas, _, h⟩ := bind_eq_ok.mp h
      cases h
      rfl
  case h_1 => exact absurd rfl hne
  case h_5 =>
    cases h
    rfl
  all_goals
    obtain ⟨functions, _, h⟩ := bind_eq_ok.mp h
    cases h
    rfl

section

variable {raw : Value} (hraw : raw.Unrepeated) (hframed : Framed raw) (hcheck : Structure.check raw = [])

include hraw hframed hcheck

theorem succeeds_readFunction {side : Side} {index : Nat} {entry : Value}
    (hentry : raw.follow? [.field side.key, .entry index] = some entry) (hne : entry ≠ .null) :
    Succeeds (FunctionDefinition.read entry) := by
  obtain ⟨hdeclarations, hwalk⟩ := List.append_eq_nil_iff.mp hcheck
  rw [Structure.checkDeclarations] at hdeclarations
  simp only [List.append_eq_nil_iff] at hdeclarations
  obtain ⟨⟨hexports, himports⟩, _⟩ := hdeclarations
  have hside : Structure.checkFunctions raw side.key = [] := by cases side <;> assumption
  obtain ⟨hrecord, hfunction⟩ := hframed.function side index entry hentry
  have hobject := hrecord.isObject hne
  cases entry with
  | object fields =>
    obtain ⟨hnodup, hfields⟩ := Value.unrepeated_object.mp (hraw.follow? hentry)
    have hparameter : ∀ (slot : Slot) w, Keyed.get? fields slot.key = some w →
        Succeeds (optional ParameterDefinition.read w) := by
      intro slot w hget
      obtain ⟨place, hcontent⟩ := Structure.checkContentType_of_entry hside hentry slot
      have hroot : raw.follow? (Root.parameter side index slot).keys = some w := Value.follow?_concat hentry hget
      exact succeeds_optional fun hne =>
        succeeds_parameter hcontent hget hne (hframed.described hraw hwalk hroot)
    refine succeeds_members FunctionDefinition.readField hnodup (fun name w hget f => ?_) {}
    unfold FunctionDefinition.readField
    split
    · exact (succeeds_optional fun hne => succeeds_string (hfunction.description w hget hne)).set _
    · refine (succeeds_listOrNull (hfields _ (Keyed.mem_of_get? hget)) (hfunction.codeSamples w hget) ?_).set _
      exact fun u hu hsample => CodeSample.succeeds_read hu hsample
    · exact (hparameter .input w hget).set _
    · exact (hparameter .output w hget).set _
    · exact ⟨_, rfl⟩
  | _ => cases hobject

theorem succeeds_readComponents {v : Value} (hv : raw.follow? [.field "components"] = some v) (hne : v ≠ .null) :
    Succeeds (readComponents v) := by
  have hwalk := (List.append_eq_nil_iff.mp hcheck).2
  have hobject := (hframed.components v hv).isObject hne
  cases v with
  | object members =>
    have hnodup := (Value.unrepeated_object.mp (hraw.follow? hv)).1
    let step : Keyed Definition → String → Value → Result (Keyed Definition) := fun schemas name v =>
      if name = "schemas" then named {} (Definition.read .inPlace) v else return schemas
    refine succeeds_members step hnodup (fun name w hget schemas => ?_) []
    by_cases hname : name = "schemas"
    · subst hname
      have hschemas : raw.follow? [.field "components", .field "schemas"] = some w := Value.follow?_concat hv hget
      refine succeeds_named (hframed.schemas w hschemas) fun index u hu hne => ?_
      have hroot : raw.follow? (Root.schema index).keys = some u := Value.follow?_concat hschemas hu
      exact (hframed.described hraw hwalk hroot).succeeds ((hframed.schema index u hroot).isObject hne) .inPlace
    · exact ⟨schemas, if_neg hname⟩
  | _ => cases hobject

/-- A document whose frame is in order, and whose structure is, is read. -/
theorem succeeds_read {version : String} (hversion : raw.get? "version" = some (.string version)) :
    Succeeds (FunctionDocument.read raw) := by
  cases raw with
  | object members =>
    have hnodup := (Value.unrepeated_object.mp hraw).1
    have hmember : ∀ {name w}, Keyed.get? members name = some w →
        Value.follow? (.object members) [.field name] = some w := by
      intro name w hget
      simp [Value.follow?, Value.member?, hget]
    have hfunctions : ∀ (side : Side) w, Keyed.get? members side.key = some w →
        Succeeds (named {} FunctionDefinition.read w) := by
      intro side w hget
      refine succeeds_named (hframed.functions side w (hmember hget)) fun index entry hentry hne => ?_
      have hfollow : Value.follow? (.object members) [.field side.key, .entry index] = some entry :=
        Value.follow?_concat (hmember hget) hentry
      exact succeeds_readFunction hraw hframed hcheck hfollow hne
    have hfields : ∀ name w, Keyed.get? members name = some w → ∀ d, Succeeds (readField d name w) := by
      intro name w hget d
      unfold readField
      split
      · cases hget.symm.trans hversion
        exact ⟨_, rfl⟩
      · exact (hfunctions .exported w hget).set _
      · exact (hfunctions .imported w hget).set _
      · split
        · exact ⟨_, rfl⟩
        · rename_i hnull
          refine (succeeds_readComponents hraw hframed hcheck (hmember hget) ?_).set _
          rintro rfl
          exact hnull rfl
      · exact ⟨_, rfl⟩
    refine (succeeds_members readField hnodup hfields {}).bind fun d hd => ?_
    obtain ⟨text, htext⟩ := exists_text_of_foldlM readField (·.version)
      (fun s _ => ⟨fun a => { s with version := some a }, rfl, fun _ => rfl⟩)
      (fun _ _ _ _ hne h => version_readField h hne) hnodup hversion hd
    rw [htext]
    exact ⟨_, rfl⟩
  | _ => cases hversion

end

end FunctionDocument

/-- A document of version 1 in a frame that is in order is read if the check of its structure finds nothing
wrong. So it is never turned down for its types alone: what is reported is what the check found. -/
theorem errors_of_framed {raw : Value} {version : Version} (hversion : Document.statedVersion? raw = some version)
    (hne : version ≠ .v0) (hraw : raw.Unrepeated) (hframed : Framed raw) :
    (Structure.check raw = [] → ∃ doc, FunctionDocument.read raw = .ok doc ∧
      (readDocument raw).document = some (.functions doc)) ∧
    (readDocument raw).errors = Structure.check raw := by
  obtain ⟨text, htext⟩ : ∃ text, raw.get? "version" = some (.string text) := by
    obtain ⟨text, hword, _⟩ := Option.bind_eq_some_iff.mp hversion
    obtain ⟨w, hget, hstring⟩ := Option.bind_eq_some_iff.mp hword
    cases w with
    | string s => exact ⟨s, hget⟩
    | _ => cases hstring
  have hread : Structure.check raw = [] → Succeeds (FunctionDocument.read raw) := fun hcheck =>
    FunctionDocument.succeeds_read hraw hframed hcheck htext
  have hreading : readDocument raw = .of ((FunctionDocument.read raw).map .functions) (Structure.check raw)
      (if version.isDraft then [(Problem.draftVersion version.text).located ⟨["version"]⟩] else []) := by
    simp only [readDocument, hversion, if_neg hne]
    cases version with
    | v0 => exact absurd rfl hne
    | _ => rfl
  rw [hreading]
  constructor
  · intro hcheck
    obtain ⟨doc, hdoc⟩ := hread hcheck
    exact ⟨doc, hdoc, by rw [hdoc]; rfl⟩
  · cases hresult : FunctionDocument.read raw with
    | ok doc => rfl
    | error e =>
      -- what cannot be read has been found wrong
      have hfound : Structure.check raw ≠ [] := by
        intro hcheck
        obtain ⟨doc, hdoc⟩ := hread hcheck
        cases hresult.symm.trans hdoc
      show (if (Structure.check raw).isEmpty then _ else Structure.check raw) = _
      rw [if_neg (by simpa using hfound)]

/-- Coins are counted from a list of the times they were put in. -/
def drawer : Value :=
  .object [("version", .string "v1"),
    ("exports", .object [("count", .object [
      ("codeSamples", .array [.object [("lang", .string "js"), ("source", .string "count([])"), ("label", .null)]]),
      ("input", .object [("contentType", .string "application/json"),
        ("items", .object [("type", .string "string"), ("format", .string "date-time")])])])]),
    ("components", .object [("schemas", .object [("Coin", .object [
      ("properties", .object [("weight", .object [("type", .string "number"), ("nullable", .bool true)])]),
      ("required", .array [.string "weight"]), ("description", .null)])])])]

theorem framed_drawer : Framed drawer := by
  have hitems : Value.FramedBelow (.object [("type", .string "string"), ("format", .string "date-time")]) := by
    refine Value.framedBelow_iff.mpr ⟨⟨?_, nofun, nofun, nofun⟩, ?_⟩
    · intro way _ w hw
      cases way <;> cases hw
    · intro way w hw
      cases way <;> cases hw
  have hweight : Value.FramedBelow (.object [("type", .string "number"), ("nullable", .bool true)]) := by
    refine Value.framedBelow_iff.mpr ⟨⟨?_, nofun, ?_, nofun⟩, ?_⟩
    · intro way _ w hw
      cases way <;> cases hw
    · rintro _ ⟨⟩ _
      trivial
    · intro way w hw
      cases way <;> cases hw
  refine ⟨?_, ?_, ?_, ?_, ?_, ?_⟩
  · intro side v hv
    cases side <;> cases hv
    exact .inl rfl
  · intro side index v hv
    cases side with
    | imported => cases hv
    | exported =>
      rcases index with _ | index <;> cases hv
      refine ⟨.inl rfl, nofun, ?_⟩
      rintro _ ⟨⟩ _ v (_ | ⟨_, ⟨⟩⟩)
      refine ⟨⟨_, rfl⟩, ⟨_, rfl⟩, ?_⟩
      rintro _ ⟨⟩ hne
      exact absurd rfl hne
  · rintro v ⟨⟩
    exact .inl rfl
  · rintro v ⟨⟩
    exact .inl rfl
  · intro index v hv
    rcases index with _ | index <;> cases hv
    exact .inl rfl
  · intro root v hv
    cases root with
    | schema index =>
      rcases index with _ | index <;> cases hv
      refine Value.framedBelow_iff.mpr ⟨⟨?_, ?_, nofun, ?_⟩, ?_⟩
      · intro way _ w hw
        rcases way with (_ | index) | _ | _ <;> cases hw
        exact .inl rfl
      · rintro _ ⟨⟩ hne
        exact absurd rfl hne
      · rintro _ ⟨⟩ _ w (_ | ⟨_, ⟨⟩⟩)
        trivial
      · intro way w hw
        rcases way with (_ | index) | _ | _ <;> cases hw
        exact hweight
    | parameter side index slot =>
      rcases index with _ | index <;> cases side <;> cases slot <;> cases hv
      refine Value.framedBelow_iff.mpr ⟨⟨?_, nofun, nofun, nofun⟩, ?_⟩
      · intro way _ w hw
        cases way <;> cases hw
        exact .inl rfl
      · intro way w hw
        cases way <;> cases hw
        exact hitems

/-- The drawer is read, since its structure is in order. -/
theorem errors_of_framed_drawer :
    drawer.Unrepeated ∧ Framed drawer ∧ Structure.check drawer = [] ∧
      ∃ doc, (readDocument drawer).document = some (.functions doc) := by
  have hraw : drawer.Unrepeated := by
    simp [drawer, Value.Unrepeated, Value.UnrepeatedMembers, Value.UnrepeatedItems, Keyed.keys]
  have hcheck : Structure.check drawer = [] := by decide +kernel
  obtain ⟨hread, _⟩ := errors_of_framed (show Document.statedVersion? drawer = some .v1 from rfl) (by decide) hraw
    framed_drawer
  obtain ⟨doc, _, hdocument⟩ := hread hcheck
  exact ⟨hraw, framed_drawer, hcheck, doc, hdocument⟩

end BindingSchema
