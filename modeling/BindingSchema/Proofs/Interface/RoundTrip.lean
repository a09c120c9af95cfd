import BindingSchema.Interface.Decode
import BindingSchema.Proofs.Interface.Fields
import BindingSchema.Proofs.Interface.Nodes

/-!
What is written of a normal form is read back as the normal form.

Each part is read field by field from what was written of it, from the state in which nothing is read
to the part itself (`Node.reads_encodeFields` and its like). Where a part shares its object with a
node or shape the two have no field in common, so each reader passes over the fields of the other,
and nothing that is written has a key twice but where the normal form itself repeats one. The main
result is `read_encode`.
-/

namespace BindingSchema

open Decode Encode

/-! ## Types -/

/-- The types that a shape is made of. -/
def Shape.children : Shape → List BindingType
  | .object _ properties => properties
  | .enumeration _ elementType _ => [elementType]
  | .array elementType => [elementType]
  | .map keyType valueType => [keyType, valueType]
  | _ => []

namespace BindingType

theorem sizeOf_lt_of_mem_children {shape : Shape} {u : BindingType} (hu : u ∈ shape.children) :
    sizeOf u < sizeOf shape := by
  cases shape with
  | object name properties =>
    have := List.sizeOf_lt_of_mem (show u ∈ properties from hu)
    simp only [Shape.object.sizeOf_spec]
    omega
  | enumeration name elementType values =>
    obtain rfl := List.mem_singleton.mp hu
    simp only [Shape.enumeration.sizeOf_spec]
    omega
  | array elementType =>
    obtain rfl := List.mem_singleton.mp hu
    simp only [Shape.array.sizeOf_spec]
    omega
  | map keyType valueType =>
    simp only [Shape.map.sizeOf_spec]
    rcases List.mem_pair.mp hu with rfl | rfl <;> omega
  | _ => cases hu

/-- What holds of a type if it holds of the types that its shape is made of holds of every type. -/
theorem induct {P : BindingType → Prop}
    (h : ∀ shape nullable, (∀ u ∈ shape.children, P u) → P ⟨shape, nullable⟩) : ∀ t, P t := by
  intro t
  induction hn : sizeOf t using Nat.strongRecOn generalizing t with
  | ind size ih =>
    obtain ⟨shape, nullable⟩ := t
    subst hn
    refine h shape nullable fun u hu => ih (sizeOf u) ?_ u rfl
    have := sizeOf_lt_of_mem_children hu
    simp only [mk.sizeOf_spec]
    omega

theorem encodeAll_eq (ts : List BindingType) : encodeAll ts = ts.map encode := by
  induction ts with
  | nil => rfl
  | cons t ts ih => rw [encodeAll, ih, List.map_cons]

def readings (v : Value) : Readings where
  type := fun _ => read v
  types := fun _ => match v with
    | .array items => readItems items
    | v => .error (mismatch v "a sequence")

/-- Of an object that is a type, a kind reads the fields that it carries. -/
def payloadStep (kind : Kind) (p : Payload) (field : String) (v : Value) : Result Payload :=
  if (payloadFields kind).contains field then readField p field v (readings v) else .ok p

theorem readPayload_eq (kind : Kind) (members : Members) (p : Payload) :
    readPayload (payloadFields kind) members p = members.foldlM (fun p m => payloadStep kind p m.1 m.2) p := by
  induction members generalizing p with
  | nil => rw [readPayload]; rfl
  | cons m members ih =>
    obtain ⟨field, v⟩ := m
    rw [List.foldlM_cons]
    cases hfield : (payloadFields kind).contains field <;>
      cases v <;> simp only [readPayload, payloadStep, hfield, ih] <;> rfl

theorem types_readings (v : Value) : (readings v).types () = list read v := by
  cases v with
  | array items =>
    show readItems items = items.mapM read
    induction items with
    | nil => rw [readItems]; rfl
    | cons v items ih => rw [readItems, List.mapM_cons, ih]
  | _ => rfl

theorem among_encodePayload (shape : Shape) : Among shape.encodePayload (payloadFields shape.kind) := by
  cases shape with
  | object name properties => exact Among.field.append .field
  | enumeration name elementType values => exact (Among.field.append .field).append .field
  | array elementType => exact .field
  | map keyType valueType => exact Among.field.append .field
  | _ => exact List.Sublist.refl _

/-- What a shape carries is kept apart from what every type says. -/
theorem nodup_fields (kind : Kind) : (["kind"] ++ payloadFields kind ++ ["nullable"]).Nodup := by
  cases kind <;> simp only [payloadFields] <;> decide

theorem not_mem_payloadFields {kind : Kind} {name : String} (h : name ∈ ["kind", "nullable"]) :
    name ∉ payloadFields kind := by
  rcases List.mem_pair.mp h with rfl | rfl <;> cases kind <;> simp [payloadFields]

theorem readHead_encode (shape : Shape) (nullable : Bool) :
    readHead (field "kind" (.string shape.kind.text) ++ shape.encodePayload ++ field "nullable" (.bool nullable)) =
      .ok (shape.kind, nullable) := by
  have hkind : Kind.read (.string shape.kind.text) = .ok shape.kind := by
    rw [Kind.read, Kind.ofText?_text]
  have hnullable : Keyed.get? (field "kind" (.string shape.kind.text) ++ shape.encodePayload ++
      field "nullable" (.bool nullable)) "nullable" = some (.bool nullable) := by
    have hpayload : "nullable" ∉ Keyed.keys shape.encodePayload := fun h =>
      not_mem_payloadFields (by decide) (List.Sublist.subset (among_encodePayload shape) h)
    refine (Keyed.get?_append_of_not_mem ?_ _).trans rfl
    rw [Keyed.keys_append]
    simpa [Keyed.keys, field] using hpayload
  rw [readHead, hnullable]
  show (do return (← Kind.read (.string shape.kind.text), nullable)) = Except.ok (shape.kind, nullable)
  rw [hkind]
  rfl

/-- The payload of a kind is read from what is written of a shape of the kind. -/
theorem reads_encodePayload {shape : Shape} (h : ∀ u ∈ shape.children, read u.encode = .ok u) :
    ∃ p, Reads (payloadStep shape.kind) shape.encodePayload {} p ∧ shapeOf shape.kind p = .ok shape := by
  cases shape with
  | object name properties =>
    have hname : Reads (payloadStep .object) (field "name" (.string name)) {} { name := some name } :=
      .field (fun name => ({ name := some name } : Payload)) rfl rfl
    have hproperties : Reads (payloadStep .object) (field "properties" (.array (encodeAll properties)))
        { name := some name } { name := some name, properties := some properties } := by
      refine .field (fun ts => ({ name := some name, properties := some ts } : Payload)) rfl ?_
      rw [types_readings, encodeAll_eq]
      exact list_encode h
    exact ⟨_, hname.append hproperties, rfl⟩
  | enumeration name elementType values =>
    have hname : Reads (payloadStep .enumeration) (field "name" (.string name)) {} { name := some name } :=
      .field (fun name => ({ name := some name } : Payload)) rfl rfl
    have helement : Reads (payloadStep .enumeration) (field "elementType" elementType.encode)
        { name := some name } { name := some name, elementType := some elementType } :=
      .field (fun t => ({ name := some name, elementType := some t } : Payload)) rfl (h _ List.mem_cons_self)
    have hvalues : Reads (payloadStep .enumeration) (field "values" (.array (strings values)))
        { name := some name, elementType := some elementType }
        { name := some name, elementType := some elementType, values := some values } :=
      .field (fun vs => ({ name := some name, elementType := some elementType, values := some vs } : Payload)) rfl
        (list_encode fun _ _ => rfl)
    exact ⟨_, (hname.append helement).append hvalues, rfl⟩
  | array elementType =>
    exact ⟨_, .field (fun t => ({ elementType := some t } : Payload)) rfl (h _ List.mem_cons_self), rfl⟩
  | map keyType valueType =>
    have hkey : Reads (payloadStep .map) (field "keyType" keyType.encode) {} { keyType := some keyType } :=
      .field (fun t => ({ keyType := some t } : Payload)) rfl (h _ List.mem_cons_self)
    have hvalue : Reads (payloadStep .map) (field "valueType" valueType.encode) { keyType := some keyType }
        { keyType := some keyType, valueType := some valueType } :=
      .field (fun t => ({ keyType := some keyType, valueType := some t } : Payload)) rfl
        (h _ (List.mem_cons_of_mem _ List.mem_cons_self))
    exact ⟨_, hkey.append hvalue, rfl⟩
  | _ => exact ⟨{}, .nil, rfl⟩

theorem read_encode (t : BindingType) : read t.encode = .ok t := by
  induction t using induct with
  | h shape nullable ih =>
    obtain ⟨p, hpayload, hshape⟩ := reads_encodePayload ih
    have hpass : ∀ name v s, name ∈ ["kind", "nullable"] → payloadStep shape.kind s name v = .ok s := by
      intro name v s hname
      have hnot : ¬ (payloadFields shape.kind).contains name = true := fun h =>
        not_mem_payloadFields hname (List.contains_iff_mem.mp h)
      rw [payloadStep, if_neg hnot]
    have hread := ((Reads.single (hpass "kind" (.string shape.kind.text) {} (by decide))).append hpayload).append
      (Reads.single (hpass "nullable" (.bool nullable) p (by decide)))
    rw [Reads, ← readPayload_eq] at hread
    rw [encode, read, readHead_encode]
    refine bind_eq_ok.mpr ⟨_, rfl, ?_⟩
    refine bind_eq_ok.mpr ⟨p, hread, ?_⟩
    exact bind_eq_ok.mpr ⟨shape, hshape, rfl⟩

theorem unrepeated_encode (t : BindingType) : t.encode.Unrepeated := by
  induction t using induct with
  | h shape nullable ih =>
    rw [encode, ((Among.field.append (among_encodePayload shape)).append .field).unrepeated_iff (nodup_fields _)]
    simp only [List.forall_mem_append, forall_mem_field]
    refine ⟨⟨trivial, ?_⟩, trivial⟩
    cases shape with
    | object name properties =>
      simp only [Shape.encodePayload, List.forall_mem_append, forall_mem_field, encodeAll_eq]
      exact ⟨trivial, Value.unrepeated_array.mpr (List.forall_mem_map.mpr ih)⟩
    | enumeration name elementType values =>
      simp only [Shape.encodePayload, List.forall_mem_append, forall_mem_field]
      refine ⟨⟨trivial, ih _ List.mem_cons_self⟩, Value.unrepeated_array.mpr ?_⟩
      exact List.forall_mem_map.mpr fun _ _ => trivial
    | array elementType => exact forall_mem_field.mpr (ih _ List.mem_cons_self)
    | map keyType valueType =>
      simp only [Shape.encodePayload, List.forall_mem_append, forall_mem_field]
      exact ⟨ih _ List.mem_cons_self, ih _ (List.mem_cons_of_mem _ List.mem_cons_self)⟩
    | _ => exact List.forall_mem_nil _

end BindingType

/-! ## Words and references -/

theorem TypeName.word_text (source : Source) (t : TypeName) : word source words (.string t.text) = .ok t :=
  word_of_text get?_words t.ofText?_text

theorem Format.word_text (source : Source) (f : Format) : word source words (.string f.text) = .ok f :=
  word_of_text get?_words f.ofText?_text

theorem ContentType.word_text (source : Source) (c : ContentType) : word source words (.string c.text) = .ok c :=
  word_of_text get?_words c.ofText?_text

theorem Interface.word_text (source : Source) (v : InterfaceVersion) : word source versions (.string v.text) = .ok v := by
  refine word_of_text (Keyed.get?_texts InterfaceVersion.text InterfaceVersion.all) ?_
  cases v <;> rfl

namespace SchemaRef

theorem index_ofNat (n : Nat) : index (Value.ofNat n) = .ok n := by
  rw [Value.ofNat, index, if_pos (Int.natCast_nonneg n)]
  rfl

theorem read_encode (source : Source) (r : SchemaRef) : read source r.encode = .ok r := by
  obtain ⟨path, target⟩ := r
  have hpath : Reads readField (field "path" (.string path)) {} { path := some path } :=
    .field (fun path => ({ path := some path } : Draft)) rfl rfl
  have htarget : Reads readField (optionalField "target" Value.ofNat target) { path := some path }
      { path := some path, target } :=
    .optional (fun target => ({ path := some path, target } : Draft)) target (fun _ => rfl) (fun _ => rfl) index_ofNat
  exact bind_eq_ok.mpr ⟨_, hpath.append htarget, rfl⟩

theorem unrepeated_encode (r : SchemaRef) : r.encode.Unrepeated := by
  rw [encode, (Among.field.append .optional).unrepeated_iff (by decide)]
  simp only [List.forall_mem_append, forall_mem_field, forall_mem_optionalField]
  exact ⟨trivial, fun _ _ => trivial⟩

end SchemaRef

/-! ## Nodes -/

theorem Property.readField_other {d : Draft} {name : String} (h : name ∉ ["name", "required"]) (v : Value) :
    readField d name v = .ok d := by
  unfold readField
  split
  case h_3 => rfl
  all_goals exact absurd (by decide) h

/-- What is written of a property. -/
def Property.encode (p : Property) : Value :=
  .object (field "name" (.string p.name) ++ field "required" (.bool p.required) ++ p.node.encodeFields)

theorem Property.encodeAll_eq (ps : List Property) : encodeAll ps = ps.map encode := by
  induction ps with
  | nil => rfl
  | cons p ps ih =>
    obtain ⟨name, required, node⟩ := p
    rw [encodeAll, ih, List.map_cons]
    rfl

namespace Node

def readings (v : Value) : Readings where
  node := fun _ => read v
  properties := fun _ => match v with
    | .array items => readProperties items
    | v => .error (mismatch v "a sequence")

def readStep (n : Node) (field : String) (v : Value) : Result Node := readField n field v (readings v)

theorem readMembers_eq (members : Members) (n : Node) :
    readMembers members n = members.foldlM (fun n m => readStep n m.1 m.2) n := by
  induction members generalizing n with
  | nil => rw [readMembers]; rfl
  | cons m members ih =>
    obtain ⟨field, v⟩ := m
    rw [List.foldlM_cons]
    cases v <;> simp only [readMembers, ih] <;> rfl

theorem readMembers_of_reads {members : Members} {n : Node} (h : Reads readStep members {} n) :
    readMembers members {} = .ok n := by
  rw [readMembers_eq]
  exact h

theorem encodeOptional_eq (name : String) (n : Option Node) :
    encodeOptional name n = optionalField name (fun m => .object m.encodeFields) n := by
  cases n with
  | none => rfl
  | some n => rw [encodeOptional]; rfl

theorem encodeFields_eq (n : Node) :
    n.encodeFields =
      optionalField "type" (fun t => .string t.text) n.type ++
        optionalField "format" (fun f => .string f.text) n.format ++
        optionalField "description" .string n.description ++
        optionalField "nullable" .bool n.nullable ++
        optionalField "items" (fun m => .object m.encodeFields) n.items ++
        optionalField "additionalProperties" (fun m => .object m.encodeFields) n.additionalProperties ++
        listField "properties" (n.properties.map Property.encode) ++
        optionalField "enum" .array n.enumValues ++
        optionalField "$ref" SchemaRef.encode n.reference ++
        optionalField "xtpType" BindingType.encode n.bindingType := by
  obtain ⟨type, format, description, nullable, items, values, properties, enumValues, reference, bt⟩ := n
  rw [encodeFields, encodeOptional_eq, encodeOptional_eq, Property.encodeAll_eq]

theorem among_encodeFields (n : Node) : Among n.encodeFields record.fields := by
  rw [encodeFields_eq]
  exact Among.optional.append .optional |>.append .optional |>.append .optional |>.append .optional
    |>.append .optional |>.append .list |>.append .optional |>.append .optional |>.append .optional

/-- The node under a key is read from what is written of it. -/
theorem reads_below {name : String} {n : Option Node} (set : Option Node → Node)
    (hstep : ∀ v, readStep (set none) name v =
      if v.isNull then return set none else return set (some (← read v)))
    (h : ∀ m, n = some m → Reads readStep m.encodeFields {} m) :
    Reads readStep (optionalField name (fun m => .object m.encodeFields) n) (set none) (set n) := by
  cases n with
  | none => exact .nil
  | some m =>
    have hread : read (.object m.encodeFields) = .ok m := by
      rw [read, readMembers_of_reads (h m rfl)]
    refine .single ((hstep _).trans ?_)
    show (do return set (some (← read (.object m.encodeFields)))) = _
    rw [hread]
    rfl

theorem readStep_other {n : Node} {name : String} (h : name ∉ record.fields) (v : Value) :
    readStep n name v = .ok n := by
  unfold readStep readField
  split
  case h_11 => rfl
  all_goals exact absurd (by decide) h

/-- A property and a schema have a name and say something of what is required besides what a node has. -/
theorem disjoint_fields : ∀ name ∈ record.fields, name ∉ ["name", "required"] := by
  decide

theorem readHead_encode (p : Property) :
    Property.readHead (field "name" (.string p.name) ++ field "required" (.bool p.required) ++ p.node.encodeFields) =
      .ok (p.name, p.required) := by
  have hname : Reads Property.readField (field "name" (.string p.name)) {} { name := some p.name } :=
    .field (fun name => ({ name := some name } : Property.Draft)) rfl rfl
  have hrequired : Reads Property.readField (field "required" (.bool p.required)) { name := some p.name }
      { name := some p.name, required := some p.required } :=
    .field (fun required => ({ name := some p.name, required := some required } : Property.Draft)) rfl rfl
  have hnode : Reads Property.readField p.node.encodeFields { name := some p.name, required := some p.required }
      { name := some p.name, required := some p.required } := by
    refine .pass (among_encodeFields p.node) fun name hname v => ?_
    exact Property.readField_other (disjoint_fields name hname) v
  exact bind_eq_ok.mpr ⟨_, (hname.append hrequired).append hnode, rfl⟩

/-- A node is read from its own fields, after others that it does not know. -/
theorem readMembers_append {m : Members} {fields : List String} {n : Node} (hm : Among m fields)
    (hfields : ∀ name ∈ record.fields, name ∉ fields) (h : Reads readStep n.encodeFields {} n) :
    readMembers (m ++ n.encodeFields) {} = .ok n :=
  readMembers_of_reads (.append (.pass hm fun name hname => readStep_other fun h => hfields name h hname) h)

theorem readProperties_encode {ps : List Property} (h : ∀ p ∈ ps, Reads readStep p.node.encodeFields {} p.node) :
    readProperties (ps.map Property.encode) = .ok ps := by
  induction ps with
  | nil => rw [List.map_nil, readProperties]
  | cons p ps ih =>
    obtain ⟨hp, hps⟩ := List.forall_mem_cons.mp h
    rw [List.map_cons, Property.encode, readProperties, readHead_encode, ih hps]
    obtain ⟨name, required, node⟩ := p
    refine bind_eq_ok.mpr ⟨_, rfl, ?_⟩
    exact bind_eq_ok.mpr ⟨_, readMembers_append (Among.field.append .field) disjoint_fields hp, rfl⟩

/-- A node is read from what is written of it. -/
theorem reads_encodeFields (n : Node) : Reads readStep n.encodeFields {} n := by
  induction n using Node.induct with
  | h n ihProperties ihItems ihValues =>
    obtain ⟨type, format, description, nullable, items, additionalProperties, properties, enumValues, reference,
      bindingType⟩ := n
    rw [encodeFields_eq]
    simp only [List.append_assoc]
    -- field after field, each read into a node that has the fields before it
    refine .append (.optional (fun type => ({ type } : Node)) type (fun _ => rfl) (fun _ => rfl)
      (TypeName.word_text _)) ?_
    refine .append (.optional (fun format => ({ type, format } : Node)) format (fun _ => rfl) (fun _ => rfl)
      (Format.word_text _)) ?_
    refine .append (.optional (fun description => ({ type, format, description } : Node)) description
      (fun _ => rfl) (fun _ => rfl) fun _ => rfl) ?_
    refine .append (.optional (fun nullable => ({ type, format, description, nullable } : Node)) nullable
      (fun _ => rfl) (fun _ => rfl) fun _ => rfl) ?_
    refine .append (reads_below (fun items => { type, format, description, nullable, items })
      (fun _ => rfl) ihItems) ?_
    refine .append (reads_below (fun additionalProperties =>
      { type, format, description, nullable, items, additionalProperties }) (fun _ => rfl) ihValues) ?_
    refine .append (.list (fun properties =>
      ({ type, format, description, nullable, items, additionalProperties, properties } : Node)) rfl
      (readProperties_encode ihProperties)) ?_
    refine .append (.optional (fun enumValues =>
      ({ type, format, description, nullable, items, additionalProperties, properties, enumValues } : Node))
      enumValues (fun _ => rfl) (fun _ => rfl) fun vs => ?_) ?_
    · exact mapM_eq_ok.mpr (List.forall₂_same.mpr fun _ _ => rfl)
    refine .append (.optional (fun reference =>
      ({ type, format, description, nullable, items, additionalProperties, properties, enumValues,
         reference } : Node)) reference (fun _ => rfl) (fun _ => rfl) (SchemaRef.read_encode _)) ?_
    exact .optional (fun bindingType =>
      ({ type, format, description, nullable, items, additionalProperties, properties, enumValues, reference,
         bindingType } : Node)) bindingType (fun _ => rfl) (fun ⟨_, _⟩ => rfl) BindingType.read_encode

/-- No value that the node lists has a key twice. -/
def ValuesUnrepeated (n : Node) : Prop := ∀ vs, n.enumValues = some vs → ∀ v ∈ vs, v.Unrepeated

/-- What is written of a node repeats no key but in the values that are listed somewhere in it. -/
theorem unrepeated_encodeFields (n : Node) :
    (∀ m ∈ n.encodeFields, m.2.Unrepeated) ↔ ∀ x ∈ n.nodes, x.ValuesUnrepeated := by
  induction n using Node.induct with
  | h n ihProperties ihItems ihValues =>
    have hobject : ∀ m : Node, (Value.object m.encodeFields).Unrepeated ↔ ∀ e ∈ m.encodeFields, e.2.Unrepeated :=
      fun m => (among_encodeFields m).unrepeated_iff (by decide)
    have hproperty : ∀ p ∈ n.properties, (Property.encode p).Unrepeated ↔ ∀ x ∈ p.node.nodes, x.ValuesUnrepeated := by
      intro p hp
      rw [← ihProperties p hp, Property.encode,
        ((Among.field.append .field).append (among_encodeFields p.node)).unrepeated_iff (by decide)]
      simp only [List.forall_mem_append, forall_mem_field]
      exact and_iff_right ⟨trivial, trivial⟩
    rw [encodeFields_eq, forall_mem_nodes]
    simp only [List.forall_mem_append, forall_mem_optionalField, forall_mem_listField, List.forall_mem_map]
    constructor
    · rintro ⟨⟨⟨⟨⟨⟨_, hitems⟩, hvalues⟩, hproperties⟩, henum⟩, _⟩, _⟩
      refine ⟨fun vs hvs => Value.unrepeated_array.mp (henum vs hvs), fun p hp => ?_, fun m hm => ?_, fun m hm => ?_⟩
      · exact (hproperty p hp).mp (hproperties p hp)
      · exact (ihItems m hm).mp ((hobject m).mp (hitems m hm))
      · exact (ihValues m hm).mp ((hobject m).mp (hvalues m hm))
    · rintro ⟨henum, hproperties, hitems, hvalues⟩
      refine ⟨⟨⟨⟨⟨⟨⟨⟨⟨fun _ _ => trivial, fun _ _ => trivial⟩, fun _ _ => trivial⟩, fun _ _ => trivial⟩,
        fun m hm => ?_⟩, fun m hm => ?_⟩, fun p hp => ?_⟩, fun vs hvs => Value.unrepeated_array.mpr (henum vs hvs)⟩,
        fun r _ => r.unrepeated_encode⟩, fun t _ => t.unrepeated_encode⟩
      · exact (hobject m).mpr ((ihItems m hm).mpr (hitems m hm))
      · exact (hobject m).mpr ((ihValues m hm).mpr (hvalues m hm))
      · exact (hproperty p hp).mpr (hproperties p hp)

end Node

/-! ## Functions and schemas -/

namespace CodeSample

theorem read_encode (c : CodeSample) : read .inPlace c.encode = .ok c := by
  obtain ⟨lang, source, label⟩ := c
  have hlang : Reads readField (field "lang" (.string lang)) {} { lang := some lang } :=
    .field (fun lang => ({ lang := some lang } : Draft)) rfl rfl
  have hsource : Reads readField (field "source" (.string source)) { lang := some lang }
      { lang := some lang, source := some source } :=
    .field (fun source => ({ lang := some lang, source := some source } : Draft)) rfl rfl
  have hlabel : Reads readField (optionalField "label" .string label) { lang := some lang, source := some source }
      { lang := some lang, source := some source, label } :=
    .optional (fun label => ({ lang := some lang, source := some source, label } : Draft)) label (fun _ => rfl)
      (fun _ => rfl) fun _ => rfl
  exact bind_eq_ok.mpr ⟨_, (hlang.append hsource).append hlabel, rfl⟩

theorem unrepeated_encode (c : CodeSample) : c.encode.Unrepeated := by
  rw [encode, ((Among.field.append .field).append .optional).unrepeated_iff (by decide)]
  simp only [List.forall_mem_append, forall_mem_field, forall_mem_optionalField]
  exact ⟨⟨trivial, trivial⟩, fun _ _ => trivial⟩

end CodeSample

namespace Parameter

theorem read_encode (p : Parameter) : read p.encode = .ok p := by
  obtain ⟨contentType, node⟩ := p
  refine bind_eq_ok.mpr ⟨some contentType, ?_, ?_⟩
  · show (some <$> word .inPlace ContentType.words (.string contentType.text)) = _
    rw [ContentType.word_text]
    rfl
  · exact bind_eq_ok.mpr ⟨node, Node.readMembers_append .field (by decide) node.reads_encodeFields, rfl⟩

theorem unrepeated_encode (p : Parameter) : p.encode.Unrepeated ↔ ∀ x ∈ p.node.nodes, x.ValuesUnrepeated := by
  rw [encode, (Among.field.append p.node.among_encodeFields).unrepeated_iff (by decide), List.forall_mem_append,
    forall_mem_field, Node.unrepeated_encodeFields]
  exact and_iff_right trivial

end Parameter

namespace Function

theorem read_encode (f : Function) : read f.encode = .ok f := by
  obtain ⟨name, description, codeSamples, input, output⟩ := f
  have hname : Reads readField (field "name" (.string name)) {} { name := some name } :=
    .field (fun name => ({ name := some name } : Draft)) rfl rfl
  have hdescription : Reads readField (optionalField "description" .string description)
      { name := some name } { name := some name, description } :=
    .optional (fun description => ({ name := some name, description } : Draft)) description (fun _ => rfl)
      (fun _ => rfl) fun _ => rfl
  have hsamples : Reads readField (listField "codeSamples" (codeSamples.map (·.encode)))
      { name := some name, description } { name := some name, description, codeSamples } :=
    .list (fun codeSamples => ({ name := some name, description, codeSamples } : Draft)) rfl
      (list_encode fun c _ => c.read_encode)
  have hinput : Reads readField (optionalField "input" Parameter.encode input)
      { name := some name, description, codeSamples } { name := some name, description, codeSamples, input } :=
    .optional (fun input => ({ name := some name, description, codeSamples, input } : Draft)) input (fun _ => rfl)
      (fun _ => rfl) Parameter.read_encode
  have houtput : Reads readField (optionalField "output" Parameter.encode output)
      { name := some name, description, codeSamples, input }
      { name := some name, description, codeSamples, input, output } :=
    .optional (fun output => ({ name := some name, description, codeSamples, input, output } : Draft)) output
      (fun _ => rfl) (fun _ => rfl) Parameter.read_encode
  exact bind_eq_ok.mpr ⟨_, hname.append hdescription |>.append hsamples |>.append hinput |>.append houtput, rfl⟩

theorem unrepeated_encode (f : Function) :
    f.encode.Unrepeated ↔ ∀ x ∈ Interface.functionNodes f, x.ValuesUnrepeated := by
  rw [encode, (Among.field.append .optional |>.append .list |>.append .optional
    |>.append .optional).unrepeated_iff (by decide)]
  simp only [List.forall_mem_append, forall_mem_field, forall_mem_optionalField, forall_mem_listField,
    List.forall_mem_map, Parameter.unrepeated_encode, Interface.functionNodes, List.forall_mem_flatMap,
    Option.mem_toList]
  constructor
  · rintro ⟨⟨_, hinput⟩, houtput⟩
    exact ⟨hinput, houtput⟩
  · rintro ⟨hinput, houtput⟩
    exact ⟨⟨⟨⟨trivial, fun _ _ => trivial⟩, fun c _ => c.unrepeated_encode⟩, hinput⟩, houtput⟩

end Function

namespace Schema

theorem readField_other {d : Draft} {name : String} (h : name ∉ ["name", "required"]) (v : Value) :
    readField d name v = .ok d := by
  unfold readField
  split
  case h_3 => rfl
  all_goals exact absurd (by decide) h

theorem read_encode (s : Schema) : read s.encode = .ok s := by
  obtain ⟨name, required, node⟩ := s
  have hname : Reads readField (field "name" (.string name)) {} { name := some name } :=
    .field (fun name => ({ name := some name } : Draft)) rfl rfl
  have hrequired : Reads readField (listField "required" (strings required)) { name := some name }
      { name := some name, required } :=
    .list (fun required => ({ name := some name, required } : Draft)) rfl (list_encode fun _ _ => rfl)
  have hnode : Reads readField node.encodeFields { name := some name, required } { name := some name, required } :=
    .pass node.among_encodeFields fun name hname => readField_other (Node.disjoint_fields name hname)
  refine bind_eq_ok.mpr ⟨_, (hname.append hrequired).append hnode, ?_⟩
  exact bind_eq_ok.mpr ⟨node, Node.readMembers_append (Among.field.append .list) Node.disjoint_fields
    node.reads_encodeFields, rfl⟩

theorem unrepeated_encode (s : Schema) : s.encode.Unrepeated ↔ ∀ x ∈ s.node.nodes, x.ValuesUnrepeated := by
  rw [encode, ((Among.field.append .list).append s.node.among_encodeFields).unrepeated_iff (by decide),
    List.forall_mem_append, List.forall_mem_append, forall_mem_field, forall_mem_listField,
    Node.unrepeated_encodeFields, strings, List.forall_mem_map]
  exact and_iff_right ⟨trivial, fun _ _ => trivial⟩

end Schema

/-! ## The whole -/

namespace Interface

theorem unrepeated_schemas (schemas : Keyed Schema) :
    (Value.object (schemas.map fun (key, s) => (key, s.encode))).Unrepeated ↔
      (Keyed.keys schemas).Nodup ∧ ∀ e ∈ schemas, ∀ x ∈ e.2.node.nodes, x.ValuesUnrepeated := by
  have hkeys : Keyed.keys (schemas.map fun (key, s) => (key, s.encode)) = Keyed.keys schemas := by
    simp [Keyed.keys]
  rw [Value.unrepeated_object, hkeys, List.forall_mem_map]
  simp only [Schema.unrepeated_encode]

/-- What is written of a normal form is read back as the normal form. It repeats a key only where
the normal form lists two schemas under one, or lists a value that repeats one. -/
theorem roundTrip (i : Interface) :
    read i.encode = .ok i ∧
      (i.encode.Unrepeated ↔ (Keyed.keys i.schemas).Nodup ∧ ∀ x ∈ i.nodes, x.ValuesUnrepeated) := by
  obtain ⟨version, exports, imports, schemas⟩ := i
  constructor
  · have hversion : Reads readField (field "version" (.string version.text)) {} { version := some version } :=
      .field (fun version => ({ version := some version } : Draft)) rfl (Interface.word_text .inPlace version)
    have hexports : Reads readField (field "exports" (.array (exports.map (·.encode)))) { version := some version }
        { version := some version, exports := some exports } :=
      .field (fun exports => ({ version := some version, exports := some exports } : Draft)) rfl
        (list_encode fun f _ => f.read_encode)
    have himports : Reads readField (field "imports" (.array (imports.map (·.encode))))
        { version := some version, exports := some exports }
        { version := some version, exports := some exports, imports := some imports } :=
      .field (fun imports => ({ version := some version, exports := some exports, imports := some imports } : Draft))
        rfl (list_encode fun f _ => f.read_encode)
    have hschemas : Reads readField (field "schemas" (.object (schemas.map fun (key, s) => (key, s.encode))))
        { version := some version, exports := some exports, imports := some imports }
        { version := some version, exports := some exports, imports := some imports, schemas := some schemas } :=
      .field (fun schemas =>
        ({ version := some version, exports := some exports, imports := some imports, schemas := some schemas } : Draft))
        rfl (map_encode fun e _ => e.2.read_encode)
    exact bind_eq_ok.mpr ⟨_, hversion.append hexports |>.append himports |>.append hschemas, rfl⟩
  · rw [encode, (Among.field.append .field |>.append .field |>.append .field).unrepeated_iff (by decide)]
    simp only [List.forall_mem_append, forall_mem_field, Value.unrepeated_array, List.forall_mem_map,
      Function.unrepeated_encode, unrepeated_schemas, nodes, List.forall_mem_flatMap]
    constructor
    · rintro ⟨⟨⟨_, hexports⟩, himports⟩, hkeys, hschemas⟩
      exact ⟨hkeys, ⟨hschemas, hexports⟩, himports⟩
    · rintro ⟨hkeys, ⟨hschemas, hexports⟩, himports⟩
      exact ⟨⟨⟨trivial, hexports⟩, himports⟩, hkeys, hschemas⟩

end Interface

end BindingSchema
