import BindingSchema.Proofs.Annotation.Search
import BindingSchema.Proofs.Annotation.Typing

/-!
The type of a node, written down as what it means.

`Means` reads a type off the schemas with nothing remembered: a reference stands for the schema it
names, whenever it is met. A node has at most one meaning (`Means.unique`), and none where a
reference cannot be followed to its end. Where every reference is found and none leads in a circle,
each schema has the type it means (`Sound.meansType`), and so has every node that is annotated with
those types (`means_typed`). The annotated nodes mean the same as the ones they were made from
(`Means.annotated`).
-/

namespace BindingSchema

/-- The value of a key stands at the first place of the key. -/
theorem Keyed.get?_eq_some_iff {α : Type u} {m : Keyed α} {key : String} {value : α} :
    Keyed.get? m key = some value ↔
      ∃ i, (Keyed.keys m).idxOf? key = some i ∧ m[i]? = some (key, value) := by
  induction m with
  | nil => simp [Keyed.get?]
  | cons e rest ih =>
    obtain ⟨k, v⟩ := e
    simp only [Keyed.keys] at ih
    by_cases hk : k = key
    · subst hk
      simp [Keyed.get?, Keyed.keys, List.idxOf?_cons]
    · have hne : (k == key) = false := by simpa using hk
      simp only [Keyed.get?, Keyed.keys, List.map_cons, List.idxOf?_cons, if_neg hk, hne, ih]
      constructor
      · rintro ⟨i, hi, hget⟩
        exact ⟨i + 1, by simp [hi], hget⟩
      · rintro ⟨i, hi, hget⟩
        simp only [Bool.false_eq_true, if_false, Option.map_eq_some_iff] at hi
        obtain ⟨j, hj, rfl⟩ := hi
        exact ⟨j, hj, hget⟩

theorem Keyed.exists_of_idxOf? {α : Type u} {m : Keyed α} {key : String} {i : Nat}
    (h : (Keyed.keys m).idxOf? key = some i) : ∃ value, m[i]? = some (key, value) := by
  obtain ⟨hlt, hkey, _⟩ := List.findIdx?_eq_some_iff_getElem.mp h
  rw [Keyed.keys, List.length_map] at hlt
  refine ⟨m[i].2, ?_⟩
  rw [List.getElem?_eq_getElem hlt]
  simpa [Keyed.keys, Prod.ext_iff] using hkey

namespace Annotation

/-- The type `t` of a node that is called `name`, if it has one. Members are properties, items and
map values. Only the node's own flag counts for whether its type admits null. -/
inductive Means (schemas : Keyed Schema) : String → Bool → Node → Option BindingType → Prop where
  | properties {name : String} {isMember : Bool} {n : Node} {ps : List Property} {types : Property → BindingType}
      (branch : n.branch = .properties ps)
      (members : ∀ p ∈ ps, Means schemas p.name true p.node (some (types p))) :
      Means schemas name isMember n (some ((BindingType.object name (ps.map types)).withNullable n.isNullable))
  | reference {name : String} {isMember : Bool} {n : Node} {r : SchemaRef} {target : String} {schema : Schema}
      {t : Option BindingType} (branch : n.branch = .reference r) (parses : SchemaRef.parse r.path = .ok target)
      (found : Keyed.get? schemas target = some schema) (meaning : Means schemas target false schema.node t) :
      Means schemas name isMember n (some ((t.getD .freeForm).withNullable n.isNullable))
  | enumeration {name : String} {isMember : Bool} {n : Node} {values : List Value}
      (branch : n.branch = .enumeration values) :
      Means schemas name isMember n
        (some ((BindingType.enumeration name (values.filterMap (·.asString?))).withNullable n.isNullable))
  | items {name : String} {isMember : Bool} {n item : Node} {t : BindingType} (branch : n.branch = .items item)
      (element : Means schemas name true item (some t)) :
      Means schemas name isMember n (some ((BindingType.array t).withNullable n.isNullable))
  | mapValues {name : String} {isMember : Bool} {n value : Node} {t : BindingType}
      (branch : n.branch = .mapValues value) (element : Means schemas name true value (some t)) :
      Means schemas name isMember n (some ((BindingType.map t).withNullable n.isNullable))
  | declared {name : String} {isMember : Bool} {n : Node} (branch : n.branch = .declared) :
      Means schemas name isMember n ((declaredType n.type n.format isMember).map (·.withNullable n.isNullable))

variable {schemas : Keyed Schema}

/-- A node has at most one meaning. -/
theorem Means.unique {name : String} {isMember : Bool} {n : Node} {t t' : Option BindingType}
    (h : Means schemas name isMember n t) (h' : Means schemas name isMember n t') : t = t' := by
  induction h generalizing t' with
  | @properties name isMember n ps types hb _ ih =>
    cases h' with
    | @properties _ _ _ ps' types' hb' hmembers' =>
      obtain rfl : ps = ps' := Branch.properties.inj (hb.symm.trans hb')
      have : ps.map types = ps.map types' :=
        List.map_congr_left fun p hp => Option.some.inj (ih p hp (hmembers' p hp))
      rw [this]
    | _ => simp_all
  | @reference name isMember n r target schema t hb hparse hfound _ ih =>
    cases h' with
    | @reference _ _ _ r' target' schema' t' hb' hparse' hfound' hmeaning' =>
      obtain rfl : r = r' := Branch.reference.inj (hb.symm.trans hb')
      obtain rfl : target = target' := Except.ok.inj (hparse.symm.trans hparse')
      obtain rfl : schema = schema' := Option.some.inj (hfound.symm.trans hfound')
      rw [ih hmeaning']
    | _ => simp_all
  | enumeration hb => cases h' <;> simp_all
  | @items name isMember n item t hb _ ih =>
    cases h' with
    | @items _ _ _ item' t' hb' helement' =>
      obtain rfl : item = item' := Branch.items.inj (hb.symm.trans hb')
      obtain rfl : t = t' := Option.some.inj (ih helement')
      rfl
    | _ => simp_all
  | @mapValues name isMember n value t hb _ ih =>
    cases h' with
    | @mapValues _ _ _ value' t' hb' helement' =>
      obtain rfl : value = value' := Branch.mapValues.inj (hb.symm.trans hb')
      obtain rfl : t = t' := Option.some.inj (ih helement')
      rfl
    | _ => simp_all
  | declared hb => cases h' <;> simp_all

/-- What a node means depends on nothing but the schemas that names stand for. -/
theorem Means.congr {schemas' : Keyed Schema} (hget : ∀ target, Keyed.get? schemas' target = Keyed.get? schemas target)
    {name : String} {isMember : Bool} {n : Node} {t : Option BindingType} (h : Means schemas name isMember n t) :
    Means schemas' name isMember n t := by
  induction h with
  | properties hb _ ih => exact .properties hb ih
  | reference hb hparse hfound _ ih => exact .reference hb hparse ((hget _).trans hfound) ih
  | enumeration hb => exact .enumeration hb
  | items hb _ ih => exact .items hb ih
  | mapValues hb _ ih => exact .mapValues hb ih
  | declared hb => exact .declared hb

theorem declaredType_member (type : Option TypeName) (format : Option Format) :
    ∃ t, declaredType type format true = some t := by
  rcases type with _ | type
  · exact ⟨_, rfl⟩
  · cases type with
    | integer =>
      rcases format with _ | f
      · exact ⟨_, rfl⟩
      · cases f <;> exact ⟨_, rfl⟩
    | _ => exact ⟨_, rfl⟩

/-- A member always has a type. -/
theorem Means.member {name : String} {n : Node} {t : Option BindingType} (h : Means schemas name true n t) :
    ∃ u, t = some u := by
  cases h with
  | declared hb =>
    obtain ⟨u, hu⟩ := declaredType_member n.type n.format
    exact ⟨_, by rw [hu]; rfl⟩
  | _ => exact ⟨_, rfl⟩

/-! ## Nodes without problems -/

/-- Annotation finds nothing wrong with the node, and enters only schemas of which `good` holds. -/
def Supported (schemas : List String) (good : Nat → Prop) (n : Node) : Prop :=
  ∃ place, ∀ st ∈ steps schemas place n, st.errors = [] ∧ ∀ edge, st = .enter edge → good edge.target

section

variable {names : List String} {good : Nat → Prop} {n : Node}

theorem Supported.properties {ps : List Property} (h : Supported names good n) (hb : n.branch = .properties ps)
    {p : Property} (hp : p ∈ ps) : Supported names good p.node := by
  obtain ⟨place, h⟩ := h
  rw [steps_properties hb] at h
  exact ⟨_, fun st hst => h st (mem_stepsOfProperties.mpr ⟨p, hp, hst⟩)⟩

theorem Supported.reference {r : SchemaRef} (h : Supported names good n) (hb : n.branch = .reference r) :
    ∃ target, resolve names r.path = .ok target ∧ good target := by
  obtain ⟨place, h⟩ := h
  cases hr : resolve names r.path with
  | error problem =>
    rw [steps_missing hb hr] at h
    have := (h _ (List.mem_singleton.mpr rfl)).1
    cases this
  | ok target =>
    rw [steps_reference hb hr] at h
    exact ⟨target, rfl, (h _ (List.mem_singleton.mpr rfl)).2 _ rfl⟩

theorem Supported.items {item : Node} (h : Supported names good n) (hb : n.branch = .items item) :
    Supported names good item := by
  obtain ⟨place, h⟩ := h
  rw [steps_items hb] at h
  exact ⟨_, h⟩

theorem Supported.mapValues {value : Node} (h : Supported names good n) (hb : n.branch = .mapValues value) :
    Supported names good value := by
  obtain ⟨place, h⟩ := h
  rw [steps_mapValues hb] at h
  exact ⟨_, h⟩

end

/-! ## The types that annotation gives -/

/-- What `types` has for a schema is what the schema means. -/
def MeansType (schemas : Keyed Schema) (types : Nat → Option BindingType) (i : Nat) : Prop :=
  ∀ name schema, schemas[i]? = some (name, schema) → Means schemas name false schema.node (types i)

/-- A node that is annotated with the types of the schemas has the type it means. -/
theorem means_typed {types : Nat → Option BindingType} (n : Node) : ∀ (name : String) (isMember : Bool),
    Supported (Keyed.keys schemas) (MeansType schemas types) n →
    Means schemas name isMember n (typed (Keyed.keys schemas) types name isMember n).bindingType := by
  induction n using Node.induct with
  | h n ihProperties ihItems ihValues =>
    intro name isMember h
    cases hb : n.branch with
    | properties ps =>
      have hps := (Node.branch_eq_properties.mp hb).2
      rw [typed_properties hb, typedProperties, List.map_map]
      refine Means.properties hb ?_
      intro p hp
      have hmeans := ihProperties p (hps ▸ hp) p.name true (h.properties hb hp)
      obtain ⟨u, hu⟩ := hmeans.member
      simp only [Function.comp_apply, hu] at hmeans ⊢
      exact hmeans
    | reference r =>
      obtain ⟨target, hr, hgood⟩ := h.reference hb
      obtain ⟨targetName, hparse, hidx⟩ := resolve_eq_ok.mp hr
      obtain ⟨schema, hs⟩ := Keyed.exists_of_idxOf? hidx
      rw [typed_reference hb hr]
      exact Means.reference hb hparse (Keyed.get?_eq_some_iff.mpr ⟨target, hidx, hs⟩) (hgood targetName schema hs)
    | enumeration values =>
      rw [typed_enumeration hb]
      exact Means.enumeration hb
    | items item =>
      have hmeans := ihItems item (Node.branch_eq_items.mp hb).2.2.2 name true (h.items hb)
      obtain ⟨u, hu⟩ := hmeans.member
      rw [typed_items hb]
      rw [hu] at hmeans ⊢
      exact Means.items hb hmeans
    | mapValues value =>
      have hmeans := ihValues value (Node.branch_eq_mapValues.mp hb).2.2.2.2 name true (h.mapValues hb)
      obtain ⟨u, hu⟩ := hmeans.member
      rw [typed_mapValues hb]
      rw [hu] at hmeans ⊢
      exact Means.mapValues hb hmeans
    | declared =>
      rw [typed_declared hb]
      exact Means.declared hb

/-! ## The registry -/

/-- The end of an annotation in which nothing was found wrong. -/
structure Sound (schemas : Keyed Schema) (last : State) : Prop where
  done : ∀ (i : Nat) (name : String) (schema : Schema), schemas[i]? = some (name, schema) →
    last.progress[i]? = some (.done (typed (Keyed.keys schemas) last.types name false schema.node))
  clean : ∀ (i : Nat) (name : String) (schema : Schema), schemas[i]? = some (name, schema) →
    ∀ st ∈ steps (Keyed.keys schemas) (.schema name) schema.node, st.errors = []
  noCycles : (linked schemas).cycles = []

/-- Every schema has the type it means. The induction follows the references, of which none leads
in a circle. -/
theorem Sound.meansType {last : State} (h : Sound schemas last) {i : Nat} (hi : i < schemas.length) :
    MeansType schemas last.types i := by
  have hacc := ReferenceGraph.acc_of_cycles_eq_nil h.noCycles i (by rwa [size_linked])
  induction hacc with
  | intro i _ ih =>
    intro name schema hs
    rw [types_done (h.done i name schema hs)]
    refine means_typed schema.node name false ⟨.schema name, fun st hst => ⟨h.clean i name schema hs st hst, ?_⟩⟩
    rintro edge rfl
    have hlt : edge.target < schemas.length := length_keys schemas ▸ target_lt schema.node hst
    have hmem : edge ∈ (linked schemas).edgesOf i := by
      rw [edgesOf_linked hs]
      exact List.mem_filterMap.mpr ⟨_, hst, rfl⟩
    obtain ⟨index, hindex⟩ := List.mem_iff_getElem?.mp hmem
    exact ih edge.target ⟨index, edge, hindex, trivial, rfl, by rwa [size_linked]⟩ hlt

/-! ## Annotated nodes -/

section

variable {names : List String} {types : Nat → Option BindingType} {name : String} {isMember : Bool} {n : Node}

theorem isNullable_typed : (typed names types name isMember n).isNullable = n.isNullable := by
  cases hb : n.branch with
  | properties ps => rw [typed_properties hb]; rfl
  | reference r =>
    cases hr : resolve names r.path with
    | error problem => rw [typed_missing hb hr]; rfl
    | ok target => rw [typed_reference hb hr]; rfl
  | enumeration values => rw [typed_enumeration hb]; rfl
  | items item => rw [typed_items hb]; rfl
  | mapValues value => rw [typed_mapValues hb]; rfl
  | declared => rw [typed_declared hb]; rfl

theorem branch_typed_properties {ps : List Property} (hb : n.branch = .properties ps) :
    (typed names types name isMember n).branch = .properties (typedProperties names types ps) := by
  obtain ⟨hne, _⟩ := Node.branch_eq_properties.mp hb
  rw [typed_properties hb]
  exact Node.branch_eq_properties.mpr ⟨fun h => hne (List.map_eq_nil_iff.mp h), rfl⟩

theorem branch_typed_missing {r : SchemaRef} {problem : Problem} (hb : n.branch = .reference r)
    (hr : resolve names r.path = .error problem) :
    (typed names types name isMember n).branch = .reference r := by
  rw [typed_missing hb hr]
  exact Node.branch_eq_reference.mpr (Node.branch_eq_reference.mp hb)

theorem branch_typed_reference {r : SchemaRef} {target : Nat} (hb : n.branch = .reference r)
    (hr : resolve names r.path = .ok target) :
    (typed names types name isMember n).branch = .reference { r with target := some target } := by
  rw [typed_reference hb hr]
  exact Node.branch_eq_reference.mpr ⟨(Node.branch_eq_reference.mp hb).1, rfl⟩

theorem branch_typed_enumeration {values : List Value} (hb : n.branch = .enumeration values) :
    (typed names types name isMember n).branch = .enumeration values := by
  rw [typed_enumeration hb]
  exact Node.branch_eq_enumeration.mpr (Node.branch_eq_enumeration.mp hb)

theorem branch_typed_items {item : Node} (hb : n.branch = .items item) :
    (typed names types name isMember n).branch = .items (typed names types name true item) := by
  obtain ⟨hp, hr, he, _⟩ := Node.branch_eq_items.mp hb
  rw [typed_items hb]
  exact Node.branch_eq_items.mpr ⟨hp, hr, he, rfl⟩

theorem branch_typed_mapValues {value : Node} (hb : n.branch = .mapValues value) :
    (typed names types name isMember n).branch = .mapValues (typed names types name true value) := by
  obtain ⟨hp, hr, he, hi, _⟩ := Node.branch_eq_mapValues.mp hb
  rw [typed_mapValues hb]
  exact Node.branch_eq_mapValues.mpr ⟨hp, hr, he, hi, rfl⟩

theorem branch_typed_declared (hb : n.branch = .declared) :
    (typed names types name isMember n).branch = .declared := by
  rw [typed_declared hb]
  exact Node.branch_eq_declared.mpr (Node.branch_eq_declared.mp hb)

end

/-- Where nothing is wrong, the reference that a type comes from is resolved. -/
theorem isResolved_typed {names : List String} {types : Nat → Option BindingType} {good : Nat → Prop}
    {name : String}
    {isMember : Bool} {n : Node} (h : Supported names good n) {r : SchemaRef}
    (hr : (typed names types name isMember n).branch = .reference r) : r.isResolved = true := by
  cases hb : n.branch with
  | properties ps => rw [branch_typed_properties hb] at hr; cases hr
  | reference r' =>
    obtain ⟨target, hres, _⟩ := h.reference hb
    rw [branch_typed_reference hb hres] at hr
    cases hr
    rfl
  | enumeration values => rw [branch_typed_enumeration hb] at hr; cases hr
  | items item => rw [branch_typed_items hb] at hr; cases hr
  | mapValues value => rw [branch_typed_mapValues hb] at hr; cases hr
  | declared => rw [branch_typed_declared hb] at hr; cases hr

/-- Annotating every node, those of the schemas too, leaves what a node means as it was. -/
theorem Means.annotated {schemas' : Keyed Schema} {types : Nat → Option BindingType}
    (hfound : ∀ target schema, Keyed.get? schemas target = some schema →
      ∃ schema', Keyed.get? schemas' target = some schema' ∧
        schema'.node = typed (Keyed.keys schemas) types target false schema.node)
    {name : String} {isMember : Bool} {n : Node} {t : Option BindingType} (h : Means schemas name isMember n t) :
    Means schemas' name isMember (typed (Keyed.keys schemas) types name isMember n) t := by
  induction h with
  | @properties name isMember n ps known hb _ ih =>
    -- two members can become the same, but then they have the same type
    let known' : Property → BindingType := fun q =>
      Classical.epsilon fun u => Means schemas' q.name true q.node (some u)
    have hmembers : ∀ q ∈ typedProperties (Keyed.keys schemas) types ps,
        Means schemas' q.name true q.node (some (known' q)) := by
      intro q hq
      obtain ⟨p, hp, rfl⟩ := List.mem_map.mp hq
      exact Classical.epsilon_spec (p := fun u => Means schemas' p.name true _ (some u)) ⟨_, ih p hp⟩
    have hsame : ps.map known = (typedProperties (Keyed.keys schemas) types ps).map known' := by
      rw [typedProperties, List.map_map]
      refine List.map_congr_left fun p hp => Option.some.inj ((ih p hp).unique ?_)
      exact hmembers _ (List.mem_map_of_mem hp)
    rw [hsame, ← isNullable_typed]
    exact Means.properties (branch_typed_properties hb) hmembers
  | @reference name isMember n r target schema t hb hparse hget _ ih =>
    obtain ⟨schema', hget', hnode⟩ := hfound target schema hget
    rw [← hnode] at ih
    obtain ⟨i, hidx, _⟩ := Keyed.get?_eq_some_iff.mp hget
    have hr := resolve_eq_ok.mpr ⟨target, hparse, hidx⟩
    rw [← isNullable_typed]
    exact Means.reference (branch_typed_reference hb hr) hparse hget' ih
  | enumeration hb =>
    rw [← isNullable_typed]
    exact Means.enumeration (branch_typed_enumeration hb)
  | items hb _ ih =>
    rw [← isNullable_typed]
    exact Means.items (branch_typed_items hb) ih
  | mapValues hb _ ih =>
    rw [← isNullable_typed]
    exact Means.mapValues (branch_typed_mapValues hb) ih
  | @declared name isMember n hb =>
    have htype : n.type = (typed (Keyed.keys schemas) types name isMember n).type := by rw [typed_declared hb]
    have hformat : n.format = (typed (Keyed.keys schemas) types name isMember n).format := by rw [typed_declared hb]
    rw [htype, hformat, ← isNullable_typed]
    exact Means.declared (branch_typed_declared hb)

end Annotation

end BindingSchema
