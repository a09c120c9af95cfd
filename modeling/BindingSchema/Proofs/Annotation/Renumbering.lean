import BindingSchema.Proofs.Annotation.Problems

/-!
Annotation when the schemas stand in another order.

References are resolved to places in the registry, so another order of the schemas gives them other
numbers, and annotation enters the schemas in another order. Neither can be seen in what comes of it:
where `f` takes the place of each schema to its place in the other order (`Rearranges`), the same
names are resolved (`Renumbers.resolve_iff`), references lead in a circle in both orders or in none
(`Rearranges.acyclic`), and every schema has the type that it means (`Rearranges.types_eq`). A node
is then annotated as before but for the numbers (`Renumbers.typed`).
-/

namespace BindingSchema

/-! ## Numbers of targets -/

def SchemaRef.renumber (f : Nat → Nat) (r : SchemaRef) : SchemaRef := { r with target := r.target.map f }

mutual

/-- The node with the target of every reference in it taken through `f`. -/
def Node.renumber (f : Nat → Nat) : Node → Node
  | ⟨type, format, description, nullable, items, additionalProperties, properties, enumValues,
      reference, bindingType⟩ =>
    { type, format, description, nullable
      items := Node.renumber? f items
      additionalProperties := Node.renumber? f additionalProperties
      properties := Node.renumberProperties f properties
      enumValues
      reference := reference.map (·.renumber f)
      bindingType }

def Node.renumber? (f : Nat → Nat) : Option Node → Option Node
  | none => none
  | some n => some (n.renumber f)

def Node.renumberProperties (f : Nat → Nat) : List Property → List Property
  | [] => []
  | ⟨name, required, node⟩ :: rest => ⟨name, required, node.renumber f⟩ :: Node.renumberProperties f rest

end

def Property.renumber (f : Nat → Nat) (p : Property) : Property := { p with node := p.node.renumber f }

def Parameter.renumber (f : Nat → Nat) (p : Parameter) : Parameter := { p with node := p.node.renumber f }

def Function.renumber (f : Nat → Nat) (g : Function) : Function :=
  { g with input := g.input.map (·.renumber f), output := g.output.map (·.renumber f) }

def Schema.renumber (f : Nat → Nat) (s : Schema) : Schema := { s with node := s.node.renumber f }

def Edge.renumber (f : Nat → Nat) (e : Edge) : Edge := { e with target := f e.target }

def Arc.renumber (f : Nat → Nat) (a : Arc) : Arc := { a with source := f a.source }

namespace Node

variable {f : Nat → Nat}

theorem renumber_eq (n : Node) :
    n.renumber f = { n with
      items := n.items.map (·.renumber f)
      additionalProperties := n.additionalProperties.map (·.renumber f)
      properties := n.properties.map (·.renumber f)
      reference := n.reference.map (·.renumber f) } := by
  have hoptional : ∀ m : Option Node, renumber? f m = m.map (·.renumber f) := by
    intro m
    cases m <;> simp [renumber?]
  have hproperties : ∀ ps : List Property, renumberProperties f ps = ps.map (·.renumber f) := by
    intro ps
    induction ps with
    | nil => simp [renumberProperties]
    | cons p ps ih =>
      obtain ⟨name, required, node⟩ := p
      rw [renumberProperties, ih]
      rfl
  obtain ⟨type, format, description, nullable, items, values, properties, enumValues, reference, bt⟩ := n
  rw [renumber, hoptional, hoptional, hproperties]

theorem bindingType_renumber (n : Node) : (n.renumber f).bindingType = n.bindingType := by
  rw [renumber_eq]

/-- Where nothing is resolved there is nothing to renumber. -/
theorem Bare.renumber {n : Node} (h : n.Bare) : n.renumber f = n := by
  induction n using Node.induct with
  | h n ihProperties ihItems ihValues =>
    obtain ⟨⟨_, htarget⟩, hps, hitems, hvalues⟩ := bare_iff.mp h
    have hproperties : n.properties.map (·.renumber f) = n.properties := by
      refine (List.map_congr_left fun p hp => ?_).trans (List.map_id _)
      rw [Property.renumber, ihProperties p hp (hps p hp)]
      cases p
      rfl
    have hitem : n.items.map (·.renumber f) = n.items :=
      (Option.map_congr fun item hi => ihItems item hi (hitems item hi)).trans Option.map_id'
    have hvalue : n.additionalProperties.map (·.renumber f) = n.additionalProperties :=
      (Option.map_congr fun value hv => ihValues value hv (hvalues value hv)).trans Option.map_id'
    have hreference : n.reference.map (·.renumber f) = n.reference := by
      refine (Option.map_congr fun r hr => ?_).trans Option.map_id'
      rw [SchemaRef.renumber, htarget r hr]
      exact congrArg (SchemaRef.mk r.path) (htarget r hr).symm
    rw [renumber_eq, hproperties, hitem, hvalue, hreference]
    cases n
    rfl

theorem Bare.renumber_fields {n : Node} (h : n.Bare) :
    n.properties.map (·.renumber f) = n.properties ∧ n.items.map (·.renumber f) = n.items ∧
      n.additionalProperties.map (·.renumber f) = n.additionalProperties ∧
      n.reference.map (·.renumber f) = n.reference := by
  have hself := n.renumber_eq (f := f)
  rw [h.renumber] at hself
  exact ⟨(congrArg properties hself).symm, (congrArg items hself).symm, (congrArg additionalProperties hself).symm,
    (congrArg reference hself).symm⟩

end Node

namespace Annotation

/-! ## Names in another order -/

theorem idxOf?_eq_some_iff_of_nodup {names : List String} (h : names.Nodup) {name : String} {i : Nat} :
    names.idxOf? name = some i ↔ names[i]? = some name := by
  constructor
  · intro hi
    obtain ⟨hlt, hname, _⟩ := List.idxOf?_eq_some_iff.mp hi
    rw [List.getElem?_eq_getElem hlt, hname]
  · intro hi
    obtain ⟨hlt, hname⟩ := List.getElem?_eq_some_iff.mp hi
    refine List.idxOf?_eq_some_iff.mpr ⟨hlt, hname, fun j hj heq => ?_⟩
    exact absurd (h.getElem_inj_iff.mp (heq.trans hname.symm)) (Nat.ne_of_lt hj)

/-- `f` takes the place of a name to its place in the other order. -/
def Renumbers (f : Nat → Nat) (names names' : List String) : Prop :=
  ∀ name, names'.idxOf? name = (names.idxOf? name).map f

section

variable {f : Nat → Nat} {names names' : List String} (h : Renumbers f names names')

include h

theorem Renumbers.resolve_iff {path : String} {target : Nat} :
    resolve names' path = .ok target ↔ ∃ i, resolve names path = .ok i ∧ f i = target := by
  simp only [resolve_eq_ok, h _, Option.map_eq_some_iff]
  constructor
  · rintro ⟨name, hparse, i, hi, hf⟩
    exact ⟨i, ⟨name, hparse, hi⟩, hf⟩
  · rintro ⟨i, ⟨name, hparse, hi⟩, hf⟩
    exact ⟨name, hparse, i, hi, hf⟩

theorem Renumbers.plain {s : Site} (hs : s.Plain names') : s.Plain names where
  reference r hr := by
    obtain ⟨_, htarget⟩ := hs.reference r hr
    obtain ⟨i, hi, _⟩ := h.resolve_iff.mp htarget
    exact ⟨i, hi⟩
  enumeration := hs.enumeration

/-- The same references are resolved. -/
theorem Renumbers.edges_eq (n : Node) : ∀ place : Pointer,
    edges names' place n = (edges names place n).map (·.renumber f) := by
  induction n using Node.induct with
  | h n ihProperties ihItems ihValues =>
    intro place
    unfold edges
    cases hb : n.branch with
    | properties ps =>
      have hps := (Node.branch_eq_properties.mp hb).2
      rw [steps_properties hb, steps_properties hb]
      replace ihProperties : ∀ p ∈ ps, _ := fun p hp => ihProperties p (hps ▸ hp)
      clear hps hb
      induction ps with
      | nil => rfl
      | cons p ps ih =>
        obtain ⟨name, required, node⟩ := p
        have hnode := ihProperties _ List.mem_cons_self ((place.push "properties").push name)
        simp only [edges] at hnode
        simp only [stepsOfProperties, List.filterMap_append, List.map_append, hnode,
          ih fun p hp => ihProperties p (List.mem_cons_of_mem _ hp)]
    | reference r =>
      cases hr : resolve names r.path with
      | ok i =>
        rw [steps_reference hb hr, steps_reference hb (h.resolve_iff.mpr ⟨i, hr, rfl⟩)]
        rfl
      | error problem =>
        cases hr' : resolve names' r.path with
        | ok target =>
          obtain ⟨i, hi, _⟩ := h.resolve_iff.mp hr'
          rw [hr] at hi
          cases hi
        | error problem' =>
          rw [steps_missing hb hr, steps_missing hb hr']
          rfl
    | enumeration values => rw [steps_enumeration hb, steps_enumeration hb]; rfl
    | items item =>
      rw [steps_items hb, steps_items hb]
      exact ihItems item (Node.branch_eq_items.mp hb).2.2.2 _
    | mapValues value =>
      rw [steps_mapValues hb, steps_mapValues hb]
      exact ihValues value (Node.branch_eq_mapValues.mp hb).2.2.2.2 _
    | declared => rw [steps_declared hb, steps_declared hb]; rfl

/-- Where schemas of the same name have the same type, a node becomes the same but for the numbers. -/
theorem Renumbers.typed {types types' : Nat → Option BindingType}
    (htypes : ∀ i < names.length, types' (f i) = types i) {good : Nat → Prop} (n : Node) :
    ∀ (name : String) (isMember : Bool), n.Bare → Supported names good n →
      typed names' types' name isMember n = (typed names types name isMember n).renumber f := by
  induction n using Node.induct with
  | h n ihProperties ihItems ihValues =>
    intro name isMember hn hsupported
    obtain ⟨_, hps, hitems, hvalues⟩ := Node.bare_iff.mp hn
    -- what is off the branch has no numbers
    obtain ⟨hproperties, hitem, hvalue, hreference⟩ := hn.renumber_fields (f := f)
    cases hb : n.branch with
    | properties ps =>
      have heq := (Node.branch_eq_properties.mp hb).2
      have hmembers : typedProperties names' types' ps = (typedProperties names types ps).map (·.renumber f) := by
        rw [typedProperties, typedProperties, List.map_map]
        refine List.map_congr_left fun p hp => congrArg (Property.mk p.name p.required) ?_
        exact ihProperties p (heq ▸ hp) p.name true (hps p (heq ▸ hp)) (hsupported.properties hb hp)
      rw [typed_properties hb, typed_properties hb, Node.renumber_eq, hmembers]
      simp only [hitem, hvalue, hreference, List.map_map, Function.comp_def, Property.renumber,
        Node.bindingType_renumber]
    | reference r =>
      obtain ⟨i, hr, _⟩ := hsupported.reference hb
      rw [typed_reference hb hr, typed_reference hb (h.resolve_iff.mpr ⟨i, hr, rfl⟩), Node.renumber_eq,
        htypes i (resolve_lt hr)]
      simp only [hproperties, hitem, hvalue, Option.map_some, SchemaRef.renumber]
    | enumeration values =>
      rw [typed_enumeration hb, typed_enumeration hb, Node.renumber_eq]
      simp only [hproperties, hitem, hvalue, hreference]
    | items item =>
      have hi := (Node.branch_eq_items.mp hb).2.2.2
      rw [typed_items hb, typed_items hb, Node.renumber_eq,
        ihItems item hi name true (hitems item hi) (hsupported.items hb), Node.bindingType_renumber]
      simp only [hproperties, hvalue, hreference, Option.map_some]
    | mapValues value =>
      have hv := (Node.branch_eq_mapValues.mp hb).2.2.2.2
      rw [typed_mapValues hb, typed_mapValues hb, Node.renumber_eq,
        ihValues value hv name true (hvalues value hv) (hsupported.mapValues hb), Node.bindingType_renumber]
      simp only [hproperties, hitem, hreference, Option.map_some]
    | declared =>
      rw [typed_declared hb, typed_declared hb, Node.renumber_eq]
      simp only [hproperties, hitem, hvalue, hreference]

end

/-! ## Schemas in another order -/

theorem getElem?_keys (schemas : Keyed Schema) (i : Nat) : (Keyed.keys schemas)[i]? = schemas[i]?.map (·.1) :=
  List.getElem?_map

/-- The same schemas in another order; `f` takes the place of each to its place in the other order. -/
structure Rearranges (f : Nat → Nat) (schemas schemas' : Keyed Schema) : Prop where
  entry : ∀ i : Nat, schemas'[f i]? = schemas[i]?
  renumbers : Renumbers f (Keyed.keys schemas) (Keyed.keys schemas')

theorem exists_rearranges {schemas schemas' : Keyed Schema} (hperm : schemas.Perm schemas')
    (hnodup : (Keyed.keys schemas).Nodup) : ∃ f, Rearranges f schemas schemas' := by
  have hkeys : (Keyed.keys schemas).Perm (Keyed.keys schemas') := hperm.map _
  have hplace : ∀ i : Nat, ∃ j : Nat, schemas'[j]? = schemas[i]? := by
    intro i
    cases hi : schemas[i]? with
    -- what is beyond the end stays beyond the end
    | none => exact ⟨schemas'.length, List.getElem?_eq_none (Nat.le_refl _)⟩
    | some e => exact List.mem_iff_getElem?.mp (hperm.mem_iff.mp (List.mem_of_getElem? hi))
  choose f hf using hplace
  refine ⟨f, hf, fun name => ?_⟩
  cases hi : (Keyed.keys schemas).idxOf? name with
  | none => exact List.idxOf?_eq_none_iff.mpr fun hmem => List.idxOf?_eq_none_iff.mp hi (hkeys.mem_iff.mpr hmem)
  | some i =>
    have hname := (idxOf?_eq_some_iff_of_nodup hnodup).mp hi
    rw [getElem?_keys, ← hf i, ← getElem?_keys] at hname
    exact (idxOf?_eq_some_iff_of_nodup (hkeys.nodup_iff.mp hnodup)).mpr hname

section

variable {f : Nat → Nat} {schemas schemas' : Keyed Schema} (h : Rearranges f schemas schemas')

include h

/-- A name stands for the same schema. -/
theorem Rearranges.get?_eq (name : String) : Keyed.get? schemas' name = Keyed.get? schemas name := by
  refine Option.ext fun schema => ?_
  rw [Keyed.get?_eq_some_iff, Keyed.get?_eq_some_iff, h.renumbers name]
  constructor
  · rintro ⟨_, hplace, hentry⟩
    obtain ⟨i, hi, rfl⟩ := Option.map_eq_some_iff.mp hplace
    exact ⟨i, hi, h.entry i ▸ hentry⟩
  · rintro ⟨i, hi, hentry⟩
    exact ⟨f i, by rw [hi]; rfl, (h.entry i).trans hentry⟩

theorem Rearranges.length_lt {i : Nat} (hi : i < schemas.length) : f i < schemas'.length := by
  have hentry := h.entry i
  rw [List.getElem?_eq_getElem hi] at hentry
  exact (List.getElem?_eq_some_iff.mp hentry).1

/-- Every schema has the type it has in the other order, since it means the same. -/
theorem Rearranges.types_eq {last last' : State} (hlast : Sound schemas last) (hlast' : Sound schemas' last') {i : Nat}
    (hi : i < schemas.length) : last'.types (f i) = last.types i := by
  have hentry := List.getElem?_eq_getElem hi
  have hmeans := hlast.meansType hi _ _ hentry
  have hmeans' := hlast'.meansType (h.length_lt hi) _ _ ((h.entry i).trans hentry)
  exact hmeans'.unique (hmeans.congr h.get?_eq)

/-! ## Circles in another order -/

theorem Rearranges.edge? (a : Arc) : (linked schemas').edge? (a.renumber f) =
    ((linked schemas).edge? a).map (·.renumber f) := by
  unfold ReferenceGraph.edge? Arc.renumber
  rcases hs : schemas[a.source]? with _ | ⟨name, schema⟩
  · simp [ReferenceGraph.edgesOf, linked, hs, h.entry a.source]
  · rw [edgesOf_linked hs, edgesOf_linked ((h.entry a.source).trans hs), h.renumbers.edges_eq, List.getElem?_map]

theorem Rearranges.leads {a b : Arc} (hab : (linked schemas).Leads a b) :
    (linked schemas').Leads (a.renumber f) (b.renumber f) := by
  obtain ⟨e, he, htarget, hlt⟩ := hab
  rw [size_linked] at hlt
  exact ⟨_, by rw [h.edge?, he]; rfl, congrArg f htarget, by rw [size_linked]; exact h.length_lt hlt⟩

/-- No references lead in a circle if none do in the other order. -/
theorem Rearranges.acyclic (hacyclic : (linked schemas').Acyclic) : (linked schemas).Acyclic := by
  intro arcs hcircuit
  refine hacyclic (arcs.map (·.renumber f)) ⟨?_, ?_, ?_⟩
  · exact fun hnil => hcircuit.ne_nil (List.map_eq_nil_iff.mp hnil)
  · exact List.isChain_map_of_isChain _ (fun a b hab => h.leads hab) hcircuit.chain
  · intro a ha b hb
    rw [List.getLast?_map] at ha
    rw [List.head?_map] at hb
    obtain ⟨c, hc, rfl⟩ := Option.map_eq_some_iff.mp ha
    obtain ⟨d, hd, rfl⟩ := Option.map_eq_some_iff.mp hb
    exact h.leads (hcircuit.closed c hc d hd)

end

end Annotation

end BindingSchema
