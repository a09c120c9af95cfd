import BindingSchema.Proofs.Normalization.Kinds

/-!
What stands behind a reference, and what may be passed without structured encoding.

Whether a node may be passed so is read off the schema that its reference points to, and off nothing
further: a schema with an enum or one without properties will do. Its binding type is taken from wherever
the reference ends, and properties go before an enum there. So a node with a reference is an object
exactly if the reference leads to properties (`kind_iff_leadsToObject`). One that may not be passed without
structured encoding always is; one that may is an object in two cases, if the schema it points to has an
enum beside properties, or is a reference itself that leads to properties (`object_of_parse`).
-/

namespace BindingSchema

open Annotation

namespace Interface

/-- The type of `x` is the type of `y`, found through any number of references. -/
inductive Forwards (i : Interface) : Node → Node → Prop
  | here (x : Node) : Forwards i x x
  | next {x y : Node} {r : SchemaRef} {s : Schema} (branch : x.branch = .reference r) (resolves : i.resolve r = .ok s)
      (rest : Forwards i s.node y) : Forwards i x y

/-- The type of `x` is that of a node with properties. -/
def LeadsToObject (i : Interface) (x : Node) : Prop := ∃ y, i.Forwards x y ∧ y.properties ≠ []

variable {i : Interface} {x : Node}

theorem leadsToObject_of_reference {r : SchemaRef} {s : Schema} (hb : x.branch = .reference r)
    (hr : i.resolve r = .ok s) : i.LeadsToObject x ↔ i.LeadsToObject s.node := by
  constructor
  · rintro ⟨y, hforwards, hy⟩
    cases hforwards with
    | here => exact absurd (Node.branch_eq_reference.mp hb).1 hy
    | next hb' hr' hrest =>
      cases hb.symm.trans hb'
      cases hr.symm.trans hr'
      exact ⟨y, hrest, hy⟩
  · rintro ⟨y, hrest, hy⟩
    exact ⟨y, .next hb hr hrest, hy⟩

/-- A node without properties leads on only if it is a reference. -/
theorem leadsToObject_iff (hx : x.properties = []) :
    i.LeadsToObject x ↔ ∃ r s, x.branch = .reference r ∧ i.resolve r = .ok s ∧ i.LeadsToObject s.node := by
  constructor
  · rintro ⟨y, hforwards, hy⟩
    cases hforwards with
    | here => exact absurd hx hy
    | next hb hr hrest => exact ⟨_, _, hb, hr, y, hrest, hy⟩
  · rintro ⟨r, s, hb, hr, hleads⟩
    exact (leadsToObject_of_reference hb hr).mpr hleads

theorem not_leadsToObject (hx : x.properties = []) (hb : ∀ r, x.branch ≠ .reference r) : ¬ i.LeadsToObject x := by
  intro h
  obtain ⟨r, _, hr, _⟩ := (leadsToObject_iff hx).mp h
  exact hb r hr

theorem site?_schema {name : String} {s : Schema} (h : Keyed.get? i.schemas name = some s) :
    ∃ index, i.site? (.schema index) [] = some ⟨name, false, s.node⟩ := by
  obtain ⟨index, _, hs⟩ := Keyed.get?_eq_some_iff.mp h
  exact ⟨index, by simp [site?, root?, hs, Site.follow?]⟩

end Interface

namespace Annotation

theorem kind_declaredType_ne_object {type : Option TypeName} {format : Option Format} {isMember : Bool}
    {t : BindingType} (ht : declaredType type format isMember = some t) : t.kind ≠ .object := by
  rcases kind_declaredType ht with ⟨_, hkind⟩ | ⟨_, _, hkind⟩ | ⟨_, hkind⟩ | ⟨_, hkind⟩ | ⟨_, hkind⟩ |
    ⟨_, hkind⟩ | ⟨_, hkind⟩ <;> rw [hkind]
  case inl | inr.inr.inl => split <;> decide
  all_goals simp

theorem Means.isSome_of_reference {schemas : Keyed Schema} {name : String} {isMember : Bool} {n : Node}
    {t : Option BindingType} (h : Means schemas name isMember n t) {r : SchemaRef} (hb : n.branch = .reference r) :
    ∃ u, t = some u := by
  cases h with
  | declared hb' => cases hb.symm.trans hb'
  | _ => exact ⟨_, rfl⟩

end Annotation

namespace Normalization

variable {doc : FunctionDocument} (h : (derive doc).diagnostics.errors = [])

include h

/-- The reference that the type of a reached node comes from is resolved. -/
theorem resolve_site {root : Root} {ways : List Way} {site : Site} {r : SchemaRef}
    (hsite : (derive doc).interface.site? root ways = some site) (hb : site.node.branch = .reference r) :
    ∃ name s, SchemaRef.parse r.path = .ok name ∧ (derive doc).interface.resolve r = .ok s ∧
      Keyed.get? (derive doc).interface.schemas name = some s := by
  have hx := Interface.node?_of_site? hsite
  have hr := (Node.branch_eq_reference.mp hb).2
  have hresolved := ((reached_derive h).isResolved root ways site.node hx r hr).mpr ⟨by rw [hsite]; rfl, hb⟩
  obtain ⟨name, s, hparse, hs, _, hget⟩ := resolve_derive h hx hr hresolved
  exact ⟨name, s, hparse, hs, hget⟩

/-- The binding type of a reached node is that of an object exactly if the node leads to one. The
induction follows the references. -/
theorem kind_iff_leadsToObject {name : String} {isMember : Bool} {x : Node} {t : Option BindingType}
    (hmeans : Means (derive doc).interface.schemas name isMember x t) :
    ∀ {root : Root} {ways : List Way} {site : Site}, (derive doc).interface.site? root ways = some site →
      site.node = x → ((t.map (·.kind)) = some .object ↔ (derive doc).interface.LeadsToObject x) := by
  induction hmeans with
  | properties hb _ _ =>
    intro _ _ _ _ _
    obtain ⟨hne, hps⟩ := Node.branch_eq_properties.mp hb
    exact iff_of_true rfl ⟨_, .here _, hps ▸ hne⟩
  | @reference name isMember n r target s t hb hparse hget _ ih =>
    rintro root ways site hsite rfl
    obtain ⟨target', s', hparse', hresolve, hget'⟩ := resolve_site h hsite hb
    cases hparse.symm.trans hparse'
    cases hget.symm.trans hget'
    obtain ⟨index, hschema⟩ := Interface.site?_schema hget
    rw [Interface.leadsToObject_of_reference hb hresolve, ← ih hschema rfl]
    cases t <;> simp [BindingType.kind, BindingType.withNullable, BindingType.freeForm, BindingType.plain, Shape.kind]
  | enumeration hb =>
    intro _ _ _ _ _
    refine iff_of_false (by intro hkind; cases hkind) ?_
    exact Interface.not_leadsToObject (Node.branch_eq_enumeration.mp hb).1 (by simp [hb])
  | items hb _ _ =>
    intro _ _ _ _ _
    refine iff_of_false (by intro hkind; cases hkind) ?_
    exact Interface.not_leadsToObject (Node.branch_eq_items.mp hb).1 (by simp [hb])
  | mapValues hb _ _ =>
    intro _ _ _ _ _
    refine iff_of_false (by intro hkind; cases hkind) ?_
    exact Interface.not_leadsToObject (Node.branch_eq_mapValues.mp hb).1 (by simp [hb])
  | declared hb =>
    intro _ _ _ _ _
    refine iff_of_false (fun hkind => ?_) ?_
    · rw [Option.map_map] at hkind
      obtain ⟨u, hu, hkind⟩ := Option.map_eq_some_iff.mp hkind
      exact kind_declaredType_ne_object hu hkind
    · exact Interface.not_leadsToObject (Node.branch_eq_declared.mp hb).1 (by simp [hb])

/-- A reached node has the binding type that it means in the normal form. -/
theorem means_derive {root : Root} {ways : List Way} {site : Site}
    (hsite : (derive doc).interface.site? root ways = some site) :
    Means (derive doc).interface.schemas site.name site.isMember site.node site.node.bindingType := by
  rw [site?_derive h] at hsite
  obtain ⟨raw, hraw, rfl⟩ := Option.map_eq_some_iff.mp hsite
  exact (means_site h hraw).annotated (get?_schemas_derive h)

/-- A node whose reference is resolved has a binding type, and it is that of an object exactly if the schema
that the reference points to leads to one. -/
theorem object_derive {root : Root} {ways : List Way} {x : Node} {r : SchemaRef}
    (hx : (derive doc).interface.node? root ways = some x) (hr : x.reference = some r)
    (hresolved : r.isResolved = true) :
    ∃ s t, (derive doc).interface.resolve r = .ok s ∧ x.bindingType = some t ∧
      (t.kind = .object ↔ (derive doc).interface.LeadsToObject s.node) := by
  obtain ⟨hsome, hb⟩ := ((reached_derive h).isResolved root ways x hx r hr).mp hresolved
  obtain ⟨site, hsite⟩ := Option.isSome_iff_exists.mp hsome
  obtain rfl : site.node = x := Option.some.inj ((Interface.node?_of_site? hsite).symm.trans hx)
  obtain ⟨_, s, _, hresolve, _⟩ := resolve_site h hsite hb
  have hmeans := means_derive h hsite
  obtain ⟨t, ht⟩ := hmeans.isSome_of_reference hb
  have hkind := kind_iff_leadsToObject h hmeans hsite rfl
  rw [Interface.leadsToObject_of_reference hb hresolve, ht] at hkind
  exact ⟨s, t, hresolve, ht, by simpa using hkind⟩

end Normalization

/-- The node that a reference leads from may be passed without structured encoding if the schema is an enum or
has no properties. -/
theorem Interface.isPrimitive_of_resolve {i : Interface} {x : Node} {r : SchemaRef} {s : Schema}
    (hr : x.reference = some r) (hresolve : i.resolve r = .ok s) :
    i.isPrimitive x = (s.isEnum || s.node.properties.isEmpty) := by
  rw [isPrimitive, hr]
  simp only [hresolve]

/-- In a normal form, a node with a resolved reference that may not be passed without structured encoding is
an object. One that may is an object in two cases only: the schema it refers to has an enum beside properties,
or it is a reference itself, and one that leads to an object. -/
theorem object_of_parse {raw : Value} {n : Normalized} (h : parse raw = .ok n) (root : Root) (ways : List Way)
    {x : Node} {r : SchemaRef} (hx : n.interface.node? root ways = some x) (hr : x.reference = some r)
    (hresolved : r.isResolved = true) :
    ∃ s t, n.interface.resolve r = .ok s ∧ x.bindingType = some t ∧
      (n.interface.isPrimitive x = false → t.kind = .object) ∧
      (n.interface.isPrimitive x = true →
        (t.kind = .object ↔ (s.isEnum = true ∧ s.node.properties ≠ []) ∨
          ∃ r' s', s.node.branch = .reference r' ∧ n.interface.resolve r' = .ok s' ∧
            n.interface.LeadsToObject s'.node)) := by
  obtain ⟨doc, hinterface⟩ | ⟨doc, herrors, hinterface⟩ := interface_of_parse h
  · rw [hinterface, Normalization.node?_ofNames] at hx
    cases hx
  · rw [hinterface] at hx ⊢
    obtain ⟨s, t, hresolve, ht, hkind⟩ := Normalization.object_derive herrors hx hr hresolved
    have hprimitive := Interface.isPrimitive_of_resolve hr hresolve
    refine ⟨s, t, hresolve, ht, fun hnot => ?_, fun hyes => ?_⟩
    · rw [hprimitive, Bool.or_eq_false_iff] at hnot
      exact hkind.mpr ⟨s.node, .here _, by simpa using hnot.2⟩
    · rw [hkind]
      by_cases hnone : s.node.properties = []
      · rw [Interface.leadsToObject_iff hnone]
        exact (or_iff_right fun henum => henum.2 hnone).symm
      · have henum : s.isEnum = true := by simpa [hprimitive, hnone] using hyes
        exact iff_of_true ⟨s.node, .here _, hnone⟩ (.inl ⟨henum, hnone⟩)

/-- A parcel is a box, and a gift is a parcel; a stamp has one of two colours, and so has a letter's. A label
has a text, and is one of two prints besides; a sticker is a label. -/
def post : Value :=
  .object [("version", .string "v1"), ("components", .object [("schemas", .object [
    ("Box", .object [("properties", .object [("weight", .object [("type", .string "integer")])])]),
    ("Parcel", .object [("$ref", .string "#/components/schemas/Box")]),
    ("Gift", .object [("$ref", .string "#/components/schemas/Parcel")]),
    ("Stamp", .object [("enum", .array [.string "red", .string "blue"])]),
    ("Letter", .object [("$ref", .string "#/components/schemas/Stamp")]),
    ("Label", .object [("properties", .object [("text", .object [("type", .string "string")])]),
      ("enum", .array [.string "fragile", .string "express"])]),
    ("Sticker", .object [("$ref", .string "#/components/schemas/Label")])])])]

/-- A parcel is encoded, and a letter need not be. -/
theorem object_of_parse_letter :
    ∃ n, parse post = .ok n ∧
      (∃ x t, n.interface.node? (.schema 1) [] = some x ∧ n.interface.isPrimitive x = false ∧
        x.bindingType = some t ∧ t.kind = .object) ∧
      ∃ x t, n.interface.node? (.schema 4) [] = some x ∧ n.interface.isPrimitive x = true ∧
        x.bindingType = some t ∧ t.kind ≠ .object := by
  obtain ⟨n, hn⟩ : ∃ n, parse post = .ok n := ⟨_, rfl⟩
  have hn' := hn
  cases hn'
  refine ⟨_, hn, ?_, ?_⟩
  · obtain ⟨_, t, _, ht, hencoded, _⟩ := object_of_parse hn (.schema 1) [] rfl rfl rfl
    exact ⟨_, t, rfl, rfl, ht, hencoded rfl⟩
  · obtain ⟨stamp, t, hstamp, ht, _, hiff⟩ := object_of_parse hn (.schema 4) [] rfl rfl rfl
    cases hstamp
    refine ⟨_, t, rfl, rfl, ht, fun hkind => ?_⟩
    obtain ⟨_, hproperties⟩ | ⟨_, _, hb, _⟩ := (hiff rfl).mp hkind
    · exact hproperties rfl
    · cases hb

/-- A gift and a sticker may be passed without structured encoding, and both are objects: the parcel between a
gift and the box has no properties of its own, and the label has its prints beside its text. -/
theorem object_gift_sticker :
    ∃ n, parse post = .ok n ∧ ∀ index ∈ [2, 6], ∃ x r t, n.interface.node? (.schema index) [] = some x ∧
      x.reference = some r ∧ r.isResolved = true ∧ n.interface.isPrimitive x = true ∧
      x.bindingType = some t ∧ t.kind = .object := by
  refine ⟨_, rfl, ?_⟩
  intro index hindex
  rcases List.mem_cons.mp hindex with rfl | hindex
  · exact ⟨_, _, _, rfl, rfl, rfl, rfl, rfl, rfl⟩
  · obtain rfl := List.mem_singleton.mp hindex
    exact ⟨_, _, _, rfl, rfl, rfl, rfl, rfl, rfl⟩

end BindingSchema
