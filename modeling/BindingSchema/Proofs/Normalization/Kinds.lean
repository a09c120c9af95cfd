import BindingSchema.Proofs.Normalization.Lowered
import BindingSchema.Proofs.Normalization.References

/-!
The type of a node and the type that bindings are generated from.

A node of the normal form says what it is twice: with the name of a type, and with a binding type.
Annotation sets both, and they agree (`Node.Consistent`) on every branch but one. Properties, enums and
map values take the place of a type that is declared beside them; items leave it where it is
(`consistent_typed_items`). So a node disagrees with itself exactly where its definition declares a type
beside the items that the binding type comes from, and that type is not that of arrays
(`consistent_of_parse`).
-/

namespace BindingSchema

open Annotation

/-- The type of the node goes with the binding type `t`. -/
structure Node.Consistent (x : Node) (t : BindingType) : Prop where
  object : t.kind = .object → x.type = some .object
  enumeration : t.kind = .enumeration → x.type = some .enum
  array : t.kind = .array → x.type = some .array
  map : t.kind = .map → x.type = some .map
  string : x.type = some .string → t.kind = .string ∨ t.kind = .dateTime
  integer : x.type = some .integer → ∃ i, t.kind = .integer i
  number : x.type = some .number → t.kind = .float ∨ t.kind = .double
  boolean : x.type = some .boolean → t.kind = .boolean
  buffer : x.type = some .buffer → t.kind = .buffer
  dateTime : x.isDateTime = true ↔ t.kind = .dateTime

/-- The binding type comes from the items of the definition, which declares a type other than that of
arrays. -/
def Definition.Mislabelled (d : Definition) : Prop :=
  (d.properties = [] ∧ d.reference = none ∧ d.enumValues = none ∧ d.items.isSome) ∧
    ∃ type, d.type = some type ∧ type ≠ .array

/-! ## Branch by branch -/

namespace Annotation

variable {schemas : List String} {types : Nat → Option BindingType} {name : String} {isMember : Bool} {n : Node}
  {t : BindingType}

/-- A composite binding type goes with the name of its own type. -/
theorem consistent_composite {x : Node} {type : TypeName} {kind : Kind} (hx : x.type = some type)
    (hkind : t.kind = kind)
    (h : (kind, type) ∈ [(Kind.object, TypeName.object), (.enumeration, .enum), (.array, .array), (.map, .map)]) :
    x.Consistent t := by
  simp only [List.mem_cons, Prod.mk.injEq, List.not_mem_nil, or_false] at h
  rcases h with ⟨rfl, rfl⟩ | ⟨rfl, rfl⟩ | ⟨rfl, rfl⟩ | ⟨rfl, rfl⟩ <;>
    constructor <;> simp [hx, hkind, Node.isDateTime]

/-- What is made of a declared type. -/
theorem kind_declaredType {type : Option TypeName} {format : Option Format}
    (ht : declaredType type format isMember = some t) :
    (type = some .string ∧ t.kind = if format = some .dateTime then .dateTime else .string) ∨
      (type = some .integer ∧ ∃ i, t.kind = .integer i) ∨
      (type = some .number ∧ t.kind = if format = some .float then .float else .double) ∨
      (type = some .boolean ∧ t.kind = .boolean) ∨ (type = some .buffer ∧ t.kind = .buffer) ∨
      (type = some .array ∧ t.kind = .array) ∨
      (type ∈ [none, some .object, some .enum, some .map] ∧ t.kind = .freeForm) := by
  cases type with
  | none =>
    cases isMember with
    | false => cases ht
    | true => cases ht; simp [BindingType.kind, BindingType.freeForm, BindingType.plain, Shape.kind]
  | some type =>
    cases type with
    | string =>
      cases ht
      refine .inl ⟨rfl, ?_⟩
      split <;> rfl
    | integer =>
      refine .inr (.inl ⟨rfl, ?_⟩)
      -- a format of another type is passed over
      rcases format with _ | f
      · cases ht; exact ⟨_, rfl⟩
      · cases f <;> cases ht <;> exact ⟨_, rfl⟩
    | number =>
      cases ht
      refine .inr (.inr (.inl ⟨rfl, ?_⟩))
      split <;> rfl
    | _ => cases ht; simp [BindingType.kind, BindingType.boolean, BindingType.buffer, BindingType.array,
        BindingType.freeForm, BindingType.plain, Shape.kind]

/-- A declared type goes with what is made of it. -/
theorem consistent_declared {x : Node} {u : BindingType} (hu : declaredType x.type x.format isMember = some u)
    (heq : t.kind = u.kind) : x.Consistent t := by
  have hcases := kind_declaredType hu
  rw [← heq] at hcases
  rcases hcases with ⟨htype, hkind⟩ | ⟨htype, i, hkind⟩ | ⟨htype, hkind⟩ | ⟨htype, hkind⟩ |
    ⟨htype, hkind⟩ | ⟨htype, hkind⟩ | ⟨htype, hkind⟩
  · by_cases hformat : x.format = some .dateTime
    · rw [if_pos hformat] at hkind
      constructor <;> simp [htype, hkind, hformat, Node.isDateTime]
    · rw [if_neg hformat] at hkind
      constructor <;> simp [htype, hkind, hformat, Node.isDateTime]
  · constructor <;> simp [htype, hkind, Node.isDateTime]
  · split at hkind <;> constructor <;> simp [htype, hkind, Node.isDateTime]
  · constructor <;> simp [htype, hkind, Node.isDateTime]
  · constructor <;> simp [htype, hkind, Node.isDateTime]
  · constructor <;> simp [htype, hkind, Node.isDateTime]
  · simp only [List.mem_cons, List.not_mem_nil, or_false] at htype
    rcases htype with htype | htype | htype | htype <;> constructor <;> simp [htype, hkind, Node.isDateTime]

/-- Beside the items that the binding type comes from, the type is what it was declared to be. -/
theorem consistent_typed_items {item : Node} (hb : n.branch = .items item)
    (ht : (typed schemas types name isMember n).bindingType = some t) :
    (typed schemas types name isMember n).Consistent t ↔ n.type.getD .array = .array := by
  rw [typed_items hb] at ht ⊢
  cases ht
  constructor
  · intro h
    exact Option.some.inj (h.array rfl)
  · intro h
    exact consistent_composite (congrArg some h) (rfl : _ = Kind.array) (by decide)

/-- Annotation makes a node consistent, unless the node declares another type beside the items that its
binding type comes from. -/
theorem consistent_typed (ht : (typed schemas types name isMember n).bindingType = some t)
    (hr : (typed schemas types name isMember n).reference = none) :
    (typed schemas types name isMember n).Consistent t ↔
      ∀ item, n.branch = .items item → n.type.getD .array = .array := by
  cases hb : n.branch with
  | properties ps =>
    rw [typed_properties hb] at ht ⊢
    cases ht
    exact iff_of_true (consistent_composite rfl (rfl : _ = Kind.object) (by decide)) (by simp)
  | reference r =>
    cases hres : resolve schemas r.path with
    | error problem =>
      rw [typed_missing hb hres] at ht
      cases ht
    | ok target =>
      rw [typed_reference hb hres] at hr
      cases hr
  | enumeration values =>
    rw [typed_enumeration hb] at ht ⊢
    cases ht
    exact iff_of_true (consistent_composite rfl (rfl : _ = Kind.enumeration) (by decide)) (by simp)
  | items item => simpa using consistent_typed_items hb ht
  | mapValues value =>
    rw [typed_mapValues hb] at ht ⊢
    cases ht
    exact iff_of_true (consistent_composite rfl (rfl : _ = Kind.map) (by decide)) (by simp)
  | declared =>
    rw [typed_declared hb] at ht ⊢
    obtain ⟨u, hu, rfl⟩ := Option.map_eq_some_iff.mp ht
    exact iff_of_true (consistent_declared hu rfl) (by simp)

end Annotation

/-! ## The normal form -/

namespace Definition

theorem toProperties_eq_nil {required : List String} {ds : List (String × Definition)} :
    toProperties required ds = [] ↔ ds = [] := by
  rcases ds with _ | ⟨⟨name, d⟩, ds⟩ <;> simp [toProperties]

theorem exists_branch_items {d : Definition} : (∃ item, d.toNode.branch = .items item) ↔
    d.properties = [] ∧ d.reference = none ∧ d.enumValues = none ∧ d.items.isSome := by
  simp only [Node.branch_eq_items, toNode_eq d, toProperties_eq_nil, Option.map_eq_none_iff, exists_and_left,
    ← Option.isSome_iff_exists, Option.isSome_map]

theorem mislabelled_iff {d : Definition} :
    d.Mislabelled ↔ ¬ ∀ item, d.toNode.branch = .items item → d.toNode.type.getD .array = .array := by
  have htype : d.toNode.type = d.type := by rw [toNode_eq]
  rw [Mislabelled, ← exists_branch_items, htype]
  cases d.type <;> simp

end Definition

namespace Normalization

/-- In the normal form of a document of version 1, the type and the binding type of a node without a reference
are consistent exactly if its definition does not declare another type beside the items that the binding type
comes from. -/
theorem consistent_of_parse {raw : Value} {version : Version} {n : Normalized}
    (hversion : Document.statedVersion? raw = some version) (hone : version = .v1 ∨ version = .v1Draft)
    (h : parse raw = .ok n) :
    ∃ doc, FunctionDocument.read raw = .ok doc ∧ ∀ root ways x t, n.interface.node? root ways = some x →
      x.bindingType = some t → x.reference = none →
      ∃ d, doc.definition? root ways = some d ∧ (x.Consistent t ↔ ¬ d.Mislabelled) := by
  have hne : version ≠ .v0 := by rcases hone with rfl | rfl <;> decide
  obtain ⟨_, doc, hread, herrors, rfl⟩ := (parse_eq_ok_iff hversion hne).mp h
  refine ⟨doc, hread, fun root ways x t hx ht hreference => ?_⟩
  rcases node?_derive herrors hx with ⟨site, hsite, _, _, rfl⟩ | ⟨_, hbare⟩
  · have hnode := Interface.node?_of_site? hsite
    rw [node?_lowered] at hnode
    obtain ⟨d, hd, hlowered⟩ := Option.map_eq_some_iff.mp hnode
    refine ⟨d, hd, (consistent_typed ht hreference).trans ?_⟩
    rw [Definition.mislabelled_iff, hlowered, not_not]
  · rw [(Node.bare_iff.mp hbare).1.1] at ht
    cases ht

/-- A note is a text that has items, and a page has lines. -/
def note : Value :=
  .object [("version", .string "v1"), ("components", .object [("schemas", .object [
    ("Note", .object [("type", .string "string"), ("items", .object [("type", .string "integer")])]),
    ("Page", .object [("items", .object [("type", .string "string")]), ("nullable", .bool true)])])])]

theorem consistent_of_parse_page :
    Document.statedVersion? note = some .v1 ∧ ∃ n x t, parse note = .ok n ∧
      n.interface.node? (.schema 1) [] = some x ∧ x.bindingType = some t ∧ x.reference = none ∧
      t.kind = .array ∧ x.Consistent t := by
  have hversion : Document.statedVersion? note = some .v1 := by decide +kernel
  obtain ⟨n, hn⟩ : ∃ n, parse note = .ok n := ⟨_, rfl⟩
  obtain ⟨doc, hdoc, hplaces⟩ := consistent_of_parse hversion (Or.inl rfl) hn
  cases hn
  cases hdoc
  obtain ⟨d, hd, hiff⟩ := hplaces (.schema 1) [] _ _ rfl rfl rfl
  cases hd
  refine ⟨hversion, _, _, _, rfl, rfl, rfl, rfl, rfl, hiff.mpr ?_⟩
  rintro ⟨_, type, htype, _⟩
  cases htype

/-- The note is accepted: its binding type is that of arrays, its type is that of texts. -/
theorem not_consistent_note :
    Document.statedVersion? note = some .v1 ∧ ∃ n x t, parse note = .ok n ∧
      n.interface.node? (.schema 0) [] = some x ∧ x.bindingType = some t ∧ x.reference = none ∧
      t.kind = .array ∧ x.type = some .string ∧ ¬ x.Consistent t := by
  refine ⟨by decide +kernel, _, _, _, rfl, rfl, rfl, rfl, rfl, rfl, fun h => ?_⟩
  cases h.array rfl

end Normalization

end BindingSchema
