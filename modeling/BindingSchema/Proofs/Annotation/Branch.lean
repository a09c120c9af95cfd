import BindingSchema.Annotation

/-!
What the type of a node comes from.

`Node.branch` is the first of its properties, reference, enum, items and map values that a node
has. Annotation goes down the branch and into nothing else. There is one equation of `annotate`
for each branch, and one induction over nodes (`Node.induct`); nothing else looks into either.
-/

namespace BindingSchema

/-- What the type of a node comes from. -/
inductive Branch where
  /-- At least one. -/
  | properties (ps : List Property)
  | reference (r : SchemaRef)
  | enumeration (values : List Value)
  | items (item : Node)
  | mapValues (value : Node)
  /-- The declared type, if there is one. -/
  | declared

namespace Node

def branch (n : Node) : Branch :=
  match n.properties with
  | p :: ps => .properties (p :: ps)
  | [] =>
  match n.reference with
  | some r => .reference r
  | none =>
  match n.enumValues with
  | some values => .enumeration values
  | none =>
  match n.items with
  | some item => .items item
  | none =>
  match n.additionalProperties with
  | some value => .mapValues value
  | none => .declared

variable {n : Node}

theorem branch_eq_properties {ps : List Property} :
    n.branch = .properties ps ↔ ps ≠ [] ∧ n.properties = ps := by
  unfold branch
  grind

theorem branch_eq_reference {r : SchemaRef} :
    n.branch = .reference r ↔ n.properties = [] ∧ n.reference = some r := by
  unfold branch
  grind

theorem branch_eq_enumeration {values : List Value} :
    n.branch = .enumeration values ↔
      n.properties = [] ∧ n.reference = none ∧ n.enumValues = some values := by
  unfold branch
  grind

theorem branch_eq_items {item : Node} :
    n.branch = .items item ↔
      n.properties = [] ∧ n.reference = none ∧ n.enumValues = none ∧ n.items = some item := by
  unfold branch
  grind

theorem branch_eq_mapValues {value : Node} :
    n.branch = .mapValues value ↔ n.properties = [] ∧ n.reference = none ∧ n.enumValues = none ∧
      n.items = none ∧ n.additionalProperties = some value := by
  unfold branch
  grind

theorem branch_eq_declared :
    n.branch = .declared ↔ n.properties = [] ∧ n.reference = none ∧ n.enumValues = none ∧
      n.items = none ∧ n.additionalProperties = none := by
  unfold branch
  grind

/-! ## Induction -/

/-- What holds of a node if it holds of the nodes right below it holds of every node. -/
theorem induct {P : Node → Prop}
    (h : ∀ n : Node, (∀ p ∈ n.properties, P p.node) → (∀ item, n.items = some item → P item) →
      (∀ value, n.additionalProperties = some value → P value) → P n) : ∀ n, P n := by
  intro n
  induction hn : sizeOf n using Nat.strongRecOn generalizing n with
  | ind size ih =>
    subst hn
    refine h n ?_ ?_ ?_
    · intro p hp
      refine ih (sizeOf p.node) ?_ p.node rfl
      obtain ⟨type, format, description, nullable, items, values, properties, enumValues, reference, bt⟩ := n
      have hlt := List.sizeOf_lt_of_mem hp
      obtain ⟨name, required, node⟩ := p
      simp only [mk.sizeOf_spec, Property.mk.sizeOf_spec] at hlt ⊢
      omega
    · intro item hi
      refine ih (sizeOf item) ?_ item rfl
      obtain ⟨type, format, description, nullable, items, values, properties, enumValues, reference, bt⟩ := n
      simp only at hi
      subst hi
      simp only [mk.sizeOf_spec, Option.some.sizeOf_spec]
      omega
    · intro value hv
      refine ih (sizeOf value) ?_ value rfl
      obtain ⟨type, format, description, nullable, items, values, properties, enumValues, reference, bt⟩ := n
      simp only at hv
      subst hv
      simp only [mk.sizeOf_spec, Option.some.sizeOf_spec]
      omega

end Node

/-! ## Annotation by branch -/

namespace Annotation

variable (schemas : List String) (enter : Enter) (name : String) (isMember : Bool) (place : Pointer) (s : State)

attribute [local simp] annotate Node.isNullable

theorem annotate_properties {n : Node} {ps : List Property} (h : n.branch = .properties ps) :
    annotate schemas enter name isMember place n s =
      let r := annotateProperties schemas enter (place.push "properties") ps s
      ({ n with
          type := some .object
          properties := r.1
          bindingType := some ((BindingType.object name
            (r.1.map fun p => orFreeForm p.node.bindingType)).withNullable n.isNullable) }, r.2) := by
  obtain ⟨type, format, description, nullable, items, values, properties, enumValues, reference, bt⟩ := n
  obtain ⟨hne, rfl⟩ := Node.branch_eq_properties.mp h
  cases properties with
  | nil => exact absurd rfl hne
  | cons p ps => simp

theorem annotate_missing {n : Node} {r : SchemaRef} {problem : Problem} (h : n.branch = .reference r)
    (hr : resolve schemas r.path = .error problem) :
    annotate schemas enter name isMember place n s =
      ({ n with bindingType := none }, s.report [problem.located (place.push "$ref")]) := by
  obtain ⟨type, format, description, nullable, items, values, properties, enumValues, reference, bt⟩ := n
  obtain ⟨rfl, rfl⟩ := Node.branch_eq_reference.mp h
  simp [hr]

theorem annotate_reference {n : Node} {r : SchemaRef} {target : Nat} (h : n.branch = .reference r)
    (hr : resolve schemas r.path = .ok target) :
    annotate schemas enter name isMember place n s =
      let a := enter target (place.push "$ref") s
      ({ n with
          type := some .object
          reference := some { r with target := some target }
          bindingType := some ((orFreeForm a.1).withNullable n.isNullable) }, a.2) := by
  obtain ⟨type, format, description, nullable, items, values, properties, enumValues, reference, bt⟩ := n
  obtain ⟨rfl, rfl⟩ := Node.branch_eq_reference.mp h
  simp [hr]

theorem annotate_enumeration {n : Node} {values : List Value} (h : n.branch = .enumeration values) :
    annotate schemas enter name isMember place n s =
      ({ n with
          type := some .enum
          bindingType := some ((BindingType.enumeration name
            (values.filterMap (·.asString?))).withNullable n.isNullable) },
        s.report (enumProblems place values)) := by
  obtain ⟨type, format, description, nullable, items, mapped, properties, enumValues, reference, bt⟩ := n
  obtain ⟨rfl, rfl, rfl⟩ := Node.branch_eq_enumeration.mp h
  simp

theorem annotate_items {n item : Node} (h : n.branch = .items item) :
    annotate schemas enter name isMember place n s =
      let r := annotate schemas enter name true (place.push "items") item s
      ({ n with
          type := some (n.type.getD .array)
          items := some r.1
          bindingType :=
            some ((BindingType.array (orFreeForm r.1.bindingType)).withNullable n.isNullable) }, r.2) := by
  obtain ⟨type, format, description, nullable, items, values, properties, enumValues, reference, bt⟩ := n
  obtain ⟨rfl, rfl, rfl, rfl⟩ := Node.branch_eq_items.mp h
  simp

theorem annotate_mapValues {n value : Node} (h : n.branch = .mapValues value) :
    annotate schemas enter name isMember place n s =
      let r := annotate schemas enter name true (place.push "additionalProperties") value s
      ({ n with
          type := some .map
          additionalProperties := some r.1
          bindingType :=
            some ((BindingType.map (orFreeForm r.1.bindingType)).withNullable n.isNullable) }, r.2) := by
  obtain ⟨type, format, description, nullable, items, values, properties, enumValues, reference, bt⟩ := n
  obtain ⟨rfl, rfl, rfl, rfl, rfl⟩ := Node.branch_eq_mapValues.mp h
  simp

theorem annotate_declared {n : Node} (h : n.branch = .declared) :
    annotate schemas enter name isMember place n s =
      ({ n with
          bindingType :=
            (declaredType n.type n.format isMember).map (·.withNullable n.isNullable) }, s) := by
  obtain ⟨type, format, description, nullable, items, values, properties, enumValues, reference, bt⟩ := n
  obtain ⟨rfl, rfl, rfl, rfl, rfl⟩ := Node.branch_eq_declared.mp h
  simp

end Annotation

end BindingSchema
