import BindingSchema.Proofs.Normalization.Types

/-!
Placeholders and circles.

Annotation hands out a placeholder exactly where the later search reports a circle, so a document
in which a placeholder was needed is turned down. An object without properties is nothing but a
placeholder: there is none in any type that a node means (`whole_of_means`), and so none in a
normal form (`placeholders_eq_cycles`).
-/

namespace BindingSchema

/-! ## Parts of a type -/

mutual

/-- A type and every type in it. -/
def BindingType.parts : BindingType → List BindingType
  | ⟨shape, nullable⟩ => ⟨shape, nullable⟩ :: Shape.parts shape

def Shape.parts : Shape → List BindingType
  | .object _ properties => BindingType.partsOfAll properties
  | .enumeration _ elementType _ => elementType.parts
  | .array elementType => elementType.parts
  | .map keyType valueType => keyType.parts ++ valueType.parts
  | .string | .boolean | .dateTime | .buffer | .integer _ | .float | .double | .freeForm => []

def BindingType.partsOfAll : List BindingType → List BindingType
  | [] => []
  | t :: ts => t.parts ++ BindingType.partsOfAll ts

end

namespace BindingType

theorem partsOfAll_eq (ts : List BindingType) : partsOfAll ts = ts.flatMap parts := by
  induction ts with
  | nil => rfl
  | cons t ts ih => rw [partsOfAll, ih, List.flatMap_cons]

theorem mem_partsOfAll {ts : List BindingType} {u : BindingType} : u ∈ partsOfAll ts ↔ ∃ t ∈ ts, u ∈ t.parts := by
  rw [partsOfAll_eq, List.mem_flatMap]

/-- No object in the type, at any depth, is without properties. -/
def Whole (t : BindingType) : Prop := ∀ u ∈ t.parts, ∀ name, u.shape ≠ .object name []

theorem whole_iff {t : BindingType} :
    t.Whole ↔ (∀ name, t.shape ≠ .object name []) ∧ ∀ u ∈ t.shape.parts, ∀ name, u.shape ≠ .object name [] := by
  obtain ⟨shape, nullable⟩ := t
  unfold Whole
  simp only [parts, List.forall_mem_cons]

theorem Whole.withNullable {t : BindingType} (h : t.Whole) (nullable : Bool) : (t.withNullable nullable).Whole := by
  obtain ⟨hshape, hparts⟩ := whole_iff.mp h
  exact whole_iff.mpr ⟨hshape, hparts⟩

theorem whole_of_leaf {t : BindingType} (hobject : ∀ name, t.shape ≠ .object name [])
    (h : t.shape.parts = []) : t.Whole := by
  refine whole_iff.mpr ⟨hobject, ?_⟩
  intro u hu
  rw [h] at hu
  cases hu

theorem whole_freeForm : freeForm.Whole := whole_of_leaf (fun _ => nofun) rfl

theorem whole_string : string.Whole := whole_of_leaf (fun _ => nofun) rfl

theorem whole_object {name : String} {ts : List BindingType} (hne : ts ≠ []) (h : ∀ t ∈ ts, t.Whole) :
    (object name ts).Whole := by
  refine whole_iff.mpr ⟨fun name' he => hne (by cases he; rfl), ?_⟩
  intro u hu
  obtain ⟨t, ht, hu⟩ := mem_partsOfAll.mp hu
  exact h t ht u hu

theorem whole_enumeration (name : String) (values : List String) : (enumeration name values).Whole := by
  refine whole_iff.mpr ⟨fun _ => nofun, ?_⟩
  intro u hu
  exact whole_string u hu

theorem whole_array {t : BindingType} (h : t.Whole) : (array t).Whole := by
  refine whole_iff.mpr ⟨fun _ => nofun, ?_⟩
  intro u hu
  exact h u hu

theorem whole_map {t : BindingType} (h : t.Whole) : (map t).Whole := by
  refine whole_iff.mpr ⟨fun _ => nofun, ?_⟩
  intro u hu
  rcases List.mem_append.mp hu with hu | hu
  · exact whole_string u hu
  · exact h u hu

end BindingType

namespace Annotation

open BindingType

/-- Nothing in a declared type has a name. -/
theorem nameless_declaredType {type : Option TypeName} {format : Option Format} {isMember : Bool} {t : BindingType}
    (h : declaredType type format isMember = some t) :
    t = .array .freeForm ∨ (t.name? = none ∧ t.shape.parts = []) := by
  unfold declaredType at h
  split at h
  · split at h <;> cases h <;> exact Or.inr ⟨rfl, rfl⟩
  · split at h <;> cases h <;> exact Or.inr ⟨rfl, rfl⟩
  · cases h; exact Or.inr ⟨rfl, rfl⟩
  · cases h; exact Or.inr ⟨rfl, rfl⟩
  · split at h <;> cases h <;> exact Or.inr ⟨rfl, rfl⟩
  · cases h; exact Or.inl rfl
  · cases h; exact Or.inr ⟨rfl, rfl⟩
  · cases h; exact Or.inr ⟨rfl, rfl⟩
  · cases h; exact Or.inr ⟨rfl, rfl⟩
  · split at h
    · cases h; exact Or.inr ⟨rfl, rfl⟩
    · cases h

theorem whole_declaredType {type : Option TypeName} {format : Option Format} {isMember : Bool} {t : BindingType}
    (h : declaredType type format isMember = some t) : t.Whole := by
  rcases nameless_declaredType h with rfl | ⟨hname, hparts⟩
  · exact whole_array whole_freeForm
  · refine whole_of_leaf (fun name hobject => ?_) hparts
    simp [name?, hobject] at hname

/-- What a node means is never a placeholder, nor is there one in it. -/
theorem whole_of_means {schemas : Keyed Schema} {name : String} {isMember : Bool} {n : Node}
    {t : Option BindingType} (h : Means schemas name isMember n t) : ∀ u, t = some u → u.Whole := by
  induction h with
  | @properties name isMember n ps types hb _ ih =>
    rintro u ⟨⟩
    refine Whole.withNullable (whole_object ?_ ?_) _
    · exact fun he => (Node.branch_eq_properties.mp hb).1 (List.map_eq_nil_iff.mp he)
    · intro t ht
      obtain ⟨p, hp, rfl⟩ := List.mem_map.mp ht
      exact ih p hp _ rfl
  | @reference name isMember n r target schema t _ _ _ _ ih =>
    rintro u ⟨⟩
    refine Whole.withNullable ?_ _
    cases t with
    | none => exact whole_freeForm
    | some t => exact ih t rfl
  | enumeration _ =>
    rintro u ⟨⟩
    exact (whole_enumeration _ _).withNullable _
  | items _ _ ih =>
    rintro u ⟨⟩
    exact (whole_array (ih _ rfl)).withNullable _
  | mapValues _ _ ih =>
    rintro u ⟨⟩
    exact (whole_map (ih _ rfl)).withNullable _
  | declared _ =>
    intro u hu
    obtain ⟨t, ht, rfl⟩ := Option.map_eq_some_iff.mp hu
    exact (whole_declaredType ht).withNullable _

end Annotation

namespace Normalization

open Annotation

variable {doc : FunctionDocument}

theorem whole_of_mem_nodes (h : (derive doc).diagnostics.errors = []) {x : Node}
    (hx : x ∈ (derive doc).interface.nodes) {t : BindingType} (ht : x.bindingType = some t) : t.Whole := by
  obtain ⟨root, s, hroot, hx⟩ := Interface.exists_root hx
  rw [root?_derive h] at hroot
  obtain ⟨raw, hraw, rfl⟩ := Option.map_eq_some_iff.mp hroot
  obtain ⟨hbare, hsupported⟩ := supported_root h hraw
  rcases mem_nodes_typed raw.node raw.name raw.isMember hbare hsupported x hx with
    ⟨hnone, _⟩ | ⟨name, isMember, node, _, hnode, rfl⟩
  · rw [hnone] at ht
    cases ht
  · exact whole_of_means (means_typed node name isMember hnode) t ht

/-- The references that were answered by a placeholder are those that close a circle, one for one
and in the same order. So a document for which there was any placeholder is turned down for a
circle, and in a document that is accepted no type of any node has an object without properties in
it, at any depth. -/
theorem placeholders_eq_cycles (doc : FunctionDocument) :
    (derive doc).placeholders = (ReferenceGraph.ofSchemas (derive doc).interface.schemas).cycles.map (·.place) ∧
      ((derive doc).placeholders ≠ [] → ∃ e, normalize (.functions doc) = .error e ∧ e.cycles ≠ []) ∧
      ∀ n, normalize (.functions doc) = .ok n → ∀ x ∈ n.interface.nodes, ∀ t, x.bindingType = some t →
        ∀ u ∈ t.parts, ∀ name, u.shape ≠ .object name [] := by
  have hplaces : (derive doc).placeholders =
      (ReferenceGraph.ofSchemas (derive doc).interface.schemas).cycles.map (·.place) := by
    rw [placeholders_derive, placeholders_last, ofSchemas_derive]
  refine ⟨hplaces, ?_, ?_⟩
  · intro hne
    obtain ⟨c, hc⟩ : ∃ c, c ∈ (ReferenceGraph.ofSchemas (derive doc).interface.schemas).cycles :=
      List.exists_mem_of_ne_nil _ fun hnil => hne (by rw [hplaces, hnil]; rfl)
    have hmem : c.diagnostic ∈ (derive doc).diagnostics.errors := by
      rw [errors_derive]
      exact List.mem_append_right _ (List.mem_map_of_mem hc)
    refine ⟨_, by rw [normalize_functions, if_neg (List.ne_nil_of_mem hmem)], ?_⟩
    exact List.ne_nil_of_mem (List.mem_filter.mpr ⟨hmem, rfl⟩)
  · intro n hn x hx t ht
    obtain ⟨herrors, hinterface⟩ := normalize_eq_ok doc hn
    exact whole_of_mem_nodes herrors (hinterface ▸ hx) ht

/-- Two schemas that refer to each other. -/
def mutualSchemas : FunctionDocument where
  version := "v1"
  schemas :=
    [("A", { reference := some "#/components/schemas/B" }),
      ("B", { items := some { reference := some "#/components/schemas/A" } })]

example : (derive mutualSchemas).placeholders = [⟨["components", "schemas", "B", "items", "$ref"]⟩] := by rfl

end Normalization

end BindingSchema
