import BindingSchema.Proofs.Annotation.Sites

/-!
What annotation reaches, and what it leaves as it was.

A node is found by the ways down to it, whatever they go through (`Node.follow?`). Annotation
follows the branch of each node only, so the nodes it reaches are those that are found at a site. Of
a node that is found below an annotated one, either it is at a site and was annotated, or no site is
there and nothing has been derived for it (`follow?_typed`). Where nothing is wrong, a reference of
an annotated node is resolved exactly if the type of the node comes from it (`isResolved_typed_iff`).
-/

namespace BindingSchema

/-! ## Any way down -/

namespace Node

def below? (n : Node) : Way → Option Node
  | .property index => n.properties[index]?.map (·.node)
  | .items => n.items
  | .mapValues => n.additionalProperties

def follow? (n : Node) : List Way → Option Node
  | [] => some n
  | way :: ways => (n.below? way).bind (follow? · ways)

theorem Bare.below {n m : Node} {way : Way} (h : n.Bare) (hm : n.below? way = some m) : m.Bare := by
  obtain ⟨_, hproperties, hitems, hvalues⟩ := bare_iff.mp h
  cases way with
  | property index =>
    obtain ⟨p, hp, rfl⟩ := Option.map_eq_some_iff.mp hm
    exact hproperties p (List.mem_of_getElem? hp)
  | items => exact hitems m hm
  | mapValues => exact hvalues m hm

theorem Bare.follow {ways : List Way} {n m : Node} (h : n.Bare) (hm : n.follow? ways = some m) : m.Bare := by
  induction ways generalizing n with
  | nil => cases hm; exact h
  | cons way ways ih =>
    obtain ⟨x, hx, hrest⟩ := Option.bind_eq_some_iff.mp hm
    exact ih (h.below hx) hrest

end Node

theorem Node.follow?_concat (n : Node) (ways : List Way) (way : Way) :
    n.follow? (ways ++ [way]) = (n.follow? ways).bind (·.below? way) := by
  induction ways generalizing n with
  | nil => simp [follow?]
  | cons w ways ih =>
    rw [List.cons_append, follow?, follow?, Option.bind_assoc]
    exact congrArg _ (funext fun m => ih m)

/-- What can be found is what there is. -/
theorem Node.mem_nodes_iff_follow? {x : Node} (n : Node) : x ∈ n.nodes ↔ ∃ ways, n.follow? ways = some x := by
  induction n using Node.induct with
  | h n ihProperties ihItems ihValues =>
    rw [mem_nodes]
    constructor
    · rintro (rfl | ⟨p, hp, hx⟩ | ⟨item, hi, hx⟩ | ⟨value, hv, hx⟩)
      · exact ⟨[], rfl⟩
      · obtain ⟨index, hindex⟩ := List.mem_iff_getElem?.mp hp
        obtain ⟨ways, hways⟩ := (ihProperties p hp).mp hx
        exact ⟨.property index :: ways, by simp [follow?, below?, hindex, hways]⟩
      · obtain ⟨ways, hways⟩ := (ihItems item hi).mp hx
        exact ⟨.items :: ways, by simp [follow?, below?, hi, hways]⟩
      · obtain ⟨ways, hways⟩ := (ihValues value hv).mp hx
        exact ⟨.mapValues :: ways, by simp [follow?, below?, hv, hways]⟩
    · rintro ⟨ways, hways⟩
      cases ways with
      | nil => cases hways; exact Or.inl rfl
      | cons way ways =>
        obtain ⟨y, hy, hx⟩ := Option.bind_eq_some_iff.mp hways
        cases way with
        | property index =>
          obtain ⟨p, hp, rfl⟩ := Option.map_eq_some_iff.mp hy
          have hmem := List.mem_of_getElem? hp
          exact Or.inr (Or.inl ⟨p, hmem, (ihProperties p hmem).mpr ⟨ways, hx⟩⟩)
        | items => exact Or.inr (Or.inr (Or.inl ⟨y, hy, (ihItems y hy).mpr ⟨ways, hx⟩⟩))
        | mapValues => exact Or.inr (Or.inr (Or.inr ⟨y, hy, (ihValues y hy).mpr ⟨ways, hx⟩⟩))

namespace Site

/-- A site below is found by the same way among the nodes. -/
theorem below?_node {s t : Site} {way : Way} (h : s.below? way = some t) : s.node.below? way = some t.node := by
  rcases below?_eq_some.mp h with ⟨index, ps, p, rfl, hb, hp, rfl⟩ | ⟨item, rfl, hb, rfl⟩ | ⟨value, rfl, hb, rfl⟩
  · simp [Node.below?, (Node.branch_eq_properties.mp hb).2, hp]
  · exact (Node.branch_eq_items.mp hb).2.2.2
  · exact (Node.branch_eq_mapValues.mp hb).2.2.2.2

/-- Items are reached only from a node whose type comes from them. -/
theorem branch_of_below?_items {s t : Site} {item : Node} (h : s.below? .items = some t)
    (hitem : s.node.items = some item) : s.node.branch = .items item := by
  rcases below?_eq_some.mp h with ⟨_, _, _, hway, _⟩ | ⟨item', _, hb, _⟩ | ⟨_, hway, _⟩
  · cases hway
  · cases (Node.branch_eq_items.mp hb).2.2.2.symm.trans hitem
    exact hb
  · cases hway

/-- So are map values. -/
theorem branch_of_below?_mapValues {s t : Site} {value : Node} (h : s.below? .mapValues = some t)
    (hvalue : s.node.additionalProperties = some value) : s.node.branch = .mapValues value := by
  rcases below?_eq_some.mp h with ⟨_, _, _, hway, _⟩ | ⟨_, hway, _⟩ | ⟨value', _, hb, _⟩
  · cases hway
  · cases hway
  · cases (Node.branch_eq_mapValues.mp hb).2.2.2.2.symm.trans hvalue
    exact hb

/-- Whatever a site has below it that is on its branch is a site. -/
theorem exists_below? {s : Site} {m : Node} {way : Way} (hm : s.node.below? way = some m)
    (hitems : ∀ item, s.node.items = some item → s.node.branch = .items item)
    (hvalues : ∀ value, s.node.additionalProperties = some value → s.node.branch = .mapValues value) :
    ∃ t, s.below? way = some t ∧ t.node = m := by
  cases way with
  | property index =>
    obtain ⟨p, hp, rfl⟩ := Option.map_eq_some_iff.mp hm
    have hb : s.node.branch = .properties s.node.properties :=
      Node.branch_eq_properties.mpr ⟨List.ne_nil_of_mem (List.mem_of_getElem? hp), rfl⟩
    exact ⟨⟨p.name, true, p.node⟩, by simp [below?, hb, hp], rfl⟩
  | items => exact ⟨⟨s.name, true, m⟩, by simp [below?, hitems m hm], rfl⟩
  | mapValues => exact ⟨⟨s.name, true, m⟩, by simp [below?, hvalues m hm], rfl⟩

theorem follow?_node {ways : List Way} {s t : Site} (h : s.follow? ways = some t) :
    s.node.follow? ways = some t.node := by
  induction ways generalizing s with
  | nil => cases h; rfl
  | cons way ways ih =>
    obtain ⟨u, hu, hrest⟩ := Option.bind_eq_some_iff.mp h
    rw [Node.follow?, below?_node hu]
    exact ih hrest

theorem follow?_append (s : Site) (ways below : List Way) :
    s.follow? (ways ++ below) = (s.follow? ways).bind (·.follow? below) := by
  induction ways generalizing s with
  | nil => rfl
  | cons w ways ih =>
    rw [List.cons_append, follow?, follow?, Option.bind_assoc]
    exact congrArg _ (funext fun t => ih t)

theorem isMember_of_follow? {ways : List Way} {s t : Site} (hways : ways ≠ []) (h : s.follow? ways = some t) :
    t.isMember = true := by
  induction ways generalizing s with
  | nil => exact absurd rfl hways
  | cons way ways ih =>
    obtain ⟨u, hu, hrest⟩ := Option.bind_eq_some_iff.mp h
    cases ways with
    | nil =>
      cases hrest
      rcases below?_eq_some.mp hu with ⟨_, _, _, _, _, _, rfl⟩ | ⟨_, _, _, rfl⟩ | ⟨_, _, _, rfl⟩ <;> rfl
    | cons way' ways => exact ih (List.cons_ne_nil _ _) hrest

end Site

namespace Interface

/-- The node at a place, whether annotation reaches it or not. -/
def node? (i : Interface) (root : Root) (ways : List Way) : Option Node :=
  (i.root? root).bind (·.node.follow? ways)

/-- Every node is at some place. -/
theorem exists_node? {i : Interface} {x : Node} (hx : x ∈ i.nodes) : ∃ root ways, i.node? root ways = some x := by
  obtain ⟨root, s, hroot, hx⟩ := exists_root hx
  obtain ⟨ways, hways⟩ := (Node.mem_nodes_iff_follow? s.node).mp hx
  exact ⟨root, ways, by rw [node?, hroot]; exact hways⟩

variable {i : Interface} {root : Root} {ways : List Way} {x : Node}

theorem node?_of_site? {s : Site} (h : i.site? root ways = some s) : i.node? root ways = some s.node := by
  obtain ⟨t, ht, hfollow⟩ := Option.bind_eq_some_iff.mp h
  rw [node?, ht]
  exact Site.follow?_node hfollow

theorem node?_concat (way : Way) : i.node? root (ways ++ [way]) = (i.node? root ways).bind (·.below? way) := by
  rw [node?, node?, Option.bind_assoc]
  exact congrArg _ (funext fun s => s.node.follow?_concat ways way)

theorem site?_append (ways below : List Way) :
    i.site? root (ways ++ below) = (i.site? root ways).bind (·.follow? below) := by
  rw [site?, site?, Option.bind_assoc]
  exact congrArg _ (funext fun s => s.follow?_append ways below)

theorem site?_concat (way : Way) : i.site? root (ways ++ [way]) = (i.site? root ways).bind (·.below? way) := by
  have hlast : ∀ s : Site, s.follow? [way] = s.below? way := fun s => Option.bind_fun_some _
  simp only [site?_append, hlast]

end Interface

namespace Annotation

variable {names : List String} {types : Nat → Option BindingType}

/-! ## Reached or left alone -/

/-- Annotation does not change what is off the branch of a node. -/
theorem below?_typed_of_off {s : Site} {way : Way} (h : s.below? way = none) :
    (typedSite names types s).node.below? way = s.node.below? way := by
  obtain ⟨name, isMember, n⟩ := s
  unfold Site.below? at h
  unfold typedSite
  cases hb : n.branch with
  | properties ps =>
    obtain ⟨_, rfl⟩ := Node.branch_eq_properties.mp hb
    rw [typed_properties hb]
    cases way with
    | property index =>
      simp only [hb, Option.map_eq_none_iff] at h
      simp [Node.below?, typedProperties, h]
    | _ => rfl
  | reference r =>
    cases hr : resolve names r.path with
    | error problem => rw [typed_missing hb hr]; cases way <;> rfl
    | ok target => rw [typed_reference hb hr]; cases way <;> rfl
  | enumeration values => rw [typed_enumeration hb]; cases way <;> rfl
  | items item =>
    rw [typed_items hb]
    cases way with
    | items => simp only [hb] at h; cases h
    | _ => rfl
  | mapValues value =>
    rw [typed_mapValues hb]
    cases way with
    | mapValues => simp only [hb] at h; cases h
    | _ => rfl
  | declared => rw [typed_declared hb]; cases way <;> rfl

/-- A node below an annotated one is at a site and was annotated, or nothing has been derived for it. -/
theorem follow?_typed {ways : List Way} {s : Site} {x : Node} (hs : s.node.Bare)
    (hx : (typedSite names types s).node.follow? ways = some x) :
    (∃ t, s.follow? ways = some t ∧ t.node.Bare ∧ x = (typedSite names types t).node) ∨
      (s.follow? ways = none ∧ x.Bare) := by
  induction ways generalizing s with
  | nil =>
    cases hx
    exact Or.inl ⟨s, rfl, hs, rfl⟩
  | cons way ways ih =>
    obtain ⟨y, hy, hx⟩ := Option.bind_eq_some_iff.mp hx
    rw [Site.follow?]
    cases hbelow : s.below? way with
    | none =>
      rw [below?_typed_of_off hbelow] at hy
      exact Or.inr ⟨rfl, (hs.below hy).follow hx⟩
    | some t =>
      have htyped : (typedSite names types s).below? way = some (typedSite names types t) := by
        rw [below?_typedSite, hbelow]
        rfl
      cases (Site.below?_node htyped).symm.trans hy
      exact ih (hs.below (Site.below?_node hbelow)) hx

/-- Where no reference is resolved beforehand, one is resolved only if the type of its node comes from it. -/
theorem isResolved_typed_iff {good : Nat → Prop} {name : String} {isMember : Bool} {n : Node} (hn : n.Bare)
    (hsupported : Supported names good n) {r : SchemaRef}
    (hr : (typed names types name isMember n).reference = some r) :
    r.isResolved = true ↔ (typed names types name isMember n).branch = .reference r := by
  refine ⟨fun h => ?_, isResolved_typed hsupported⟩
  obtain ⟨_, hbare⟩ := (Node.bare_iff.mp hn).1
  rcases reference_typed hr with hold | ⟨r', target, hb, hres, rfl⟩
  · simp [SchemaRef.isResolved, hbare r hold] at h
  · exact branch_typed_reference hb hres

end Annotation

end BindingSchema
