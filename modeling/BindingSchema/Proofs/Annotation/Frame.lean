import BindingSchema.Proofs.Annotation.Reach

/-!
What annotation leaves as it was.

Of a node by itself annotation changes the type, the binding type and the target of the reference,
whatever the references are answered with (`keeps_annotate`), and the type as the branch of the node
says (`type_annotate`). The nodes of the sites below it are annotated in their places, and every other
node below it is the one that was there (`follow?_annotate`). So what stands at a place of an annotated
node is what stood there before, but for what is derived (`keeps_follow?`).
-/

namespace BindingSchema

/-- `x` by itself is `n`, but for what annotation derives. Of the properties only the names and flags
are looked at: what their nodes are is said at the places below. -/
structure Node.Keeps (n x : Node) : Prop where
  format : x.format = n.format
  description : x.description = n.description
  nullable : x.nullable = n.nullable
  enumValues : x.enumValues = n.enumValues
  path : x.reference.map (·.path) = n.reference.map (·.path)
  properties : x.properties.map (fun p => (p.name, p.required)) = n.properties.map fun p => (p.name, p.required)

theorem Node.Keeps.refl (n : Node) : n.Keeps n := ⟨rfl, rfl, rfl, rfl, rfl, rfl⟩

/-- The type of an annotated node, where `declared` is the one it was declared with. -/
def Branch.type (isResolved : Bool) (declared : Option TypeName) : Branch → Option TypeName
  | .properties _ => some .object
  | .reference _ => if isResolved then some .object else declared
  | .enumeration _ => some .enum
  | .items _ => some (declared.getD .array)
  | .mapValues _ => some .map
  | .declared => declared

namespace Annotation

/-- `x` is the node of the site as annotation leaves it, whatever its references are answered with. -/
def Becomes (names : List String) (s : Site) (x : Node) : Prop :=
  ∃ enter place t, x = (annotate names enter s.name s.isMember place s.node t).1

variable {names : List String} {enter : Enter}

/-! ## One node -/

theorem map_annotateProperties (place : Pointer) (ps : List Property) (t : State) :
    (annotateProperties names enter place ps t).1.map (fun p => (p.name, p.required)) =
      ps.map fun p => (p.name, p.required) := by
  induction ps generalizing t with
  | nil => rfl
  | cons p ps ih =>
    obtain ⟨name, required, node⟩ := p
    simp only [annotateProperties, List.map_cons, ih]

theorem keeps_annotate (n : Node) (name : String) (isMember : Bool) (place : Pointer) (t : State) :
    n.Keeps (annotate names enter name isMember place n t).1 := by
  cases hb : n.branch with
  | properties ps =>
    obtain ⟨_, rfl⟩ := Node.branch_eq_properties.mp hb
    rw [annotate_properties _ _ _ _ _ _ hb]
    exact ⟨rfl, rfl, rfl, rfl, rfl, map_annotateProperties _ _ _⟩
  | reference r =>
    cases hr : resolve names r.path with
    | error problem => rw [annotate_missing _ _ _ _ _ _ hb hr]; exact ⟨rfl, rfl, rfl, rfl, rfl, rfl⟩
    | ok target =>
      have hreference := (Node.branch_eq_reference.mp hb).2
      rw [annotate_reference _ _ _ _ _ _ hb hr]
      exact ⟨rfl, rfl, rfl, rfl, by rw [hreference]; rfl, rfl⟩
  | enumeration values => rw [annotate_enumeration _ _ _ _ _ _ hb]; exact ⟨rfl, rfl, rfl, rfl, rfl, rfl⟩
  | items item => rw [annotate_items _ _ _ _ _ _ hb]; exact ⟨rfl, rfl, rfl, rfl, rfl, rfl⟩
  | mapValues value => rw [annotate_mapValues _ _ _ _ _ _ hb]; exact ⟨rfl, rfl, rfl, rfl, rfl, rfl⟩
  | declared => rw [annotate_declared _ _ _ _ _ _ hb]; exact ⟨rfl, rfl, rfl, rfl, rfl, rfl⟩

/-- The type changes only as the branch says. No reference of `n` is resolved beforehand. -/
theorem type_annotate {n : Node} (hn : n.Bare) (name : String) (isMember : Bool) (place : Pointer) (t : State) :
    (annotate names enter name isMember place n t).1.type =
      n.branch.type ((annotate names enter name isMember place n t).1.reference.any (·.isResolved)) n.type := by
  cases hb : n.branch with
  | properties ps => rw [annotate_properties _ _ _ _ _ _ hb]; rfl
  | reference r =>
    have hreference := (Node.branch_eq_reference.mp hb).2
    cases hr : resolve names r.path with
    | error problem =>
      have htarget : r.target = none := (Node.bare_iff.mp hn).1.2 r hreference
      rw [annotate_missing _ _ _ _ _ _ hb hr]
      simp [Branch.type, hreference, SchemaRef.isResolved, htarget]
    | ok target =>
      rw [annotate_reference _ _ _ _ _ _ hb hr]
      rfl
  | enumeration values => rw [annotate_enumeration _ _ _ _ _ _ hb]; rfl
  | items item => rw [annotate_items _ _ _ _ _ _ hb]; rfl
  | mapValues value => rw [annotate_mapValues _ _ _ _ _ _ hb]; rfl
  | declared => rw [annotate_declared _ _ _ _ _ _ hb]; rfl

/-! ## The nodes below -/

theorem getElem?_annotateProperties (place : Pointer) (ps : List Property) (t : State) (index : Nat) :
    match ps[index]? with
    | some p => ∃ q, (annotateProperties names enter place ps t).1[index]? = some q ∧
        Becomes names ⟨p.name, true, p.node⟩ q.node
    | none => (annotateProperties names enter place ps t).1[index]? = none := by
  induction ps generalizing t index with
  | nil => rfl
  | cons p ps ih =>
    obtain ⟨name, required, node⟩ := p
    cases index with
    | zero => exact ⟨_, rfl, enter, _, _, rfl⟩
    | succ index => exact ih _ index

/-- A site right below is annotated in its place; off the branch everything is left alone. -/
theorem below?_annotate {s : Site} {x : Node} (h : Becomes names s x) (way : Way) :
    match s.below? way with
    | some t => ∃ y, x.below? way = some y ∧ Becomes names t y
    | none => x.below? way = s.node.below? way := by
  obtain ⟨name, isMember, n⟩ := s
  obtain ⟨enter, place, state, rfl⟩ := h
  unfold Site.below?
  cases hb : n.branch with
  | properties ps =>
    obtain ⟨_, rfl⟩ := Node.branch_eq_properties.mp hb
    rw [annotate_properties _ _ _ _ _ _ hb]
    cases way with
    | property index =>
      have hget := @getElem?_annotateProperties names enter (place.push "properties")
        n.properties state index
      cases hp : n.properties[index]? with
      | none =>
        rw [hp] at hget
        simp [Node.below?, hget, hp]
      | some p =>
        rw [hp] at hget
        obtain ⟨q, hq, hbecomes⟩ := hget
        simp only [hp, Option.map_some]
        exact ⟨q.node, by simp [Node.below?, hq], hbecomes⟩
    | items => rfl
    | mapValues => rfl
  | reference r =>
    cases hr : resolve names r.path with
    | error problem => rw [annotate_missing _ _ _ _ _ _ hb hr]; cases way <;> rfl
    | ok target => rw [annotate_reference _ _ _ _ _ _ hb hr]; cases way <;> rfl
  | enumeration values => rw [annotate_enumeration _ _ _ _ _ _ hb]; cases way <;> rfl
  | items item =>
    rw [annotate_items _ _ _ _ _ _ hb]
    cases way with
    | items => exact ⟨_, rfl, enter, _, _, rfl⟩
    | _ => rfl
  | mapValues value =>
    rw [annotate_mapValues _ _ _ _ _ _ hb]
    cases way with
    | mapValues => exact ⟨_, rfl, enter, _, _, rfl⟩
    | _ => rfl
  | declared => rw [annotate_declared _ _ _ _ _ _ hb]; cases way <;> rfl

theorem follow?_annotate {s : Site} {x : Node} (h : Becomes names s x) (ways : List Way) :
    match s.follow? ways with
    | some t => ∃ y, x.follow? ways = some y ∧ Becomes names t y
    | none => x.follow? ways = s.node.follow? ways := by
  induction ways generalizing s x with
  | nil => exact ⟨x, rfl, h⟩
  | cons way ways ih =>
    have hbelow := below?_annotate h way
    cases ht : s.below? way with
    | none =>
      rw [ht] at hbelow
      simp only [Site.follow?, Node.follow?, ht, Option.bind_none, hbelow]
    | some t =>
      rw [ht] at hbelow
      obtain ⟨y, hy, hbecomes⟩ := hbelow
      have hnode := Site.below?_node ht
      simp only [Site.follow?, Node.follow?, ht, hy, hnode, Option.bind_some]
      exact ih hbecomes

/-- What stands at a place below an annotated node is what stood there before, but for what is
derived. The type is the declared one where annotation does not come to. -/
theorem keeps_follow? {s : Site} {x : Node} (hs : s.node.Bare) (h : Becomes names s x) (ways : List Way) :
    Option.Rel (fun m y => m.Keeps y ∧ y.type =
        if (s.follow? ways).isSome then m.branch.type (y.reference.any (·.isResolved)) m.type else m.type)
      (s.node.follow? ways) (x.follow? ways) := by
  have hfollow := follow?_annotate h ways
  cases ht : s.follow? ways with
  | none =>
    rw [ht] at hfollow
    rw [hfollow]
    cases s.node.follow? ways with
    | none => exact .none
    | some m => exact .some ⟨.refl m, rfl⟩
  | some t =>
    rw [ht] at hfollow
    obtain ⟨y, hy, enter, place, state, rfl⟩ := hfollow
    have hnode := Site.follow?_node ht
    rw [hnode, hy]
    exact .some ⟨keeps_annotate _ _ _ _ _, type_annotate (hs.follow hnode) _ _ _ _⟩

end Annotation

end BindingSchema
