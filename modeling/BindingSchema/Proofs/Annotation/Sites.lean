import BindingSchema.Proofs.Annotation.Meaning

/-!
The nodes that annotation reaches.

A site is a node with what annotation is told about it. Annotation starts at the schemas, inputs
and outputs, and goes down the branch of each node it comes to: a site is found from where it
starts by a list of ways down. Where no placeholder is handed out, what annotation makes of the functions
is given by the types of the schemas (`annotateFunctions_typed`), and the sites of an annotated
node are the annotated sites (`follow?_typedSite`).
-/

namespace BindingSchema

/-- A node, what its type is called, and whether it is a member of another node. -/
structure Site where
  name : String
  isMember : Bool
  node : Node

namespace Site

/-- The site right below, if the way follows the node's branch. -/
def below? (s : Site) (way : Way) : Option Site :=
  match s.node.branch, way with
  | .properties ps, .property index => ps[index]?.map fun p => ⟨p.name, true, p.node⟩
  | .items item, .items => some ⟨s.name, true, item⟩
  | .mapValues value, .mapValues => some ⟨s.name, true, value⟩
  | _, _ => none

def follow? (s : Site) : List Way → Option Site
  | [] => some s
  | way :: ways => (s.below? way).bind (follow? · ways)

/-- What is right below a site is on the branch of its node. -/
theorem below?_eq_some {s t : Site} {way : Way} :
    s.below? way = some t ↔
      (∃ index ps p, way = .property index ∧ s.node.branch = .properties ps ∧ ps[index]? = some p ∧
        t = ⟨p.name, true, p.node⟩) ∨
      (∃ item, way = .items ∧ s.node.branch = .items item ∧ t = ⟨s.name, true, item⟩) ∨
      ∃ value, way = .mapValues ∧ s.node.branch = .mapValues value ∧ t = ⟨s.name, true, value⟩ := by
  unfold below?
  constructor
  · intro h
    split at h
    · rename_i ps index hb
      obtain ⟨p, hp, rfl⟩ := Option.map_eq_some_iff.mp h
      exact Or.inl ⟨index, ps, p, rfl, hb, hp, rfl⟩
    · rename_i item hb
      cases h
      exact Or.inr (Or.inl ⟨item, rfl, hb, rfl⟩)
    · rename_i value hb
      cases h
      exact Or.inr (Or.inr ⟨value, rfl, hb, rfl⟩)
    · cases h
  · rintro (⟨index, ps, p, rfl, hb, hp, rfl⟩ | ⟨item, rfl, hb, rfl⟩ | ⟨value, rfl, hb, rfl⟩)
    · simp [hb, hp]
    · simp [hb]
    · simp [hb]

end Site

namespace Interface

def functions (i : Interface) : Side → List Function
  | .exported => i.exports
  | .imported => i.imports

def root? (i : Interface) : Root → Option Site
  | .schema index => i.schemas[index]?.map fun (name, s) => ⟨name, false, s.node⟩
  | .parameter side index slot =>
    (i.functions side)[index]?.bind fun f => (f.parameter? slot).map fun p => ⟨f.name, false, p.node⟩

/-- The node at a place that annotation reaches. -/
def site? (i : Interface) (root : Root) (ways : List Way) : Option Site := (i.root? root).bind (·.follow? ways)

/-- Every node is below one of the places where annotation starts. -/
theorem exists_root {i : Interface} {x : Node} (hx : x ∈ i.nodes) :
    ∃ root s, i.root? root = some s ∧ x ∈ s.node.nodes := by
  have hfunction : ∀ side, ∀ f ∈ i.functions side, x ∈ functionNodes f →
      ∃ root s, i.root? root = some s ∧ x ∈ s.node.nodes := by
    intro side f hf hx
    obtain ⟨index, hindex⟩ := List.mem_iff_getElem?.mp hf
    have hslot : ∀ slot p, f.parameter? slot = some p →
        i.root? (.parameter side index slot) = some ⟨f.name, false, p.node⟩ := by
      intro slot p hp
      simp [root?, hindex, hp]
    simp only [functionNodes, List.mem_append, List.mem_flatMap, Option.mem_toList] at hx
    rcases hx with ⟨p, hp, hx⟩ | ⟨p, hp, hx⟩
    · exact ⟨_, _, hslot .input p hp, hx⟩
    · exact ⟨_, _, hslot .output p hp, hx⟩
  simp only [nodes, List.mem_append, List.mem_flatMap] at hx
  rcases hx with (⟨⟨name, s⟩, hs, hx⟩ | ⟨f, hf, hx⟩) | ⟨f, hf, hx⟩
  · obtain ⟨index, hindex⟩ := List.mem_iff_getElem?.mp hs
    exact ⟨.schema index, _, by rw [root?, hindex]; rfl, hx⟩
  · exact hfunction .exported f hf hx
  · exact hfunction .imported f hf hx

end Interface

namespace Annotation

/-! ## Annotated sites -/

variable (names : List String) (types : Nat → Option BindingType)

def typedSite (s : Site) : Site := { s with node := typed names types s.name s.isMember s.node }

def typedParameter (name : String) (p : Parameter) : Parameter :=
  { p with node := typed names types name false p.node }

def typedFunction (f : Function) : Function :=
  { f with
    input := f.input.map (typedParameter names types f.name)
    output := f.output.map (typedParameter names types f.name) }

theorem below?_typedSite (s : Site) (way : Way) :
    (typedSite names types s).below? way = (s.below? way).map (typedSite names types) := by
  obtain ⟨name, isMember, n⟩ := s
  unfold typedSite Site.below?
  cases hb : n.branch with
  | properties ps =>
    rw [branch_typed_properties hb]
    cases way with
    | property index =>
      simp only [typedProperties, List.getElem?_map, Option.map_map]
      rfl
    | _ => rfl
  | reference r =>
    cases hr : resolve names r.path with
    | error problem => rw [branch_typed_missing hb hr]; rfl
    | ok target => rw [branch_typed_reference hb hr]; rfl
  | enumeration values => rw [branch_typed_enumeration hb]; rfl
  | items item => rw [branch_typed_items hb]; cases way <;> rfl
  | mapValues value => rw [branch_typed_mapValues hb]; cases way <;> rfl
  | declared => rw [branch_typed_declared hb]; rfl

theorem follow?_typedSite (s : Site) (ways : List Way) :
    (typedSite names types s).follow? ways = (s.follow? ways).map (typedSite names types) := by
  induction ways generalizing s with
  | nil => rfl
  | cons way ways ih =>
    rw [Site.follow?, Site.follow?, below?_typedSite]
    cases s.below? way with
    | none => rfl
    | some t => exact ih t

variable {names types}

theorem Supported.below {good : Nat → Prop} {s t : Site} {way : Way} (h : Supported names good s.node)
    (hbelow : s.below? way = some t) : Supported names good t.node := by
  rcases Site.below?_eq_some.mp hbelow with ⟨_, ps, p, _, hb, hp, rfl⟩ | ⟨item, _, hb, rfl⟩ | ⟨value, _, hb, rfl⟩
  · exact h.properties hb (List.mem_of_getElem? hp)
  · exact h.items hb
  · exact h.mapValues hb

theorem Supported.follow {good : Nat → Prop} {s t : Site} {ways : List Way} (h : Supported names good s.node)
    (hfollow : s.follow? ways = some t) : Supported names good t.node := by
  induction ways generalizing s with
  | nil => cases hfollow; exact h
  | cons way ways ih =>
    obtain ⟨u, hbelow, hrest⟩ := Option.bind_eq_some_iff.mp hfollow
    exact ih (h.below hbelow) hrest

/-- Annotation of a node leaves bare what is off its way, and what is on it is annotated. -/
theorem mem_nodes_typed {good : Nat → Prop} (n : Node) : ∀ (name : String) (isMember : Bool), n.Bare →
    Supported names good n → ∀ x ∈ (typed names types name isMember n).nodes,
      (x.bindingType = none ∧ ∀ r, x.reference = some r → r.target = none) ∨
        ∃ name isMember raw, raw.Bare ∧ Supported names good raw ∧ x = typed names types name isMember raw := by
  induction n using Node.induct with
  | h n ihProperties ihItems ihValues =>
    intro name isMember hn hsupported x hx
    obtain ⟨_, hps, hitems, hvalues⟩ := Node.bare_iff.mp hn
    rcases Node.mem_nodes.mp hx with rfl | hx
    · exact Or.inr ⟨name, isMember, n, hn, hsupported, rfl⟩
    have hoff : (∃ p ∈ n.properties, x ∈ p.node.nodes) ∨ (∃ item, n.items = some item ∧ x ∈ item.nodes) ∨
        (∃ value, n.additionalProperties = some value ∧ x ∈ value.nodes) →
        x.bindingType = none ∧ ∀ r, x.reference = some r → r.target = none := by
      rintro (⟨p, hp, hx⟩ | ⟨item, hi, hx⟩ | ⟨value, hv, hx⟩)
      · exact hps p hp x hx
      · exact hitems item hi x hx
      · exact hvalues value hv x hx
    cases hb : n.branch with
    | properties ps =>
      have heq := (Node.branch_eq_properties.mp hb).2
      rw [typed_properties hb] at hx
      rcases hx with ⟨q, hq, hx⟩ | hx
      · obtain ⟨p, hp, rfl⟩ := List.mem_map.mp hq
        exact ihProperties p (heq ▸ hp) p.name true (hps p (heq ▸ hp)) (hsupported.properties hb hp) x hx
      · exact Or.inl (hoff (Or.inr hx))
    | reference r =>
      obtain ⟨target, hr, _⟩ := hsupported.reference hb
      rw [typed_reference hb hr] at hx
      exact Or.inl (hoff hx)
    | enumeration values =>
      rw [typed_enumeration hb] at hx
      exact Or.inl (hoff hx)
    | items item =>
      have hi := (Node.branch_eq_items.mp hb).2.2.2
      rw [typed_items hb] at hx
      rcases hx with hx | ⟨_, ⟨⟩, hx⟩ | hx
      · exact Or.inl (hoff (Or.inl hx))
      · exact ihItems item hi name true (hitems item hi) (hsupported.items hb) x hx
      · exact Or.inl (hoff (Or.inr (Or.inr hx)))
    | mapValues value =>
      have hv := (Node.branch_eq_mapValues.mp hb).2.2.2.2
      rw [typed_mapValues hb] at hx
      rcases hx with hx | hx | ⟨_, ⟨⟩, hx⟩
      · exact Or.inl (hoff (Or.inl hx))
      · exact Or.inl (hoff (Or.inr (Or.inl hx)))
      · exact ihValues value hv name true (hvalues value hv) (hsupported.mapValues hb) x hx
    | declared =>
      rw [typed_declared hb] at hx
      exact Or.inl (hoff hx)

/-- Annotation leaves the reference of a node as it was, or resolves it as what its type comes from. -/
theorem reference_typed {name : String} {isMember : Bool} {n : Node} {r : SchemaRef}
    (hr : (typed names types name isMember n).reference = some r) :
    n.reference = some r ∨ ∃ r' target, n.branch = .reference r' ∧ resolve names r'.path = .ok target ∧
      r = { r' with target := some target } := by
  cases hb : n.branch with
  | reference r' =>
    cases hres : resolve names r'.path with
    | error problem => rw [typed_missing hb hres] at hr; exact Or.inl hr
    | ok target =>
      rw [typed_reference hb hres] at hr
      exact Or.inr ⟨r', target, rfl, hres, (Option.some.inj hr).symm⟩
  | properties ps => rw [typed_properties hb] at hr; exact Or.inl hr
  | enumeration values => rw [typed_enumeration hb] at hr; exact Or.inl hr
  | items item => rw [typed_items hb] at hr; exact Or.inl hr
  | mapValues value => rw [typed_mapValues hb] at hr; exact Or.inl hr
  | declared => rw [typed_declared hb] at hr; exact Or.inl hr

/-- A reference is resolved where annotation goes, and to the schema that it names. -/
theorem resolve_of_typed {name : String} {isMember : Bool} {n : Node} (hn : n.Bare) {r : SchemaRef} {target : Nat}
    (hr : (typed names types name isMember n).reference = some r) (htarget : r.target = some target) :
    resolve names r.path = .ok target := by
  obtain ⟨_, hbare⟩ := (Node.bare_iff.mp hn).1
  rcases reference_typed hr with hold | ⟨r', target', _, hres, rfl⟩
  · rw [hbare r hold] at htarget
    cases htarget
  · cases htarget
    exact hres

/-! ## Functions -/

/-- Annotating the node finds nothing that is not in `errors`. -/
def Reported (names : List String) (errors : List Diagnostic) (n : Node) : Prop :=
  ∃ place, ∀ st ∈ steps names place n, st.errors ⊆ errors

variable {schemas : Keyed Schema} {final s : State}

theorem annotateParameter_typed (hclean : final.placeholders = []) (hlen : s.progress.length = schemas.length)
    {place : Pointer} {name : String} {p : Option Parameter}
    (hlater : Later (annotateParameter schemas place name p s).2 final) :
    (annotateParameter schemas place name p s).1 = p.map (typedParameter (Keyed.keys schemas) final.types name) ∧
      ∀ q, p = some q → Reported (Keyed.keys schemas) final.errors q.node := by
  cases p with
  | none => exact ⟨rfl, fun q hq => by cases hq⟩
  | some p =>
    have hnode : (annotate (Keyed.keys schemas) (enterFrom schemas) name false place p.node s).1 =
        typed (Keyed.keys schemas) final.types name false p.node :=
      annotate_eq_typed (serves_enterSchema hclean (schemas.length + 1)) ⟨pending_lt hlen, hlen⟩ hlater
    constructor
    · show some { p with node := _ } = _
      rw [hnode]
      rfl
    · rintro q ⟨⟩
      refine ⟨place, fun st hst => List.Subset.trans ?_ hlater.errors⟩
      exact errors_subset (fun target place s => (advances_enterSchema schemas _ target place s).1.toLater)
        p.node name false place s hst

/-- Every input and output is annotated with the types of the schemas. -/
theorem annotateFunctions_typed (hclean : final.placeholders = []) (kind : String) (fs : List Function)
    (hlen : s.progress.length = schemas.length) (hlater : Later (annotateFunctions schemas kind fs s).2 final) :
    (annotateFunctions schemas kind fs s).1 = fs.map (typedFunction (Keyed.keys schemas) final.types) ∧
      ∀ f ∈ fs, ∀ slot q, f.parameter? slot = some q →
        Reported (Keyed.keys schemas) final.errors q.node := by
  induction fs generalizing s with
  | nil => exact ⟨rfl, fun f hf => by cases hf⟩
  | cons f fs ih =>
    have hparameter : ∀ place name p s, Later s (annotateParameter schemas place name p s).2 :=
      annotateParameter_preserves Later.refl fun n name place s =>
        (advances_annotate (advances_enterSchema schemas _) n name false place s).1.toLater
    have hinput := hparameter (Pointer.push ⟨[kind, f.name]⟩ "input") f.name f.input s
    have houtput := hparameter (Pointer.push ⟨[kind, f.name]⟩ "output") f.name f.output
      (annotateParameter schemas (Pointer.push ⟨[kind, f.name]⟩ "input") f.name f.input s).2
    have hrest := later_annotateFunctions schemas kind fs
      (annotateParameter schemas (Pointer.push ⟨[kind, f.name]⟩ "output") f.name f.output
        (annotateParameter schemas (Pointer.push ⟨[kind, f.name]⟩ "input") f.name f.input s).2).2
    obtain ⟨hin, hinReported⟩ := annotateParameter_typed hclean hlen (houtput.trans (hrest.trans hlater))
    obtain ⟨hout, houtReported⟩ := annotateParameter_typed hclean (hinput.length.trans hlen) (hrest.trans hlater)
    obtain ⟨hfs, hfsReported⟩ := ih (houtput.length.trans (hinput.length.trans hlen)) hlater
    constructor
    · simp only [annotateFunctions, annotateFunction]
      rw [hin, hout, hfs]
      rfl
    · intro g hg
      rcases List.mem_cons.mp hg with rfl | hg
      · intro slot q hq
        cases slot with
        | input => exact hinReported q hq
        | output => exact houtReported q hq
      · exact hfsReported g hg

end Annotation

end BindingSchema
