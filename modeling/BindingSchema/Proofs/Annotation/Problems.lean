import BindingSchema.Proofs.Annotation.Sites

/-!
Where annotation finds nothing wrong.

What is wrong with a node is wrong with one of the sites below it, by itself: its reference names no
schema, or its enum lists something that is no identifier (`Site.Plain`, `steps_iff_plain`). Where
all sites are plain, errors are reported nowhere: entering a schema reports none, however deep
(`errors_enterSchema`), and neither do the functions (`errors_annotateFunctions`).
-/

namespace BindingSchema

namespace Site

/-- The type of the site can be taken from its reference or its enum, if it comes from either. -/
structure Plain (names : List String) (s : Site) : Prop where
  reference : ∀ r, s.node.branch = .reference r → ∃ target, Annotation.resolve names r.path = .ok target
  enumeration : ∀ values, s.node.branch = .enumeration values →
    ∀ v ∈ values, ∃ name, v = .string name ∧ Identifier.isValid name = true

theorem Plain.of_branch {names : List String} {s : Site} {b : Branch} (hb : s.node.branch = b)
    (hreference : ∀ r, b ≠ .reference r) (henumeration : ∀ values, b ≠ .enumeration values) : s.Plain names :=
  ⟨fun r hr => absurd (hb.symm.trans hr) (hreference r), fun vs hvs => absurd (hb.symm.trans hvs) (henumeration vs)⟩

theorem plain_of_reference {names : List String} {s : Site} {r : SchemaRef} (hb : s.node.branch = .reference r) :
    s.Plain names ↔ ∃ target, Annotation.resolve names r.path = .ok target := by
  refine ⟨fun h => h.reference r hb, fun h => ⟨fun r' hr' => ?_, fun vs hvs => nomatch hb.symm.trans hvs⟩⟩
  cases hb.symm.trans hr'
  exact h

theorem plain_of_enumeration {names : List String} {s : Site} {values : List Value}
    (hb : s.node.branch = .enumeration values) :
    s.Plain names ↔ ∀ v ∈ values, ∃ name, v = .string name ∧ Identifier.isValid name = true := by
  refine ⟨fun h => h.enumeration values hb, fun h => ⟨fun r hr => (nomatch hb.symm.trans hr), fun vs hvs => ?_⟩⟩
  cases hb.symm.trans hvs
  exact h

/-! ## All sites below a site -/

section

variable {P : Site → Prop} {s : Site}

theorem forall_follow?_iff :
    (∀ ways t, s.follow? ways = some t → P t) ↔
      P s ∧ ∀ way u, s.below? way = some u → ∀ ways t, u.follow? ways = some t → P t := by
  constructor
  · intro h
    refine ⟨h [] s rfl, fun way u hu ways t ht => h (way :: ways) t ?_⟩
    rw [follow?, hu]
    exact ht
  · rintro ⟨hs, hbelow⟩ ways t ht
    cases ways with
    | nil => cases ht; exact hs
    | cons way ways =>
      obtain ⟨u, hu, ht⟩ := Option.bind_eq_some_iff.mp ht
      exact hbelow way u hu ways t ht

theorem forall_follow?_of_properties {ps : List Property} (hb : s.node.branch = .properties ps) :
    (∀ ways t, s.follow? ways = some t → P t) ↔
      P s ∧ ∀ p ∈ ps, ∀ ways t, follow? ⟨p.name, true, p.node⟩ ways = some t → P t := by
  rw [forall_follow?_iff]
  refine and_congr_right fun _ => ⟨fun h p hp => ?_, fun h way u hu => ?_⟩
  · obtain ⟨index, hindex⟩ := List.mem_iff_getElem?.mp hp
    exact h _ _ (below?_eq_some.mpr (Or.inl ⟨index, ps, p, rfl, hb, hindex, rfl⟩))
  · simp only [below?_eq_some, hb, Branch.properties.injEq, reduceCtorEq, false_and, and_false, exists_false,
      or_false] at hu
    obtain ⟨index, _, p, rfl, rfl, hp, rfl⟩ := hu
    exact h p (List.mem_of_getElem? hp)

theorem forall_follow?_of_items {item : Node} (hb : s.node.branch = .items item) :
    (∀ ways t, s.follow? ways = some t → P t) ↔
      P s ∧ ∀ ways t, follow? ⟨s.name, true, item⟩ ways = some t → P t := by
  rw [forall_follow?_iff]
  simp [below?_eq_some, hb]

theorem forall_follow?_of_mapValues {value : Node} (hb : s.node.branch = .mapValues value) :
    (∀ ways t, s.follow? ways = some t → P t) ↔
      P s ∧ ∀ ways t, follow? ⟨s.name, true, value⟩ ways = some t → P t := by
  rw [forall_follow?_iff]
  simp [below?_eq_some, hb]

/-- There is nothing below what has neither properties, items nor map values to take its type from. -/
theorem forall_follow?_of_leaf {b : Branch} (hb : s.node.branch = b) (hproperties : ∀ ps, b ≠ .properties ps)
    (hitems : ∀ item, b ≠ .items item) (hvalues : ∀ value, b ≠ .mapValues value) :
    (∀ ways t, s.follow? ways = some t → P t) ↔ P s := by
  rw [forall_follow?_iff]
  simp [below?_eq_some, hb, hproperties, hitems, hvalues]

end

end Site

namespace Annotation

theorem enumProblems_eq_nil {place : Pointer} {values : List Value} :
    enumProblems place values = [] ↔ ∀ v ∈ values, ∃ name, v = .string name ∧ Identifier.isValid name = true := by
  rw [enumProblems, List.flatMap_eq_nil_iff]
  refine forall₂_congr fun v _ => ?_
  cases v with
  | string name => by_cases h : Identifier.isValid name = true <;> simp [h]
  | _ => simp

/-- A node reports nothing if the sites below it are plain, wherever it stands. -/
theorem steps_iff_plain {names : List String} (n : Node) : ∀ (name : String) (isMember : Bool) (place : Pointer),
    (∀ st ∈ steps names place n, st.errors = []) ↔
      ∀ ways t, Site.follow? ⟨name, isMember, n⟩ ways = some t → t.Plain names := by
  induction n using Node.induct with
  | h n ihProperties ihItems ihValues =>
    intro name isMember place
    cases hb : n.branch with
    | properties ps =>
      have hps := (Node.branch_eq_properties.mp hb).2
      rw [steps_properties hb, Site.forall_follow?_of_properties hb, and_iff_right (.of_branch hb nofun nofun)]
      constructor
      · exact fun h p hp => (ihProperties p (hps ▸ hp) p.name true _).mp fun st hst =>
          h st (mem_stepsOfProperties.mpr ⟨p, hp, hst⟩)
      · intro h st hst
        obtain ⟨p, hp, hst⟩ := mem_stepsOfProperties.mp hst
        exact (ihProperties p (hps ▸ hp) p.name true _).mpr (h p hp) st hst
    | reference r =>
      rw [Site.forall_follow?_of_leaf (s := ⟨name, isMember, n⟩) hb nofun nofun nofun, Site.plain_of_reference hb]
      cases hr : resolve names r.path with
      | error problem => simp [steps_missing hb hr, Step.errors]
      | ok target => simp [steps_reference hb hr, Step.errors]
    | enumeration values =>
      have hstep : (∀ st ∈ [Step.report (enumProblems place values)], st.errors = []) ↔
          enumProblems place values = [] := by simp [Step.errors]
      rw [Site.forall_follow?_of_leaf (s := ⟨name, isMember, n⟩) hb nofun nofun nofun,
        Site.plain_of_enumeration hb, steps_enumeration hb, hstep, enumProblems_eq_nil]
    | items item =>
      rw [steps_items hb, Site.forall_follow?_of_items hb, and_iff_right (.of_branch hb nofun nofun)]
      exact ihItems item (Node.branch_eq_items.mp hb).2.2.2 name true _
    | mapValues value =>
      rw [steps_mapValues hb, Site.forall_follow?_of_mapValues hb, and_iff_right (.of_branch hb nofun nofun)]
      exact ihValues value (Node.branch_eq_mapValues.mp hb).2.2.2.2 name true _
    | declared =>
      rw [steps_declared hb, Site.forall_follow?_of_leaf (s := ⟨name, isMember, n⟩) hb nofun nofun nofun]
      exact ⟨fun _ => .of_branch hb nofun nofun, fun _ _ hst => nomatch hst⟩

/-! ## Runs without errors -/

theorem errors_annotate {names : List String} {enter : Enter}
    (henter : ∀ target place s, s.errors = [] → (enter target place s).2.errors = []) {n : Node} {name : String}
    {isMember : Bool} {place : Pointer} (hn : ∀ st ∈ steps names place n, st.errors = []) {s : State}
    (hs : s.errors = []) : (annotate names enter name isMember place n s).2.errors = [] := by
  rw [annotate_state]
  refine foldl_take (P := fun s t => s.errors = [] → t.errors = []) (fun _ => id)
    (fun _ _ _ h h' hs => h' (h hs)) (fun st hst s hs => ?_) s hs
  cases st with
  | enter edge => exact henter edge.target edge.place s hs
  | report errors => simp [State.take, State.report, hs, show errors = [] from hn _ hst]

variable {schemas : Keyed Schema}

section

variable (hclean : ∀ (i : Nat) (name : String) (schema : Schema), schemas[i]? = some (name, schema) →
  ∀ place, ∀ st ∈ steps (Keyed.keys schemas) place schema.node, st.errors = [])

include hclean

theorem errors_enterSchema (depth : Nat) : ∀ (target : Nat) (place : Pointer) (s : State), s.errors = [] →
    (enterSchema schemas depth target place s).2.errors = [] := by
  induction depth with
  | zero => exact fun _ _ _ hs => hs
  | succ depth ih =>
    intro target place s hs
    rcases hp : s.progress[target]? with _ | p
    · simpa [enterSchema, hp] using hs
    rcases hschema : schemas[target]? with _ | ⟨name, schema⟩
    · cases p <;> simpa [enterSchema, hp, hschema] using hs
    cases p with
    | done node => rw [enterSchema_done hp]; exact hs
    | inProgress => rw [enterSchema_inProgress hp hschema]; exact hs
    | pending =>
      rw [enterSchema_pending hp hschema]
      exact errors_annotate (s := s.set target .inProgress) ih (hclean target name schema hschema _) hs

theorem errors_annotateSchemas : (annotateSchemas schemas).errors = [] := by
  suffices ∀ (targets : List Nat) (s : State), s.errors = [] →
      (targets.foldl (fun s target => (enterFrom schemas target .root s).2) s).errors = [] from this _ _ rfl
  intro targets
  induction targets with
  | nil => exact fun _ hs => hs
  | cons target targets ih => exact fun s hs => ih _ (errors_enterSchema hclean _ target .root s hs)

theorem errors_annotateFunctions (kind : String) {fs : List Function}
    (hfs : ∀ f ∈ fs, ∀ slot p, f.parameter? slot = some p →
      ∀ place, ∀ st ∈ steps (Keyed.keys schemas) place p.node, st.errors = []) {s : State} (hs : s.errors = []) :
    (annotateFunctions schemas kind fs s).2.errors = [] := by
  have hparameter : ∀ (p : Option Parameter), (∀ q, p = some q →
      ∀ place, ∀ st ∈ steps (Keyed.keys schemas) place q.node, st.errors = []) →
      ∀ (place : Pointer) (name : String) (s : State), s.errors = [] →
      (annotateParameter schemas place name p s).2.errors = [] := by
    intro p hp place name s hs
    cases p with
    | none => exact hs
    | some q => exact errors_annotate (errors_enterSchema hclean _) (hp q rfl place) hs
  induction fs generalizing s with
  | nil => exact hs
  | cons f fs ih =>
    refine ih (fun g hg => hfs g (List.mem_cons_of_mem _ hg)) ?_
    have hf := hfs f List.mem_cons_self
    exact hparameter f.output (hf .output) _ _ _ (hparameter f.input (hf .input) _ _ _ hs)

end

end Annotation

end BindingSchema
