import BindingSchema.Lowering
import BindingSchema.Proofs.Annotation.Branch
import BindingSchema.ReferenceGraph

/-!
What annotating a node does to the state.

Which schemas a node enters and which problems it reports depends on the names of the schemas
alone, not on what is known of them: the steps of a node can be listed beforehand (`steps`), and
annotation takes them in order (`annotate_state`). What holds of the state afterwards is
therefore an induction over a list (`foldl_take`). The schemas a node enters are exactly its
edges once it is annotated (`ofNode_annotate`).
-/

namespace BindingSchema

namespace Annotation

/-- One thing that annotation does to the state. -/
inductive Step where
  | enter (edge : Edge)
  | report (errors : List Diagnostic)

namespace Step

def edge? : Step → Option Edge
  | .enter edge => some edge
  | .report _ => none

def errors : Step → List Diagnostic
  | .enter _ => []
  | .report errors => errors

end Step

def State.take (enter : Enter) (s : State) : Step → State
  | .enter edge => (enter edge.target edge.place s).2
  | .report errors => s.report errors

/-! ## Listing the steps -/

mutual

def steps (schemas : List String) (place : Pointer) : Node → List Step
  | ⟨_, _, _, _, items, additionalProperties, properties, enumValues, reference, _⟩ =>
    match properties with
    | p :: ps => stepsOfProperties schemas (place.push "properties") (p :: ps)
    | [] =>
    match reference with
    | some r =>
      match resolve schemas r.path with
      | .error problem => [.report [problem.located (place.push "$ref")]]
      | .ok target => [.enter ⟨target, place.push "$ref"⟩]
    | none =>
    match enumValues with
    | some values => [.report (enumProblems place values)]
    | none =>
    match items with
    | some item => steps schemas (place.push "items") item
    | none =>
    match additionalProperties with
    | some value => steps schemas (place.push "additionalProperties") value
    | none => []

def stepsOfProperties (schemas : List String) (place : Pointer) : List Property → List Step
  | [] => []
  | ⟨name, _, node⟩ :: rest => steps schemas (place.push name) node ++ stepsOfProperties schemas place rest

end

/-- The references below a node that annotation resolves, in the order in which it does. -/
def edges (schemas : List String) (place : Pointer) (n : Node) : List Edge :=
  (steps schemas place n).filterMap Step.edge?

section

variable {schemas : List String} {place : Pointer} {n : Node}

attribute [local simp] steps

theorem steps_properties {ps : List Property} (h : n.branch = .properties ps) :
    steps schemas place n = stepsOfProperties schemas (place.push "properties") ps := by
  obtain ⟨type, format, description, nullable, items, values, properties, enumValues, reference, bt⟩ := n
  obtain ⟨hne, rfl⟩ := Node.branch_eq_properties.mp h
  cases properties with
  | nil => exact absurd rfl hne
  | cons p ps => simp

theorem steps_missing {r : SchemaRef} {problem : Problem} (h : n.branch = .reference r)
    (hr : resolve schemas r.path = .error problem) :
    steps schemas place n = [.report [problem.located (place.push "$ref")]] := by
  obtain ⟨type, format, description, nullable, items, values, properties, enumValues, reference, bt⟩ := n
  obtain ⟨rfl, rfl⟩ := Node.branch_eq_reference.mp h
  simp [hr]

theorem steps_reference {r : SchemaRef} {target : Nat} (h : n.branch = .reference r)
    (hr : resolve schemas r.path = .ok target) :
    steps schemas place n = [.enter ⟨target, place.push "$ref"⟩] := by
  obtain ⟨type, format, description, nullable, items, values, properties, enumValues, reference, bt⟩ := n
  obtain ⟨rfl, rfl⟩ := Node.branch_eq_reference.mp h
  simp [hr]

theorem steps_enumeration {values : List Value} (h : n.branch = .enumeration values) :
    steps schemas place n = [.report (enumProblems place values)] := by
  obtain ⟨type, format, description, nullable, items, mapped, properties, enumValues, reference, bt⟩ := n
  obtain ⟨rfl, rfl, rfl⟩ := Node.branch_eq_enumeration.mp h
  simp

theorem steps_items {item : Node} (h : n.branch = .items item) :
    steps schemas place n = steps schemas (place.push "items") item := by
  obtain ⟨type, format, description, nullable, items, values, properties, enumValues, reference, bt⟩ := n
  obtain ⟨rfl, rfl, rfl, rfl⟩ := Node.branch_eq_items.mp h
  simp

theorem steps_mapValues {value : Node} (h : n.branch = .mapValues value) :
    steps schemas place n = steps schemas (place.push "additionalProperties") value := by
  obtain ⟨type, format, description, nullable, items, values, properties, enumValues, reference, bt⟩ := n
  obtain ⟨rfl, rfl, rfl, rfl, rfl⟩ := Node.branch_eq_mapValues.mp h
  simp

theorem steps_declared (h : n.branch = .declared) : steps schemas place n = [] := by
  obtain ⟨type, format, description, nullable, items, values, properties, enumValues, reference, bt⟩ := n
  obtain ⟨rfl, rfl, rfl, rfl, rfl⟩ := Node.branch_eq_declared.mp h
  simp

end

/-! ## Taking them -/

theorem annotateProperties_state {schemas : List String} {enter : Enter} {ps : List Property}
    (h : ∀ p ∈ ps, ∀ (name : String) (isMember : Bool) (place : Pointer) (s : State),
      (annotate schemas enter name isMember place p.node s).2 =
        (steps schemas place p.node).foldl (State.take enter) s) (place : Pointer) (s : State) :
    (annotateProperties schemas enter place ps s).2 =
      (stepsOfProperties schemas place ps).foldl (State.take enter) s := by
  induction ps generalizing s with
  | nil => simp [annotateProperties, stepsOfProperties]
  | cons p ps ih =>
    obtain ⟨name, required, node⟩ := p
    have hnode := h ⟨name, required, node⟩ List.mem_cons_self name true (place.push name) s
    have hrest := ih (fun p hp => h p (List.mem_cons_of_mem _ hp))
      (annotate schemas enter name true (place.push name) node s).2
    simp only [annotateProperties, stepsOfProperties, List.foldl_append]
    rw [hrest, hnode]

theorem annotate_state (schemas : List String) (enter : Enter) (n : Node) :
    ∀ (name : String) (isMember : Bool) (place : Pointer) (s : State),
    (annotate schemas enter name isMember place n s).2 =
      (steps schemas place n).foldl (State.take enter) s := by
  induction n using Node.induct with
  | h n ihProperties ihItems ihValues =>
    intro name isMember place s
    cases hb : n.branch with
    | properties ps =>
      have hps := (Node.branch_eq_properties.mp hb).2
      rw [annotate_properties _ _ _ _ _ _ hb, steps_properties hb]
      exact annotateProperties_state (fun p hp => ihProperties p (hps ▸ hp)) _ s
    | reference r =>
      cases hr : resolve schemas r.path with
      | error problem => rw [annotate_missing _ _ _ _ _ _ hb hr, steps_missing hb hr]; rfl
      | ok target => rw [annotate_reference _ _ _ _ _ _ hb hr, steps_reference hb hr]; rfl
    | enumeration values => rw [annotate_enumeration _ _ _ _ _ _ hb, steps_enumeration hb]; rfl
    | items item =>
      rw [annotate_items _ _ _ _ _ _ hb, steps_items hb]
      exact ihItems item (Node.branch_eq_items.mp hb).2.2.2 name true _ s
    | mapValues value =>
      rw [annotate_mapValues _ _ _ _ _ _ hb, steps_mapValues hb]
      exact ihValues value (Node.branch_eq_mapValues.mp hb).2.2.2.2 name true _ s
    | declared => rw [annotate_declared _ _ _ _ _ _ hb, steps_declared hb]; rfl

/-- What one step preserves the steps of a node preserve. -/
theorem foldl_take {enter : Enter} {P : State → State → Prop} (refl : ∀ s, P s s)
    (trans : ∀ s t u, P s t → P t u → P s u) {l : List Step}
    (step : ∀ st ∈ l, ∀ s, P s (s.take enter st)) (s : State) : P s (l.foldl (State.take enter) s) := by
  induction l generalizing s with
  | nil => exact refl s
  | cons st l ih =>
    rw [List.foldl_cons]
    exact trans _ _ _ (step st List.mem_cons_self s) (ih (fun x hx => step x (List.mem_cons_of_mem _ hx)) _)

/-! ## Functions -/

section

variable {schemas : Keyed Schema} {R : State → State → Prop}

theorem annotateParameter_preserves (refl : ∀ s, R s s)
    (h : ∀ (n : Node) (name : String) (place : Pointer) (s : State),
      R s (annotate (Keyed.keys schemas) (enterFrom schemas) name false place n s).2)
    (place : Pointer) (name : String) (p : Option Parameter) (s : State) :
    R s (annotateParameter schemas place name p s).2 := by
  cases p with
  | none => exact refl s
  | some p => exact h p.node name place s

/-- What annotating a node preserves annotating functions preserves. -/
theorem annotateFunctions_preserves (refl : ∀ s, R s s) (trans : ∀ s t u, R s t → R t u → R s u)
    (h : ∀ (n : Node) (name : String) (place : Pointer) (s : State),
      R s (annotate (Keyed.keys schemas) (enterFrom schemas) name false place n s).2)
    (kind : String) (fs : List Function) (s : State) : R s (annotateFunctions schemas kind fs s).2 := by
  induction fs generalizing s with
  | nil => exact refl s
  | cons f fs ih =>
    have hinput := annotateParameter_preserves refl h (Pointer.push ⟨[kind, f.name]⟩ "input") f.name f.input s
    have houtput := annotateParameter_preserves refl h (Pointer.push ⟨[kind, f.name]⟩ "output") f.name f.output
      (annotateParameter schemas (Pointer.push ⟨[kind, f.name]⟩ "input") f.name f.input s).2
    exact trans _ _ _ hinput (trans _ _ _ houtput (ih _))

end

/-! ## References that resolve -/

theorem resolve_eq_ok {schemas : List String} {path : String} {target : Nat} :
    resolve schemas path = .ok target ↔
      ∃ name, SchemaRef.parse path = .ok name ∧ schemas.idxOf? name = some target := by
  unfold resolve
  rcases hp : SchemaRef.parse path with e | name
  · simp
  · rcases hi : schemas.idxOf? name with _ | i <;> simp [hi]

theorem resolve_lt {schemas : List String} {path : String} {target : Nat}
    (h : resolve schemas path = .ok target) : target < schemas.length := by
  obtain ⟨name, _, hi⟩ := resolve_eq_ok.mp h
  exact (List.findIdx?_eq_some_iff_findIdx_eq.mp hi).1

theorem length_keys (schemas : Keyed Schema) : (Keyed.keys schemas).length = schemas.length := by
  simp [Keyed.keys]

theorem mem_stepsOfProperties {schemas : List String} {place : Pointer} {ps : List Property} {st : Step} :
    st ∈ stepsOfProperties schemas place ps ↔ ∃ p ∈ ps, st ∈ steps schemas (place.push p.name) p.node := by
  induction ps with
  | nil => simp [stepsOfProperties]
  | cons p ps ih =>
    obtain ⟨name, required, node⟩ := p
    simp [stepsOfProperties, ih]

/-- Only schemas of the registry are entered. -/
theorem target_lt {schemas : List String} (n : Node) : ∀ {place : Pointer} {edge : Edge},
    .enter edge ∈ steps schemas place n → edge.target < schemas.length := by
  induction n using Node.induct with
  | h n ihProperties ihItems ihValues =>
    intro place edge h
    cases hb : n.branch with
    | properties ps =>
      rw [steps_properties hb, mem_stepsOfProperties] at h
      obtain ⟨p, hp, h⟩ := h
      exact ihProperties p ((Node.branch_eq_properties.mp hb).2 ▸ hp) h
    | reference r =>
      cases hr : resolve schemas r.path with
      | error problem => rw [steps_missing hb hr] at h; simp at h
      | ok target =>
        rw [steps_reference hb hr, List.mem_singleton] at h
        cases h
        exact resolve_lt hr
    | enumeration values => rw [steps_enumeration hb] at h; simp at h
    | items item =>
      rw [steps_items hb] at h
      exact ihItems item (Node.branch_eq_items.mp hb).2.2.2 h
    | mapValues value =>
      rw [steps_mapValues hb] at h
      exact ihValues value (Node.branch_eq_mapValues.mp hb).2.2.2.2 h
    | declared => rw [steps_declared hb] at h; cases h

/-! ## Entering a schema -/

section

variable {schemas : Keyed Schema} {depth target : Nat} {place : Pointer} {s : State}

attribute [local simp] enterSchema

theorem enterSchema_done {node : Node} (h : s.progress[target]? = some (.done node)) :
    enterSchema schemas (depth + 1) target place s = (node.bindingType, s) := by
  simp [h]

theorem enterSchema_inProgress {name : String} {schema : Schema}
    (h : s.progress[target]? = some .inProgress) (hs : schemas[target]? = some (name, schema)) :
    enterSchema schemas (depth + 1) target place s =
      (some (.object name []), { s with placeholders := s.placeholders ++ [place] }) := by
  simp [h, hs]

theorem enterSchema_pending {name : String} {schema : Schema}
    (h : s.progress[target]? = some .pending) (hs : schemas[target]? = some (name, schema)) :
    enterSchema schemas (depth + 1) target place s =
      let r := annotate (Keyed.keys schemas) (enterSchema schemas depth) name false (.schema name)
        schema.node (s.set target .inProgress)
      (r.1.bindingType, r.2.set target (.done r.1)) := by
  simp [h, hs]

end

end Annotation

end BindingSchema
