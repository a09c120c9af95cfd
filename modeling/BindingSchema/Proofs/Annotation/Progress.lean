import BindingSchema.Proofs.Annotation.Steps

/-!
How annotation gets on with the registry.

A schema that is done stays done, with the node it got; problems and placeholders are never taken
back (`Later`). A schema that is in progress stays so until it is left (`Run`), so the recursion
takes at least one schema from the pending ones at each level and `depth` is never used up. Each
node that is kept was made by one call of `annotate`, in a state before (`Kept`).
-/

namespace BindingSchema

namespace Annotation

def Progress.isPending : Progress → Bool
  | .pending => true
  | _ => false

/-- How many schemas have not been entered. -/
def State.pending (s : State) : Nat := s.progress.countP Progress.isPending

/-- `t` comes after `s`. -/
structure Later (s t : State) : Prop where
  length : t.progress.length = s.progress.length
  pending : t.pending ≤ s.pending
  done : ∀ (i : Nat) (node : Node), s.progress[i]? = some (.done node) → t.progress[i]? = some (.done node)
  placeholders : t.placeholders = [] → s.placeholders = []
  errors : s.errors ⊆ t.errors

/-- `t` comes after `s`, and everything that was in progress still is. -/
structure Run (s t : State) : Prop extends Later s t where
  inProgress : ∀ i : Nat, s.progress[i]? = some .inProgress → t.progress[i]? = some .inProgress

theorem Later.refl (s : State) : Later s s :=
  ⟨rfl, Nat.le_refl _, fun _ _ h => h, fun h => h, List.Subset.refl _⟩

theorem Later.trans {s t u : State} (h : Later s t) (h' : Later t u) : Later s u :=
  ⟨h'.length.trans h.length, Nat.le_trans h'.pending h.pending, fun i node hi => h'.done i node (h.done i node hi),
    fun hu => h.placeholders (h'.placeholders hu), List.Subset.trans h.errors h'.errors⟩

theorem Run.refl (s : State) : Run s s := ⟨.refl s, fun _ h => h⟩

theorem Run.trans {s t u : State} (h : Run s t) (h' : Run t u) : Run s u :=
  ⟨h.toLater.trans h'.toLater, fun i hi => h'.inProgress i (h.inProgress i hi)⟩

theorem Run.report (s : State) (errors : List Diagnostic) : Run s (s.report errors) :=
  ⟨⟨rfl, Nat.le_refl _, fun _ _ h => h, fun h => h, List.subset_append_left _ _⟩, fun _ h => h⟩

theorem Run.placeholder (s : State) (place : Pointer) :
    Run s { s with placeholders := s.placeholders ++ [place] } :=
  ⟨⟨rfl, Nat.le_refl _, fun _ _ h => h, fun h => (List.append_eq_nil_iff.mp h).1, List.Subset.refl _⟩,
    fun _ h => h⟩

/-! ## Entering and leaving a schema -/

theorem getElem?_set_progress (s : State) (target i : Nat) (p : Progress) :
    (s.set target p).progress[i]? =
      if target = i ∧ i < s.progress.length then some p else s.progress[i]? := by
  simp only [State.set, List.getElem?_set]
  by_cases h : target = i
  · subst h
    by_cases hlt : target < s.progress.length
    · simp [hlt]
    · simp [hlt]
  · simp [h]

theorem pending_set_lt {s : State} {target : Nat} (h : s.progress[target]? = some .pending) :
    (s.set target .inProgress).pending < s.pending := by
  obtain ⟨hlt, hget⟩ := List.getElem?_eq_some_iff.mp h
  have hpos : 0 < s.pending :=
    List.countP_pos_iff.mpr ⟨.pending, hget ▸ List.getElem_mem hlt, rfl⟩
  unfold State.pending at hpos ⊢
  rw [State.set, List.countP_set hlt, hget]
  simp only [Progress.isPending, if_true, Bool.false_eq_true, if_false]
  omega

theorem Later.enter {s : State} {target : Nat} (h : s.progress[target]? = some .pending) :
    Later s (s.set target .inProgress) := by
  refine ⟨by simp [State.set], Nat.le_of_lt (pending_set_lt h), ?_, fun h => h,
    List.Subset.refl _⟩
  intro i node hi
  rw [getElem?_set_progress, if_neg]
  · exact hi
  · rintro ⟨rfl, _⟩
    rw [h] at hi
    cases hi

theorem Later.leave {s : State} {target : Nat} (h : s.progress[target]? = some .inProgress) (node : Node) :
    Later s (s.set target (.done node)) := by
  obtain ⟨hlt, hget⟩ := List.getElem?_eq_some_iff.mp h
  refine ⟨by simp [State.set], ?_, ?_, fun h => h, List.Subset.refl _⟩
  · unfold State.pending
    rw [State.set, List.countP_set hlt]
    simp [Progress.isPending]
  · intro i node' hi
    rw [getElem?_set_progress, if_neg]
    · exact hi
    · rintro ⟨rfl, _⟩
      rw [h] at hi
      cases hi

/-- A pending schema is entered, something runs, and the schema is left. -/
theorem Run.enter_leave {s t : State} {target : Nat} (h : s.progress[target]? = some .pending)
    (ht : Run (s.set target .inProgress) t) (node : Node) :
    t.progress[target]? = some .inProgress ∧ Run s (t.set target (.done node)) := by
  have hlt : target < s.progress.length := (List.getElem?_eq_some_iff.mp h).1
  have htarget : t.progress[target]? = some .inProgress :=
    ht.inProgress target (by rw [getElem?_set_progress, if_pos ⟨rfl, hlt⟩])
  refine ⟨htarget, ((Later.enter h).trans ht.toLater).trans (Later.leave htarget node), ?_⟩
  intro i hi
  have hne : target ≠ i := by
    rintro rfl
    rw [h] at hi
    cases hi
  rw [getElem?_set_progress, if_neg (fun hc => hne hc.1)]
  exact ht.inProgress i (by rw [getElem?_set_progress, if_neg (fun hc => hne hc.1)]; exact hi)

/-! ## Runs -/

variable {schemas : Keyed Schema}

/-- Each node that is done was made by annotating its schema, with depth to spare, before `s`. -/
def Kept (schemas : Keyed Schema) (s : State) : Prop :=
  ∀ (i : Nat) (node : Node) (name : String) (schema : Schema), s.progress[i]? = some (.done node) →
    schemas[i]? = some (name, schema) →
    ∃ depth t, t.pending < depth ∧ node = (annotate (Keyed.keys schemas) (enterSchema schemas depth) name false
        (.schema name) schema.node t).1 ∧
      Later (annotate (Keyed.keys schemas) (enterSchema schemas depth) name false (.schema name)
        schema.node t).2 s

theorem Kept.later {s t : State} (h : Kept schemas s) (hl : Later s t)
    (hdone : ∀ (i : Nat) (node : Node), t.progress[i]? = some (.done node) →
      s.progress[i]? = some (.done node)) : Kept schemas t := by
  intro i node name schema hi hs
  obtain ⟨depth, u, hlt, hnode, hlater⟩ := h i node name schema (hdone i node hi) hs
  exact ⟨depth, u, hlt, hnode, hlater.trans hl⟩

/-- What entering schemas to some depth does to the state. -/
def Advances (schemas : Keyed Schema) (depth : Nat) (s t : State) : Prop :=
  Run s t ∧ (s.pending < depth → Kept schemas s → Kept schemas t)

theorem Advances.refl (depth : Nat) (s : State) : Advances schemas depth s s := ⟨.refl s, fun _ h => h⟩

theorem Advances.trans {depth : Nat} (s t u : State) (h : Advances schemas depth s t)
    (h' : Advances schemas depth t u) : Advances schemas depth s u :=
  ⟨h.1.trans h'.1, fun hlt hs => h'.2 (Nat.lt_of_le_of_lt h.1.pending hlt) (h.2 hlt hs)⟩

theorem Advances.report (depth : Nat) (s : State) (errors : List Diagnostic) :
    Advances schemas depth s (s.report errors) :=
  ⟨.report s errors, fun _ hs => hs.later (Run.report s errors).toLater fun _ _ h => h⟩

theorem advances_annotate {depth : Nat} {enter : Enter}
    (h : ∀ target place s, Advances schemas depth s (enter target place s).2) (n : Node) (name : String)
    (isMember : Bool) (place : Pointer) (s : State) :
    Advances schemas depth s (annotate (Keyed.keys schemas) enter name isMember place n s).2 := by
  rw [annotate_state]
  refine foldl_take (Advances.refl depth) Advances.trans ?_ s
  intro st _ s
  cases st with
  | report errors => exact Advances.report depth s errors
  | enter edge => exact h edge.target edge.place s

theorem advances_enterSchema (schemas : Keyed Schema) (depth : Nat) : ∀ target place s,
    Advances schemas depth s (enterSchema schemas depth target place s).2 := by
  induction depth with
  | zero => intro target place s; exact Advances.refl 0 s
  | succ depth ih =>
    intro target place s
    rcases hp : s.progress[target]? with _ | p
    · simpa [enterSchema, hp] using Advances.refl (depth + 1) s
    rcases hs : schemas[target]? with _ | ⟨name, schema⟩
    · cases p <;> simpa [enterSchema, hp, hs] using Advances.refl (depth + 1) s
    cases p with
    | done node => rw [enterSchema_done hp]; exact Advances.refl (depth + 1) s
    | inProgress =>
      rw [enterSchema_inProgress hp hs]
      exact ⟨.placeholder s place, fun _ hk => hk.later (Run.placeholder s place).toLater fun _ _ h => h⟩
    | pending =>
      rw [enterSchema_pending hp hs]
      obtain ⟨hrun, hkept⟩ := advances_annotate ih schema.node name false (.schema name) (s.set target .inProgress)
      obtain ⟨htarget, hall⟩ := hrun.enter_leave hp (annotate (Keyed.keys schemas) (enterSchema schemas depth)
        name false (.schema name) schema.node (s.set target .inProgress)).1
      refine ⟨hall, ?_⟩
      intro hlt hk
      have hlt' : (s.set target .inProgress).pending < depth := by
        have := pending_set_lt hp
        omega
      have hentered : Kept schemas (s.set target .inProgress) := by
        refine hk.later (Later.enter hp) ?_
        intro i node hi
        rw [getElem?_set_progress] at hi
        split at hi
        · cases hi
        · exact hi
      intro i node name' schema' hi hs'
      rw [getElem?_set_progress] at hi
      split at hi
      · rename_i hc
        obtain ⟨rfl, _⟩ := hc
        rw [hs] at hs'
        cases hi
        cases hs'
        exact ⟨depth, _, hlt', rfl, Later.leave htarget _⟩
      · obtain ⟨depth', u, hu, hnode, hlater⟩ := hkept hlt' hentered i node name' schema' hi hs'
        exact ⟨depth', u, hu, hnode, hlater.trans (Later.leave htarget _)⟩

/-- What a node reports is among the errors afterwards. -/
theorem errors_subset {names : List String} {enter : Enter}
    (h : ∀ target place s, Later s (enter target place s).2) (n : Node) (name : String) (isMember : Bool)
    (place : Pointer) (s : State) {st : Step} (hst : st ∈ steps names place n) :
    st.errors ⊆ (annotate names enter name isMember place n s).2.errors := by
  have htake : ∀ (st : Step) (s : State), Later s (s.take enter st) := by
    intro st s
    cases st with
    | report errors => exact (Run.report s errors).toLater
    | enter edge => exact h edge.target edge.place s
  obtain ⟨before, after, hl⟩ := List.append_of_mem hst
  rw [annotate_state, hl, List.foldl_append, List.foldl_cons]
  have hafter := foldl_take Later.refl (fun _ _ _ => Later.trans) (l := after) (fun st _ s => htake st s)
    (State.take enter (before.foldl (State.take enter) s) st)
  refine List.Subset.trans ?_ hafter.errors
  cases st with
  | report errors => exact List.subset_append_right _ _
  | enter edge => exact List.nil_subset _

/-- Where no placeholder is handed out, entering a schema leaves it done and gives its type. -/
theorem enterSchema_answer {depth target : Nat} {place : Pointer} {s : State} (hlt : s.pending < depth)
    (hlen : s.progress.length = schemas.length) (htarget : target < schemas.length)
    (hclean : (enterSchema schemas depth target place s).2.placeholders = []) :
    ∃ node, (enterSchema schemas depth target place s).2.progress[target]? = some (.done node) ∧
      (enterSchema schemas depth target place s).1 = node.bindingType := by
  obtain ⟨⟨name, schema⟩, hs⟩ : ∃ x, schemas[target]? = some x := ⟨_, List.getElem?_eq_getElem htarget⟩
  obtain ⟨p, hp⟩ : ∃ p, s.progress[target]? = some p :=
    ⟨_, List.getElem?_eq_getElem (hlen ▸ htarget)⟩
  cases depth with
  | zero => omega
  | succ depth =>
    cases p with
    | done node => rw [enterSchema_done hp]; exact ⟨node, hp, rfl⟩
    | inProgress =>
      rw [enterSchema_inProgress hp hs] at hclean
      simp at hclean
    | pending =>
      rw [enterSchema_pending hp hs]
      obtain ⟨hrun, _⟩ := advances_annotate (advances_enterSchema schemas depth) schema.node name false
        (.schema name) (s.set target .inProgress)
      have hlen' : target < (annotate (Keyed.keys schemas) (enterSchema schemas depth) name false (.schema name)
          schema.node (s.set target .inProgress)).2.progress.length := by
        rw [hrun.length]
        simpa [State.set, hlen] using htarget
      exact ⟨_, by rw [getElem?_set_progress, if_pos ⟨rfl, hlen'⟩], rfl⟩

/-! ## The whole registry -/

/-- Before anything has been annotated. -/
def State.start (schemas : Keyed Schema) : State := { progress := schemas.map fun _ => .pending }

theorem pending_lt {s : State} (h : s.progress.length = schemas.length) : s.pending < schemas.length + 1 :=
  Nat.lt_succ_of_le (h ▸ List.countP_le_length)

theorem kept_start (schemas : Keyed Schema) : Kept schemas (.start schemas) := by
  intro i node name schema hi
  simp only [State.start, List.getElem?_map, Option.map_eq_some_iff] at hi
  obtain ⟨_, _, hp⟩ := hi
  cases hp

theorem advances_annotateSchemas (schemas : Keyed Schema) :
    Advances schemas (schemas.length + 1) (.start schemas) (annotateSchemas schemas) := by
  suffices ∀ (targets : List Nat) (s : State), Advances schemas (schemas.length + 1) s
      (targets.foldl (fun s target => (enterFrom schemas target .root s).2) s) from this _ _
  intro targets
  induction targets with
  | nil => exact Advances.refl _
  | cons target targets ih =>
    exact fun s => Advances.trans _ _ _ (advances_enterSchema schemas _ target .root s) (ih _)

theorem later_annotateFunctions (schemas : Keyed Schema) (kind : String) (fs : List Function) (s : State) :
    Later s (annotateFunctions schemas kind fs s).2 :=
  annotateFunctions_preserves Later.refl (fun _ _ _ => Later.trans)
    (fun n name place s =>
      (advances_annotate (advances_enterSchema schemas _) n name false place s).1.toLater) kind fs s

theorem length_progress (schemas : Keyed Schema) :
    (annotateSchemas schemas).progress.length = schemas.length := by
  rw [(advances_annotateSchemas schemas).1.length]
  simp [State.start]

theorem kept_annotateSchemas (schemas : Keyed Schema) : Kept schemas (annotateSchemas schemas) :=
  (advances_annotateSchemas schemas).2 (pending_lt (by simp [State.start])) (kept_start schemas)

theorem getElem?_registry {s : State} {i : Nat} {name : String} {schema : Schema}
    {node : Node} (hs : schemas[i]? = some (name, schema)) (hp : s.progress[i]? = some (.done node)) :
    (s.registry schemas)[i]? = some (name, { schema with node := node }) := by
  simp [State.registry, List.getElem?_zipWith, hs, hp]

theorem length_registry {s : State} (h : s.progress.length = schemas.length) :
    (s.registry schemas).length = schemas.length := by
  simp [State.registry, h]

end Annotation

end BindingSchema
