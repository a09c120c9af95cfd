import BindingSchema.Normalization
import BindingSchema.Proofs.Annotation.Progress
import BindingSchema.Proofs.Interface.Nodes
import BindingSchema.Proofs.ReferenceGraph.Circuits

/-!
Annotation searches the same graph as the search for circles.

The graph of the annotated schemas is known beforehand (`linked`, `ofSchemas_registry`), and on it
annotation goes the way of the search: pending, in progress and done are unvisited, on the path
and done (`Mirrors`), entering a schema follows the edge to it (`enterSchema_simulates`), and a
placeholder is handed out where an edge closes a circle. Since there is only one run over the
graph, both come to the same end (`annotateSchemas_mirrors`).
-/

namespace BindingSchema

open ReferenceGraph

namespace Annotation

/-! ## The graph -/

theorem ofProperties_annotateProperties {schemas : List String} {enter : Enter} {ps : List Property}
    (h : ∀ p ∈ ps, ∀ (name : String) (isMember : Bool) (place : Pointer) (s : State),
      Edge.ofNode place (annotate schemas enter name isMember place p.node s).1 =
        edges schemas place p.node) (place : Pointer) (s : State) :
    Edge.ofProperties place (annotateProperties schemas enter (place.push "properties") ps s).1 =
      (stepsOfProperties schemas (place.push "properties") ps).filterMap Step.edge? := by
  induction ps generalizing s with
  | nil => simp [annotateProperties, stepsOfProperties, Edge.ofProperties]
  | cons p ps ih =>
    obtain ⟨name, required, node⟩ := p
    have hplace : (place.push "properties").push name = place.append ["properties", name] := by
      simp [Pointer.push, Pointer.append]
    have hnode := h ⟨name, required, node⟩ List.mem_cons_self name true (place.append ["properties", name]) s
    have hrest := ih (fun p hp => h p (List.mem_cons_of_mem _ hp))
    simp only [annotateProperties, stepsOfProperties, Edge.ofProperties, List.filterMap_append, hplace]
    rw [hnode, hrest]
    rfl

/-- The edges of an annotated node are the references that annotation resolved. -/
theorem ofNode_annotate (schemas : List String) (enter : Enter) (n : Node) : n.Bare →
    ∀ (name : String) (isMember : Bool) (place : Pointer) (s : State),
      Edge.ofNode place (annotate schemas enter name isMember place n s).1 = edges schemas place n := by
  induction n using Node.induct with
  | h n ihProperties ihItems ihValues =>
    intro hn name isMember place s
    obtain ⟨⟨_, htarget⟩, hps, hitems, hvalues⟩ := Node.bare_iff.mp hn
    -- what annotation does not go into has no edges
    have hown : n.reference.bind (·.target) = none := by
      rcases hr : n.reference with _ | r
      · rfl
      · exact htarget r hr
    have noProperties : Edge.ofProperties place n.properties = [] :=
      Edge.ofProperties_of_bare (fun p hp => Edge.ofNode_of_bare p.node (hps p hp)) place
    have noItems : Edge.ofOptional (place.push "items") n.items = [] :=
      Edge.ofOptional_of_bare (fun m hm => Edge.ofNode_of_bare m (hitems m hm)) _
    have noValues : Edge.ofOptional (place.push "additionalProperties") n.additionalProperties = [] :=
      Edge.ofOptional_of_bare (fun m hm => Edge.ofNode_of_bare m (hvalues m hm)) _
    unfold edges
    cases hb : n.branch with
    | properties ps =>
      have hp := (Node.branch_eq_properties.mp hb).2
      rw [annotate_properties _ _ _ _ _ _ hb, steps_properties hb, Edge.ofNode_eq]
      have hall : ∀ p ∈ ps, ∀ (name : String) (isMember : Bool) (place : Pointer) (s : State),
          Edge.ofNode place (annotate schemas enter name isMember place p.node s).1 = edges schemas place p.node :=
        fun p hp' => ihProperties p (hp ▸ hp') (hps p (hp ▸ hp'))
      have := ofProperties_annotateProperties hall place s
      simp [hown, noItems, noValues, this]
    | reference r =>
      cases hr : resolve schemas r.path with
      | error problem =>
        rw [annotate_missing _ _ _ _ _ _ hb hr, steps_missing hb hr, Edge.ofNode_eq]
        simp [hown, noProperties, noItems, noValues, Step.edge?]
      | ok target =>
        rw [annotate_reference _ _ _ _ _ _ hb hr, steps_reference hb hr, Edge.ofNode_eq]
        simp [noProperties, noItems, noValues, Step.edge?]
    | enumeration values =>
      rw [annotate_enumeration _ _ _ _ _ _ hb, steps_enumeration hb, Edge.ofNode_eq]
      simp [hown, noProperties, noItems, noValues, Step.edge?]
    | items item =>
      have hi := (Node.branch_eq_items.mp hb).2.2.2
      rw [annotate_items _ _ _ _ _ _ hb, steps_items hb, Edge.ofNode_eq]
      have := ihItems item hi (hitems item hi) name true (place.push "items") s
      simp [hown, noProperties, noValues, Edge.ofOptional, this, edges]
    | mapValues value =>
      have hv := (Node.branch_eq_mapValues.mp hb).2.2.2.2
      rw [annotate_mapValues _ _ _ _ _ _ hb, steps_mapValues hb, Edge.ofNode_eq]
      have := ihValues value hv (hvalues value hv) name true (place.push "additionalProperties") s
      simp [hown, noProperties, noItems, Edge.ofOptional, this, edges]
    | declared =>
      rw [annotate_declared _ _ _ _ _ _ hb, steps_declared hb, Edge.ofNode_eq]
      simp [hown, noProperties, noItems, noValues]

/-- The graph of the references that annotation resolves. -/
def linked (schemas : Keyed Schema) : ReferenceGraph where
  names := Keyed.keys schemas
  edges := schemas.map fun (name, s) => edges (Keyed.keys schemas) (.schema name) s.node

theorem size_linked (schemas : Keyed Schema) : (linked schemas).size = schemas.length := by
  simp [size, linked, Keyed.keys]

theorem edgesOf_linked {schemas : Keyed Schema} {target : Nat} {name : String} {schema : Schema}
    (h : schemas[target]? = some (name, schema)) :
    (linked schemas).edgesOf target = edges (Keyed.keys schemas) (.schema name) schema.node := by
  simp [edgesOf, linked, h]

/-! ## Both searches -/

def Progress.mark : Progress → Mark
  | .pending => .unvisited
  | .inProgress => .onPath
  | .done _ => .done

/-- Annotation is where the search is, and has handed out a placeholder for each circle. -/
structure Mirrors (s : State) (t : Search) : Prop where
  marks : t.marks = s.progress.map Progress.mark
  places : s.placeholders = t.cycles.map (·.place)

theorem Mirrors.report {s : State} {t : Search} (h : Mirrors s t) (errors : List Diagnostic) :
    Mirrors (s.report errors) t := ⟨h.marks, h.places⟩

theorem Mirrors.mark {s : State} {t : Search} (h : Mirrors s t) (i : Nat) :
    t.marks[i]? = (s.progress[i]?).map Progress.mark := by
  rw [h.marks, List.getElem?_map]

theorem Mirrors.enter {s : State} {t : Search} (h : Mirrors s t) (target : Nat) :
    Mirrors (s.set target .inProgress) (t.enter target) :=
  ⟨by simp [Search.enter, State.set, h.marks, List.map_set, Progress.mark], h.places⟩

theorem Mirrors.leave {s : State} {t : Search} (h : Mirrors s t) (target : Nat) (node : Node) :
    Mirrors (s.set target (.done node)) (t.leave target) :=
  ⟨by simp [Search.leave, State.set, h.marks, List.map_set, Progress.mark], h.places⟩

theorem Mirrors.close {g : ReferenceGraph} {s : State} {t : Search} {edge : Edge} (h : Mirrors s t)
    (ht : Tracked g t) (hm : t.marks[edge.target]? = some .onPath) :
    Mirrors { s with placeholders := s.placeholders ++ [edge.place] } (g.close t edge) := by
  refine ⟨by rw [marks_close]; exact h.marks, ?_⟩
  have hmem : edge.target ∈ t.path := (ht.mem_path _).mpr hm
  unfold ReferenceGraph.close
  split
  · rename_i hnil
    rw [List.dropWhile_eq_nil_iff] at hnil
    have := hnil _ hmem
    simp at this
  · simp [h.places]

/-- Entering follows the edge, as long as `depth` is more than there is to be searched. -/
def Simulates (g : ReferenceGraph) (depth : Nat) (enter : Enter) : Prop :=
  ∀ (edge : Edge) (s : State) (t : Search), edge.target < g.size → Mirrors s t → Tracked g t →
    t.marks.count .unvisited < depth → ∀ source index,
    ∃ events t', Follows g source index [edge] t events t' ∧
      Mirrors (enter edge.target edge.place s).2 t'

theorem Simulates.taking {g : ReferenceGraph} {depth : Nat} {enter : Enter} (h : Simulates g depth enter)
    (l : List Step) : (∀ edge, .enter edge ∈ l → edge.target < g.size) → ∀ (s : State) (t : Search),
    Mirrors s t → Tracked g t → t.marks.count .unvisited < depth → ∀ source index,
    ∃ events t', Follows g source index (l.filterMap Step.edge?) t events t' ∧
      Mirrors (l.foldl (State.take enter) s) t' := by
  induction l with
  | nil => intro _ s t hm _ _ source index; exact ⟨[], t, .nil, hm⟩
  | cons st l ih =>
    intro hl s t hm ht hcount source index
    have hl' : ∀ edge, .enter edge ∈ l → edge.target < g.size :=
      fun edge he => hl edge (List.mem_cons_of_mem _ he)
    cases st with
    | report errors => exact ih hl' (s.report errors) t (hm.report errors) ht hcount source index
    | enter edge =>
      obtain ⟨events, t', hfollows, hm'⟩ := h edge s t (hl edge List.mem_cons_self) hm ht hcount source index
      have hcount' := Nat.lt_of_le_of_lt hfollows.count_le hcount
      obtain ⟨events', t'', hfollows', hm''⟩ :=
        ih hl' _ t' hm' (ht.extends hfollows.extends) hcount' source (index + 1)
      exact ⟨events ++ events', t'', hfollows.append hfollows', hm''⟩

/-- A pending schema is annotated while its edges are followed. -/
theorem Simulates.inside {schemas : Keyed Schema} {depth target : Nat} {name : String} {schema : Schema}
    (h : Simulates (linked schemas) depth (enterSchema schemas depth))
    (hs : schemas[target]? = some (name, schema)) {s : State} {t : Search} (hm : Mirrors s t)
    (ht : Tracked (linked schemas) t) (hmark : t.marks[target]? = some .unvisited)
    (hcount : t.marks.count .unvisited < depth + 1) :
    ∃ events t', Follows (linked schemas) target 0 ((linked schemas).edgesOf target) (t.enter target) events t' ∧
      Mirrors (annotate (Keyed.keys schemas) (enterSchema schemas depth) name false (.schema name)
        schema.node (s.set target .inProgress)).2 t' := by
  have hlt : (t.enter target).marks.count .unvisited < t.marks.count .unvisited :=
    count_set_lt (by decide) hmark
  have htargets : ∀ edge, .enter edge ∈ steps (Keyed.keys schemas) (.schema name) schema.node →
      edge.target < (linked schemas).size := by
    intro edge he
    have := target_lt schema.node he
    rwa [size_linked, ← length_keys]
  rw [edgesOf_linked hs, annotate_state]
  exact h.taking _ htargets _ _ (hm.enter target) (ht.enter hmark) (by omega) target 0

theorem enterSchema_simulates (schemas : Keyed Schema) (depth : Nat) :
    Simulates (linked schemas) depth (enterSchema schemas depth) := by
  induction depth with
  | zero => intro edge s t _ _ _ hcount; omega
  | succ depth ih =>
    intro edge s t hlt hm ht hcount source index
    rw [size_linked] at hlt
    obtain ⟨⟨name, schema⟩, hs⟩ : ∃ x, schemas[edge.target]? = some x := ⟨_, List.getElem?_eq_getElem hlt⟩
    have hlt' : edge.target < s.progress.length := by
      have := ht.length
      rw [hm.marks, List.length_map, size_linked] at this
      omega
    have hmark := hm.mark edge.target
    obtain ⟨p, hp⟩ : ∃ p, s.progress[edge.target]? = some p := ⟨_, List.getElem?_eq_getElem hlt'⟩
    rw [hp] at hmark
    cases p with
    | done node =>
      rw [enterSchema_done hp]
      exact ⟨[], t, .pass (Or.inl hmark) .nil, hm⟩
    | inProgress =>
      rw [enterSchema_inProgress hp hs]
      exact ⟨_, _, .close hmark .nil, hm.close ht hmark⟩
    | pending =>
      rw [enterSchema_pending hp hs]
      obtain ⟨events, t', hfollows, hm'⟩ := ih.inside hs hm ht hmark hcount
      exact ⟨_, _, .enter hmark hfollows .nil, hm'.leave edge.target _⟩

/-! ## The whole registry -/

theorem mirrors_start (schemas : Keyed Schema) : Mirrors (.start schemas) (linked schemas).start := by
  refine ⟨?_, rfl⟩
  simp only [ReferenceGraph.start, size_linked, State.start, List.map_map]
  exact List.map_const'.symm

/-- Annotating schemas one after the other is a run over them. -/
theorem sweeps_mirrors (schemas : Keyed Schema) (targets : List Nat) : ∀ (s : State) (t : Search),
    (∀ i ∈ targets, i < schemas.length) → Mirrors s t → Tracked (linked schemas) t → t.path = [] →
    ∃ events t', Sweeps (linked schemas) targets t events t' ∧
      Mirrors (targets.foldl (fun s target => (enterFrom schemas target .root s).2) s) t' := by
  induction targets with
  | nil =>
    intro s t _ hm _ _
    exact ⟨[], t, .nil, hm⟩
  | cons target targets ih =>
    intro s t hlt hm ht hpath
    rw [List.foldl_cons]
    have hrest : ∀ i ∈ targets, i < schemas.length := fun i hi => hlt i (List.mem_cons_of_mem _ hi)
    have hlen : t.marks.length = schemas.length := ht.length.trans (size_linked schemas)
    obtain ⟨⟨name, schema⟩, hs⟩ : ∃ x, schemas[target]? = some x :=
      ⟨_, List.getElem?_eq_getElem (hlt target List.mem_cons_self)⟩
    have hmark := hm.mark target
    obtain ⟨p, hp⟩ : ∃ p, s.progress[target]? = some p := by
      have := hlt target List.mem_cons_self
      refine ⟨_, List.getElem?_eq_getElem ?_⟩
      rw [hm.marks, List.length_map] at hlen
      omega
    rw [hp] at hmark
    cases p with
    | pending =>
      have hcount : t.marks.count .unvisited < schemas.length + 1 :=
        Nat.lt_succ_of_le (hlen ▸ List.count_le_length)
      obtain ⟨events, t', hfollows, hm'⟩ :=
        (enterSchema_simulates schemas schemas.length).inside hs hm ht hmark hcount
      have hext := Extends.enter_leave hmark hfollows.extends
      obtain ⟨events', t'', hsweeps, hm''⟩ :=
        ih _ _ hrest (hm'.leave target _) (ht.extends hext) (hext.path.trans hpath)
      refine ⟨_, t'', .enter hmark hfollows hsweeps, ?_⟩
      rw [enterFrom, enterSchema_pending hp hs]
      exact hm''
    | inProgress =>
      have := (ht.mem_path target).mpr hmark
      rw [hpath] at this
      cases this
    | done node =>
      obtain ⟨events, t', hsweeps, hm'⟩ := ih s t hrest hm ht hpath
      have hlt' := hlt target List.mem_cons_self
      refine ⟨events, t', .pass (by omega) (by rw [hmark]; simp [Progress.mark]) hsweeps, ?_⟩
      rw [enterFrom, enterSchema_done hp]
      exact hm'

/-- Annotating every schema is the search from every schema. -/
theorem annotateSchemas_mirrors (schemas : Keyed Schema) :
    Mirrors (annotateSchemas schemas) (linked schemas).search := by
  obtain ⟨events, t', hsweeps, hm⟩ := sweeps_mirrors schemas (List.range schemas.length) (.start schemas)
    (linked schemas).start (fun i hi => List.mem_range.mp hi) (mirrors_start schemas) (tracked_start _) rfl
  obtain ⟨_, hsearch⟩ := (linked schemas).search_sweeps
  rw [size_linked] at hsearch
  exact (hsweeps.deterministic hsearch).2 ▸ hm

/-- At the end every schema is done. -/
theorem exists_done {schemas : Keyed Schema} {i : Nat} (hi : i < schemas.length) :
    ∃ node, (annotateSchemas schemas).progress[i]? = some (.done node) := by
  obtain ⟨_, hsweeps⟩ := (linked schemas).search_sweeps
  have hdone := hsweeps.done (by simp [ReferenceGraph.start, List.getElem?_replicate]) i
    (List.mem_range.mpr (by rwa [size_linked]))
  rw [(annotateSchemas_mirrors schemas).mark i] at hdone
  obtain ⟨p, hp, hmark⟩ := Option.map_eq_some_iff.mp hdone
  cases p with
  | pending => cases hmark
  | inProgress => cases hmark
  | done node => exact ⟨node, hp⟩

/-- The graph of the annotated registry is the one annotation searched. -/
theorem ofSchemas_registry {schemas : Keyed Schema} (hbare : ∀ x ∈ schemas, x.2.node.Bare) :
    ofSchemas ((annotateSchemas schemas).registry schemas) = linked schemas := by
  have hget : ∀ i : Nat, (((annotateSchemas schemas).registry schemas)[i]?).map
      (fun x : String × Schema => (x.1, Edge.ofNode (.schema x.1) x.2.node)) =
      (schemas[i]?).map fun x : String × Schema => (x.1, edges (Keyed.keys schemas) (.schema x.1) x.2.node) := by
    intro i
    rcases hs : schemas[i]? with _ | ⟨name, schema⟩
    · have := List.getElem?_eq_none_iff.mp hs
      rw [List.getElem?_eq_none_iff.mpr (by rw [length_registry (length_progress schemas)]; exact this)]
      rfl
    · obtain ⟨hlt, hmem⟩ := List.getElem?_eq_some_iff.mp hs
      obtain ⟨node, hp⟩ := exists_done hlt
      obtain ⟨depth, s, _, hnode, _⟩ := kept_annotateSchemas schemas i node name schema hp hs
      have hb : schema.node.Bare := hbare (name, schema) (hmem ▸ List.getElem_mem hlt)
      rw [getElem?_registry hs hp]
      simp only [Option.map_some]
      rw [hnode, ofNode_annotate _ _ _ hb]
  have hlist : ((annotateSchemas schemas).registry schemas).map
      (fun x : String × Schema => (x.1, Edge.ofNode (.schema x.1) x.2.node)) =
      schemas.map fun x : String × Schema => (x.1, edges (Keyed.keys schemas) (.schema x.1) x.2.node) := by
    apply List.ext_getElem?
    intro i
    rw [List.getElem?_map, List.getElem?_map, hget i]
  have hnames := congrArg (List.map (·.1)) hlist
  have hedges := congrArg (List.map (·.2)) hlist
  simp only [List.map_map] at hnames hedges
  exact congrArg₂ ReferenceGraph.mk hnames hedges

/-! ## Functions -/

/-- Once every schema is done, annotation only reports. -/
def Finished (schemas : Keyed Schema) (s t : State) : Prop :=
  (∀ i < schemas.length, ∃ node, s.progress[i]? = some (.done node)) →
    t.progress = s.progress ∧ t.placeholders = s.placeholders

theorem Finished.refl (schemas : Keyed Schema) (s : State) : Finished schemas s s := fun _ => ⟨rfl, rfl⟩

theorem Finished.trans {schemas : Keyed Schema} {s t u : State} (h : Finished schemas s t)
    (h' : Finished schemas t u) : Finished schemas s u := by
  intro hs
  obtain ⟨hp, hq⟩ := h hs
  obtain ⟨hp', hq'⟩ := h' (by rw [hp]; exact hs)
  exact ⟨hp'.trans hp, hq'.trans hq⟩

theorem finished_annotate (schemas : Keyed Schema) (n : Node) (name : String) (isMember : Bool)
    (place : Pointer) (s : State) :
    Finished schemas s (annotate (Keyed.keys schemas) (enterFrom schemas) name isMember place n s).2 := by
  rw [annotate_state]
  refine foldl_take (Finished.refl schemas) (fun _ _ _ => Finished.trans) ?_ s
  intro st hst s
  cases st with
  | report errors => exact fun _ => ⟨rfl, rfl⟩
  | enter edge =>
    intro hdone
    have hlt := target_lt n hst
    rw [length_keys] at hlt
    obtain ⟨node, hp⟩ := hdone edge.target hlt
    rw [State.take, enterFrom, enterSchema_done hp]
    exact ⟨rfl, rfl⟩

theorem finished_annotateFunctions (schemas : Keyed Schema) (kind : String) (fs : List Function) (s : State) :
    Finished schemas s (annotateFunctions schemas kind fs s).2 :=
  annotateFunctions_preserves (Finished.refl schemas) (fun _ _ _ => Finished.trans)
    (fun n name => finished_annotate schemas n name false) kind fs s

end Annotation

end BindingSchema
