import BindingSchema.Proofs.ReferenceGraph.Run
import Mathlib.Data.List.Chain
import Mathlib.Data.List.Perm.Basic
import Mathlib.Data.List.Rotate
import Mathlib.Data.List.TakeWhile

/-!
What the search for circles finds.

A circuit is a list of arcs each of which leads to the schema that the next one leaves, and the
last to the schema that the first one leaves. The invariant on the way (`Trail`) is that the path
of the search is made of arcs by which schemas were entered; an edge to a schema on the path then
closes an elementary circuit, and is its only arc that closed one. The invariant of what is done
(`Settled`) is that an arc out of it that closed nothing leads to what was done earlier, so no
circuit is left without the closing arcs.

Proved:
- `Sweeps.reports`: each circle reported is an elementary circuit that ends in its closing arc.
- `Sweeps.acc`: references that closed nothing cannot be followed for ever.
- `cycles_eq_nil_iff`: nothing is reported exactly if there is no circuit.
- `cycles_search`: the search is sound and complete and reports no arc twice.
-/

namespace BindingSchema

namespace ReferenceGraph

variable {g : ReferenceGraph}

/-! ## Circuits -/

/-- `a` leads to the schema that `b` leaves. -/
def Leads (g : ReferenceGraph) (a b : Arc) : Prop :=
  ∃ e, g.edge? a = some e ∧ e.target = b.source ∧ e.target < g.size

structure IsCircuit (g : ReferenceGraph) (arcs : List Arc) : Prop where
  ne_nil : arcs ≠ []
  chain : arcs.IsChain g.Leads
  closed : ∀ a ∈ arcs.getLast?, ∀ b ∈ arcs.head?, g.Leads a b

/-- A circuit that is at no schema twice. -/
def IsElementary (g : ReferenceGraph) (arcs : List Arc) : Prop :=
  g.IsCircuit arcs ∧ (arcs.map (·.source)).Nodup

def Acyclic (g : ReferenceGraph) : Prop := ∀ arcs, ¬ g.IsCircuit arcs

/-- The graph with some of its edges taken out. -/
def without (g : ReferenceGraph) (arcs : List Arc) : ReferenceGraph where
  names := g.names
  edges := g.edges.mapIdx fun source es =>
    (es.zipIdx.filter fun (_, index) => !arcs.contains ⟨source, index⟩).map (·.1)

/-- `c` names the schemas of the circuit that `arcs` and then `a` make, the first one again at the
end, and stands at the reference of `a`. -/
structure Reports (g : ReferenceGraph) (arcs : List Arc) (a : Arc) (c : Cycle) : Prop where
  elementary : g.IsElementary (arcs ++ [a])
  names : c.names = ((arcs ++ [a]) ++ (arcs ++ [a]).take 1).map fun b => g.label b.source
  place : (g.edge? a).map (·.place) = some c.place

theorem IsCircuit.rotate {a : Arc} {arcs : List Arc} (h : g.IsCircuit (a :: arcs)) :
    g.IsCircuit (arcs ++ [a]) := by
  refine ⟨by simp, ?_, ?_⟩
  · rw [List.isChain_append]
    refine ⟨h.chain.tail, .singleton _, ?_⟩
    intro x hx y hy
    simp only [List.head?_cons, Option.mem_def, Option.some.injEq] at hy
    subst hy
    refine h.closed x ?_ a rfl
    rw [List.getLast?_cons, Option.mem_def.mp hx]
    rfl
  · intro x hx y hy
    simp only [List.getLast?_concat, Option.mem_def, Option.some.injEq] at hx
    subst hx
    cases arcs with
    | nil => exact h.closed a rfl y hy
    | cons b rest => exact h.chain.rel_head? hy

theorem IsCircuit.leads {a : Arc} {arcs : List Arc} (h : g.IsCircuit (a :: arcs)) :
    ∃ b, (arcs ++ [a]).head? = some b ∧ g.Leads a b := by
  cases arcs with
  | nil => exact ⟨a, rfl, h.closed a rfl a rfl⟩
  | cons b rest => exact ⟨b, rfl, h.chain.rel_head? rfl⟩

/-! ## Following references -/

/-- `v` is referred to from `u`, by an arc that is kept. -/
def Refers (g : ReferenceGraph) (keep : Arc → Prop) (v u : Nat) : Prop :=
  ∃ index e, g.edge? ⟨u, index⟩ = some e ∧ keep ⟨u, index⟩ ∧ e.target = v ∧ v < g.size

theorem Refers.mono {keep keep' : Arc → Prop} (hkeep : ∀ a, keep' a → keep a) {v u : Nat} (h : g.Refers keep' v u) :
    g.Refers keep v u := by
  obtain ⟨index, e, he, ha, hv, hlt⟩ := h
  exact ⟨index, e, he, hkeep _ ha, hv, hlt⟩

/-- Where references cannot be followed for ever, no circuit begins. -/
theorem not_isCircuit_of_acc {keep : Arc → Prop} {u : Nat} (h : Acc (g.Refers keep) u) :
    ∀ a arcs, a.source = u → (∀ b ∈ a :: arcs, keep b) → ¬ g.IsCircuit (a :: arcs) := by
  induction h with
  | intro u _ ih =>
    intro a arcs ha hkeep hc
    obtain ⟨b, hb, e, he, htarget, hlt⟩ := hc.leads
    obtain ⟨rest, hrest⟩ : ∃ rest, arcs ++ [a] = b :: rest := by
      cases harcs : arcs ++ [a] with
      | nil => rw [harcs] at hb; cases hb
      | cons x rest => rw [harcs] at hb; cases hb; exact ⟨rest, rfl⟩
    have hstep : g.Refers keep b.source u :=
      ⟨a.index, e, ha ▸ he, ha ▸ hkeep a List.mem_cons_self, htarget, htarget ▸ hlt⟩
    refine ih b.source hstep b rest rfl (fun x hx => hkeep x ?_) (hrest ▸ hc.rotate)
    rw [← hrest] at hx
    rcases List.mem_append.mp hx with hx | hx
    · exact List.mem_cons_of_mem _ hx
    · rw [List.mem_singleton.mp hx]; exact List.mem_cons_self

theorem exists_not_keep {keep : Arc → Prop} (h : ∀ u < g.size, Acc (g.Refers keep) u) {arcs : List Arc}
    (hc : g.IsCircuit arcs) : ∃ a ∈ arcs, ¬ keep a := by
  by_contra hall
  push Not at hall
  cases arcs with
  | nil => exact hc.ne_nil rfl
  | cons a arcs =>
    obtain ⟨b, hb, e, he, htarget, hlt⟩ := hc.leads
    -- the circuit one arc further on begins at a schema in range
    cases harcs : arcs ++ [a] with
    | nil => rw [harcs] at hb; cases hb
    | cons x rest =>
      rw [harcs] at hb
      cases hb
      refine not_isCircuit_of_acc (h b.source (htarget ▸ hlt)) b rest rfl (fun y hy => hall y ?_)
        (harcs ▸ hc.rotate)
      rw [← harcs] at hy
      rcases List.mem_append.mp hy with hy | hy
      · exact List.mem_cons_of_mem _ hy
      · rw [List.mem_singleton.mp hy]; exact List.mem_cons_self

/-- Where references cannot be followed for ever, there is no circuit. -/
theorem acyclic_of_acc (h : ∀ u < g.size, Acc (g.Refers fun _ => True) u) : g.Acyclic := by
  intro arcs hc
  obtain ⟨a, _, ha⟩ := exists_not_keep h hc
  exact ha trivial

/-- An edge of the graph without `arcs` is an edge of the graph at an arc not among them. -/
theorem edge?_without {arcs : List Arc} {a : Arc} {e : Edge} (h : (g.without arcs).edge? a = some e) :
    ∃ index, g.edge? ⟨a.source, index⟩ = some e ∧ (⟨a.source, index⟩ : Arc) ∉ arcs := by
  simp only [edge?, edgesOf, without, List.getElem?_mapIdx] at h
  rcases hes : g.edges[a.source]? with _ | es
  · simp [hes] at h
  · have hmem := List.mem_of_getElem? h
    simp only [hes, Option.map_some, Option.getD_some, List.mem_map, List.mem_filter] at hmem
    obtain ⟨⟨e', index⟩, ⟨hzip, hnot⟩, rfl⟩ := hmem
    refine ⟨index, ?_, by simpa using hnot⟩
    simpa [edge?, edgesOf, hes] using List.mem_zipIdx_iff_getElem?.mp hzip

theorem acyclic_without {arcs : List Arc} (h : ∀ u < g.size, Acc (g.Refers fun a => a ∉ arcs) u) :
    (g.without arcs).Acyclic := by
  refine acyclic_of_acc fun u hu => Subrelation.accessible ?_ (h u hu)
  intro v u hvu
  obtain ⟨index, e, he, _, htarget, hlt⟩ := hvu
  obtain ⟨index', he', hnot⟩ := edge?_without he
  exact ⟨index', e, he', hnot, htarget, hlt⟩

/-! ## The path of the search -/

/-- The marks tell what is on the path. -/
structure Tracked (g : ReferenceGraph) (s : Search) : Prop where
  length : s.marks.length = g.size
  nodup : s.path.Nodup
  mem_path : ∀ i, i ∈ s.path ↔ s.marks[i]? = some .onPath

theorem Tracked.extends {s t : Search} (h : Tracked g s) (he : Extends s t) : Tracked g t :=
  ⟨he.length.trans h.length, he.path ▸ h.nodup,
    fun i => by rw [he.path, h.mem_path i, he.onPath i]⟩

theorem Tracked.enter {s : Search} {schema : Nat} (h : Tracked g s)
    (hs : s.marks[schema]? = some .unvisited) : Tracked g (s.enter schema) := by
  have hnot : schema ∉ s.path := fun hmem => by rw [h.mem_path, hs] at hmem; cases hmem
  refine ⟨by simpa [Search.enter] using h.length, ?_, ?_⟩
  · show (s.path ++ [schema]).Nodup
    rw [List.nodup_append]
    refine ⟨h.nodup, by simp, ?_⟩
    intro a ha b hb hab
    rw [List.mem_singleton.mp hb] at hab
    exact hnot (hab ▸ ha)
  · intro i
    by_cases hi : i = schema
    · subst hi
      have hmem : i ∈ (s.enter i).path := List.mem_append_right _ List.mem_cons_self
      exact ⟨fun _ => Search.marks_enter hs, fun _ => hmem⟩
    · rw [Search.marks_enter_ne s hi, ← h.mem_path i]
      simp [Search.enter, hi]

theorem Tracked.lt_size {s : Search} {i : Nat} {m : Mark} (h : Tracked g s) (hi : s.marks[i]? = some m) :
    i < g.size := h.length ▸ (List.getElem?_eq_some_iff.mp hi).1

/-- The schemas on the path were entered by `arcs`, and the arc to be taken next is
`⟨source, index⟩`. -/
structure Trail (g : ReferenceGraph) (before : List Event) (arcs : List Arc) (source index : Nat) (s : Search) :
    Prop where
  path : s.path = (arcs ++ [Arc.mk source index]).map (·.source)
  chain : (arcs ++ [Arc.mk source index]).IsChain g.Leads
  entered : ∀ b ∈ arcs, .entered b ∈ before

theorem Trail.next {before before' : List Event} {arcs : List Arc} {source index : Nat} {s t : Search}
    (h : Trail g before arcs source index s) (hpath : t.path = s.path) (hbefore : before ⊆ before') :
    Trail g before' arcs source (index + 1) t := by
  refine ⟨by rw [hpath, h.path]; simp, ?_, fun b hb => hbefore (h.entered b hb)⟩
  have := h.chain
  rw [List.isChain_append] at this ⊢
  refine ⟨this.1, .singleton _, ?_⟩
  intro x hx y hy
  simp only [List.head?_cons, Option.mem_def, Option.some.injEq] at hy
  subst hy
  exact this.2.2 x hx ⟨source, index⟩ rfl

theorem Trail.enter {before : List Event} {arcs : List Arc} {source index : Nat} {s : Search} {e : Edge}
    (h : Trail g before arcs source index s) (he : g.edge? ⟨source, index⟩ = some e) (hlt : e.target < g.size) :
    Trail g (before ++ [.entered ⟨source, index⟩]) (arcs ++ [Arc.mk source index]) e.target 0
      (s.enter e.target) := by
  refine ⟨by simp [Search.enter, h.path], ?_, ?_⟩
  · rw [List.isChain_append]
    refine ⟨h.chain, .singleton _, ?_⟩
    intro x hx y hy
    simp only [List.getLast?_concat, Option.mem_def, Option.some.injEq] at hx
    simp only [List.head?_cons, Option.mem_def, Option.some.injEq] at hy
    subst hx hy
    exact ⟨e, he, rfl, hlt⟩
  · intro b hb
    rcases List.mem_append.mp hb with hb | hb
    · exact List.mem_append_left _ (h.entered b hb)
    · exact List.mem_append_right _ (by simpa using hb)

/-- What is known of a closing arc and the circle it was reported with. -/
def Reported (g : ReferenceGraph) (events : List Event) (a : Arc) (c : Cycle) : Prop :=
  ∃ arcs, g.Reports arcs a c ∧ ∀ b ∈ arcs, .entered b ∈ events

theorem Reported.mono {events events' : List Event} (hsub : events ⊆ events') {a : Arc} {c : Cycle}
    (h : g.Reported events a c) : g.Reported events' a c := by
  obtain ⟨arcs, hr, hentered⟩ := h
  exact ⟨arcs, hr, fun b hb => hsub (hentered b hb)⟩

/-- The arcs of the path from a schema on it. -/
theorem Trail.exists_rest {before : List Event} {arcs : List Arc} {source index : Nat} {s : Search}
    (h : Trail g before arcs source index s) {v : Nat} (hv : v ∈ s.path) :
    ∃ rest, s.path.dropWhile (· != v) = (rest ++ [Arc.mk source index]).map (·.source) ∧
      rest ++ [Arc.mk source index] <:+ arcs ++ [Arc.mk source index] ∧
      ∀ b ∈ (rest ++ [Arc.mk source index]).head?, b.source = v := by
  obtain ⟨circle, hcircle⟩ : ∃ circle, circle = (arcs ++ [Arc.mk source index]).dropWhile
      (fun b : Arc => b.source != v) := ⟨_, rfl⟩
  have hdrop : s.path.dropWhile (· != v) = circle.map (·.source) := by
    rw [h.path, List.dropWhile_map, hcircle]
    rfl
  have hsuffix : circle <:+ arcs ++ [Arc.mk source index] := hcircle ▸ List.dropWhile_suffix _
  have hne : circle ≠ [] := by
    intro hnil
    rw [hcircle, List.dropWhile_eq_nil_iff] at hnil
    rw [h.path, List.mem_map] at hv
    obtain ⟨b, hb, hbv⟩ := hv
    have := hnil b hb
    simp [hbv] at this
  have hhead : ∀ b ∈ circle.head?, b.source = v := by
    intro b hb
    have := List.head?_dropWhile_not (fun b : Arc => b.source != v) (arcs ++ [Arc.mk source index])
    rw [← hcircle, Option.mem_def.mp hb] at this
    simpa using this
  obtain ⟨pre, hpre⟩ := hsuffix
  have hlast : circle.getLast hne = ⟨source, index⟩ := by
    have : (pre ++ circle).getLast? = some (Arc.mk source index) := by rw [hpre]; simp
    rw [List.getLast?_append_of_ne_nil _ hne, List.getLast?_eq_getLast_of_ne_nil hne] at this
    exact Option.some.inj this
  have hrest : circle = circle.dropLast ++ [Arc.mk source index] := by
    rw [← hlast, List.dropLast_append_getLast]
  rw [hrest] at hdrop hpre hhead
  exact ⟨circle.dropLast, hdrop, ⟨pre, hpre⟩, hhead⟩

/-- An edge to a schema on the path closes an elementary circuit. -/
theorem Trail.close {before : List Event} {arcs : List Arc} {source index : Nat} {s : Search} {e : Edge}
    (h : Trail g before arcs source index s) (ht : Tracked g s) (he : g.edge? ⟨source, index⟩ = some e)
    (hm : s.marks[e.target]? = some .onPath) :
    ∃ c, (g.close s e).cycles = s.cycles ++ [c] ∧ g.Reported before ⟨source, index⟩ c := by
  obtain ⟨rest, hdrop, hsuffix, hhead⟩ := h.exists_rest ((ht.mem_path _).mpr hm)
  have hcircuit : g.IsCircuit (rest ++ [Arc.mk source index]) := by
    refine ⟨by simp, h.chain.suffix hsuffix, ?_⟩
    intro x hx y hy
    rw [List.getLast?_concat] at hx
    cases hx
    exact ⟨e, he, (hhead y hy).symm, ht.lt_size hm⟩
  have hnodup : ((rest ++ [Arc.mk source index]).map (·.source)).Nodup :=
    (List.IsSuffix.map _ hsuffix).sublist.nodup (h.path ▸ ht.nodup)
  have hentered : ∀ b ∈ rest, .entered b ∈ before := by
    intro b hb
    rcases List.mem_append.mp (hsuffix.subset (List.mem_append_left _ hb)) with hb' | hb'
    · exact h.entered b hb'
    · -- the closing arc does not stand twice on its own circuit
      exfalso
      rw [List.map_append, List.nodup_append] at hnodup
      exact hnodup.2.2 _ (List.mem_map_of_mem hb) source (by simp) (by rw [List.mem_singleton.mp hb'])
  refine ⟨⟨((rest ++ [Arc.mk source index]).map (·.source) ++ [e.target]).map g.label, e.place⟩, ?_, rest,
    ⟨⟨hcircuit, hnodup⟩, ?_, by simp [he]⟩, hentered⟩
  · unfold ReferenceGraph.close
    rw [hdrop]
    split
    · rename_i hnil
      simp at hnil
    · rfl
  · -- the circuit begins where the edge leads to
    cases rest with
    | nil => simp [← hhead _ rfl]
    | cons b rest => simp [← hhead b rfl]

theorem edge?_of_drop {source index : Nat} {e : Edge} {es : List Edge}
    (h : e :: es = (g.edgesOf source).drop index) : g.edge? ⟨source, index⟩ = some e := by
  have := congrArg (·[0]?) h
  simpa [edge?, List.getElem?_drop] using this.symm

theorem drop_succ_of_drop {source index : Nat} {e : Edge} {es : List Edge}
    (h : e :: es = (g.edgesOf source).drop index) : es = (g.edgesOf source).drop (index + 1) := by
  have := congrArg List.tail h
  simpa [List.tail_drop] using this

theorem closings_append (events events' : List Event) :
    closings (events ++ events') = closings events ++ closings events' := List.filterMap_append

/-- The reports of two runs, one after the other. -/
theorem reported_append {before events events' : List Event} {new new' : List Cycle}
    (h : List.Forall₂ (g.Reported (before ++ events)) (closings events) new)
    (h' : List.Forall₂ (g.Reported (before ++ events ++ events')) (closings events') new') :
    List.Forall₂ (g.Reported (before ++ (events ++ events'))) (closings (events ++ events')) (new ++ new') := by
  rw [closings_append, ← List.append_assoc]
  refine List.rel_append (R := g.Reported _) ?_ h'
  exact h.imp fun a c => Reported.mono (List.subset_append_left _ _)

theorem Follows.reports {source index : Nat} {es : List Edge} {s t : Search} {events : List Event}
    (h : Follows g source index es s events t) : ∀ (before : List Event) (arcs : List Arc),
    Tracked g s → Trail g before arcs source index s → es = (g.edgesOf source).drop index →
    ∃ new, t.cycles = s.cycles ++ new ∧
      List.Forall₂ (g.Reported (before ++ events)) (closings events) new := by
  induction h with
  | nil => intro before arcs _ _ _; exact ⟨[], by simp, .nil⟩
  | @enter source index e es s s' s'' inner rest unvisited below next ihBelow ihNext =>
    intro before arcs ht htrail hes
    have hext := Extends.enter_leave unvisited below.extends
    obtain ⟨new, hnew, hreported⟩ := ihBelow _ _ (ht.enter unvisited)
      (htrail.enter (edge?_of_drop hes) (ht.lt_size unvisited)) rfl
    obtain ⟨new', hnew', hreported'⟩ := ihNext (before ++ .entered ⟨source, index⟩ :: inner) arcs
      (ht.extends hext) (htrail.next hext.path (List.subset_append_left _ _)) (drop_succ_of_drop hes)
    refine ⟨new ++ new', ?_, ?_⟩
    · rw [hnew', ← List.append_assoc]
      exact congrArg (· ++ new') hnew
    · rw [List.append_assoc] at hreported
      have hboth := reported_append hreported hreported'
      exact hboth
  | @close source index e es s s' rest onPath next ih =>
    intro before arcs ht htrail hes
    obtain ⟨c, hc, hreported⟩ := htrail.close ht (edge?_of_drop hes) onPath
    have hext := Extends.close (g := g) s e
    obtain ⟨new, hnew, hreported'⟩ := ih (before ++ [.closed ⟨source, index⟩]) arcs (ht.extends hext)
      (htrail.next hext.path (List.subset_append_left _ _)) (drop_succ_of_drop hes)
    refine ⟨c :: new, by rw [hnew, hc]; simp, .cons ?_ ?_⟩
    · exact hreported.mono (List.subset_append_left _ _)
    · exact hreported'.imp fun a c => Reported.mono (by simp)
  | @pass source index e es s s' rest settled next ih =>
    intro before arcs ht htrail hes
    exact ih before arcs ht (htrail.next rfl (List.Subset.refl _)) (drop_succ_of_drop hes)

/-- Every circle that a run reports is a circuit ending in the arc that closed it; all other arcs
of the circuit were entered. -/
theorem Sweeps.reports {schemas : List Nat} {s t : Search} {events : List Event}
    (h : Sweeps g schemas s events t) : ∀ before : List Event, Tracked g s → s.path = [] →
    ∃ new, t.cycles = s.cycles ++ new ∧
      List.Forall₂ (g.Reported (before ++ events)) (closings events) new := by
  induction h with
  | nil => intro before _ _; exact ⟨[], by simp, .nil⟩
  | @enter schema schemas s s' s'' inner rest unvisited below next ih =>
    intro before ht hpath
    have hext := Extends.enter_leave unvisited below.extends
    have htrail : Trail g before [] schema 0 (s.enter schema) :=
      ⟨by simp [Search.enter, hpath], .singleton _, fun b hb => by cases hb⟩
    obtain ⟨new, hnew, hreported⟩ := below.reports before [] (ht.enter unvisited) htrail rfl
    obtain ⟨new', hnew', hreported'⟩ := ih (before ++ inner) (ht.extends hext) (hext.path.trans hpath)
    refine ⟨new ++ new', ?_, ?_⟩
    · rw [hnew', ← List.append_assoc]
      exact congrArg (· ++ new') hnew
    · exact reported_append hreported hreported'
  | pass _ _ _ ih => exact ih

/-! ## What is done -/

/-- A kept arc out of what is done stays in it, and kept arcs cannot be followed for ever. -/
structure Settled (g : ReferenceGraph) (events : List Event) (s : Search) : Prop where
  inside : ∀ u v, s.marks[u]? = some .done → g.Refers (fun a => a ∉ closings events) v u →
    s.marks[v]? = some .done
  acc : ∀ u, s.marks[u]? = some .done → Acc (g.Refers fun a => a ∉ closings events) u

/-- Further closing arcs only take references away. -/
theorem Settled.mono {events events' : List Event} {s s' : Search} (h : Settled g events s)
    (hsub : closings events ⊆ closings events')
    (hdone : ∀ i : Nat, s'.marks[i]? = some .done ↔ s.marks[i]? = some .done) : Settled g events' s' := by
  have hrefers : ∀ {v u}, g.Refers (fun a => a ∉ closings events') v u →
      g.Refers (fun a => a ∉ closings events) v u := by
    intro v u hvu
    exact hvu.mono fun a hnot hmem => hnot (hsub hmem)
  constructor
  · intro u v hu hvu
    rw [hdone] at hu ⊢
    exact h.inside u v hu (hrefers hvu)
  · intro u hu
    rw [hdone] at hu
    exact Subrelation.accessible hrefers (h.acc u hu)

theorem Settled.enter {events events' : List Event} {s : Search} {schema : Nat} (h : Settled g events s)
    (hs : s.marks[schema]? = some .unvisited) (hsub : closings events ⊆ closings events') :
    Settled g events' (s.enter schema) := by
  refine h.mono hsub ?_
  intro i
  by_cases hi : i = schema
  · subst hi; simp [Search.marks_enter hs, hs]
  · rw [Search.marks_enter_ne s hi]

/-- A schema all of whose kept arcs lead to what is done may be left. -/
theorem Settled.leave {events : List Event} {t : Search} {schema : Nat} (h : Settled g events t)
    (hdone : (t.leave schema).marks[schema]? = some .done)
    (hall : ∀ i e, g.edge? ⟨schema, i⟩ = some e → e.target < g.size → (⟨schema, i⟩ : Arc) ∉ closings events →
      t.marks[e.target]? = some .done) : Settled g events (t.leave schema) := by
  have hdone' : ∀ v, g.Refers (fun a => a ∉ closings events) v schema → t.marks[v]? = some .done := by
    rintro v ⟨i, e, he, hkeep, rfl, hlt⟩
    exact hall i e he hlt hkeep
  have hmark : ∀ i : Nat, (t.leave schema).marks[i]? = some .done ↔ i = schema ∨ t.marks[i]? = some .done := by
    intro i
    by_cases hi : i = schema
    · subst hi; simp [hdone]
    · simp [Search.marks_leave_ne t hi, hi]
  constructor
  · intro u v hu hvu
    rw [hmark] at hu ⊢
    rcases hu with rfl | hu
    · exact Or.inr (hdone' v hvu)
    · exact Or.inr (h.inside u v hu hvu)
  · intro u hu
    rw [hmark] at hu
    rcases hu with rfl | hu
    · exact Acc.intro _ fun v hvu => h.acc v (hdone' v hvu)
    · exact h.acc u hu

theorem Follows.settles {source index : Nat} {es : List Edge} {s t : Search} {events : List Event}
    (h : Follows g source index es s events t) : ∀ before : List Event, s.marks.length = g.size →
    es = (g.edgesOf source).drop index → Settled g before s → Settled g (before ++ events) t ∧
      ∀ i e, index ≤ i → g.edge? ⟨source, i⟩ = some e → e.target < g.size →
        (⟨source, i⟩ : Arc) ∉ closings (before ++ events) → t.marks[e.target]? = some .done := by
  induction h with
  | @nil source index s =>
    intro before _ hes hs
    refine ⟨by simpa using hs, ?_⟩
    intro i e hi he _ _
    have hlen := List.drop_eq_nil_iff.mp hes.symm
    have := (List.getElem?_eq_some_iff.mp he).1
    simp only at this
    omega
  | @enter source index e es s s' s'' inner rest unvisited below next ihBelow ihNext =>
    intro before hlen hes hs
    have hext := Extends.enter_leave unvisited below.extends
    have hdone := Search.marks_leave unvisited below.extends.length
    have hlen' : (s'.leave e.target).marks.length = g.size := hext.length.trans hlen
    obtain ⟨hs', hall⟩ := ihBelow (before ++ [.entered ⟨source, index⟩])
      (by simpa [Search.enter] using hlen) rfl (hs.enter unvisited (by simp [closings_append]))
    have hleave : Settled g (before ++ [.entered ⟨source, index⟩] ++ inner) (s'.leave e.target) := by
      refine hs'.leave hdone ?_
      intro i e' he' hlt hkeep
      exact hall i e' (Nat.zero_le _) he' hlt hkeep
    obtain ⟨ht, hrest⟩ := ihNext _ hlen' (drop_succ_of_drop hes) hleave
    have hevents : before ++ .entered ⟨source, index⟩ :: (inner ++ rest) =
        before ++ [.entered ⟨source, index⟩] ++ inner ++ rest := by simp
    rw [hevents]
    refine ⟨ht, ?_⟩
    intro i e' hi he' hlt hkeep
    rcases Nat.eq_or_lt_of_le hi with rfl | hi
    · rw [edge?_of_drop hes] at he'
      cases he'
      exact next.extends.done _ hdone
    · exact hrest i e' hi he' hlt hkeep
  | @close source index e es s s' rest onPath next ih =>
    intro before hlen hes hs
    have hmarks : (g.close s e).marks = s.marks := marks_close s e
    have hsub : closings before ⊆ closings (before ++ [.closed ⟨source, index⟩]) := by
      rw [closings_append]; exact List.subset_append_left _ _
    obtain ⟨ht, hrest⟩ := ih (before ++ [.closed ⟨source, index⟩]) (by rw [hmarks]; exact hlen)
      (drop_succ_of_drop hes) (hs.mono hsub fun i => by rw [hmarks])
    have hevents : before ++ .closed ⟨source, index⟩ :: rest = before ++ [.closed ⟨source, index⟩] ++ rest := by
      simp
    rw [hevents]
    refine ⟨ht, ?_⟩
    intro i e' hi he' hlt hkeep
    rcases Nat.eq_or_lt_of_le hi with rfl | hi
    · exact absurd (by simp [closings]) hkeep
    · exact hrest i e' hi he' hlt hkeep
  | @pass source index e es s s' rest settled next ih =>
    intro before hlen hes hs
    obtain ⟨ht, hrest⟩ := ih before hlen (drop_succ_of_drop hes) hs
    refine ⟨ht, ?_⟩
    intro i e' hi he' hlt hkeep
    rcases Nat.eq_or_lt_of_le hi with rfl | hi
    · rw [edge?_of_drop hes] at he'
      cases he'
      rcases settled with hd | hnone
      · exact next.extends.done _ hd
      · rw [List.getElem?_eq_none_iff] at hnone; omega
    · exact hrest i e' hi he' hlt hkeep

theorem Sweeps.settles {schemas : List Nat} {s t : Search} {events : List Event}
    (h : Sweeps g schemas s events t) : ∀ before : List Event, s.marks.length = g.size →
    Settled g before s → Settled g (before ++ events) t := by
  induction h with
  | nil => intro before _ hs; simpa using hs
  | @enter schema schemas s s' s'' inner rest unvisited below next ih =>
    intro before hlen hs
    have hext := Extends.enter_leave unvisited below.extends
    obtain ⟨hs', hall⟩ := below.settles before (by simpa [Search.enter] using hlen) rfl
      (hs.enter unvisited (List.Subset.refl _))
    have hleave : Settled g (before ++ inner) (s'.leave schema) := by
      refine hs'.leave (Search.marks_leave unvisited below.extends.length) ?_
      intro i e he hlt hkeep
      exact hall i e (Nat.zero_le _) he hlt hkeep
    rw [← List.append_assoc]
    exact ih _ (hext.length.trans hlen) hleave
  | pass _ _ _ ih => exact ih

/-! ## The search -/

theorem tracked_start (g : ReferenceGraph) : Tracked g g.start := by
  refine ⟨by simp [start], by simp [start], ?_⟩
  intro i
  simp [start, List.getElem?_replicate]

/-- References that closed nothing cannot be followed for ever. -/
theorem Sweeps.acc {t : Search} {events : List Event} (h : Sweeps g (List.range g.size) g.start events t) :
    ∀ u < g.size, Acc (g.Refers fun a => a ∉ closings events) u := by
  intro u hu
  have hnotDone : ∀ i : Nat, g.start.marks[i]? ≠ some .done := by
    simp [start, List.getElem?_replicate]
  have hnotOnPath : ∀ i : Nat, g.start.marks[i]? ≠ some .onPath := by
    simp [start, List.getElem?_replicate]
  have hsettled := h.settles [] (tracked_start g).length
    ⟨fun i _ hi => absurd hi (hnotDone i), fun i hi => absurd hi (hnotDone i)⟩
  exact hsettled.acc u (h.done hnotOnPath u (List.mem_range.mpr hu))

/-- Where no circle is reported, references cannot be followed for ever. -/
theorem acc_of_cycles_eq_nil (h : g.cycles = []) : ∀ u < g.size, Acc (g.Refers fun _ => True) u := by
  intro u hu
  obtain ⟨events, hsweeps⟩ := g.search_sweeps
  obtain ⟨cycles, hcycles, hreported⟩ := hsweeps.reports [] (tracked_start g) rfl
  have hnil : closings events = [] := by
    rw [show cycles = [] from hcycles.symm.trans h] at hreported
    exact List.forall₂_nil_right_iff.mp hreported
  refine Subrelation.accessible (fun {a b} hab => hab.mono ?_) (hsweeps.acc u hu)
  intro arc _
  rw [hnil]
  exact List.not_mem_nil

/-- A circle is reported if there is a circuit. -/
theorem cycles_eq_nil_iff : g.cycles = [] ↔ g.Acyclic := by
  refine ⟨fun h => acyclic_of_acc (acc_of_cycles_eq_nil h), fun h => ?_⟩
  obtain ⟨events, hsweeps⟩ := g.search_sweeps
  obtain ⟨cycles, hcycles, hreported⟩ := hsweeps.reports [] (tracked_start g) rfl
  replace hcycles : g.cycles = cycles := hcycles
  cases cycles with
  | nil => exact hcycles
  | cons c cs =>
    obtain ⟨a, as, ⟨arcs, hr, _⟩, _, _⟩ := List.forall₂_cons_right_iff.mp hreported
    exact absurd hr.elementary.1 (h _)

/-- An arc that closed a circle was not used to enter a schema. -/
theorem not_entered_of_closed {events : List Event} (h : (events.map Event.arc).Nodup) {a : Arc}
    (ha : a ∈ closings events) : .entered a ∉ events := by
  intro hentered
  have hclosed : .closed a ∈ events := by
    simp only [closings, List.mem_filterMap] at ha
    obtain ⟨ev, hev, hsome⟩ := ha
    cases ev with
    | entered b => cases hsome
    | closed b => cases hsome; exact hev
  have := List.inj_on_of_nodup_map h hentered hclosed rfl
  cases this

theorem nodup_closings {events : List Event} (h : (events.map Event.arc).Nodup) : (closings events).Nodup := by
  have hsub : (closings events).Sublist (events.map Event.arc) := by
    induction events with
    | nil => exact .slnil
    | cons ev events ih =>
      have ih := ih (List.nodup_cons.mp h).2
      cases ev with
      | entered b => exact ih.cons _
      | closed b => exact ih.cons_cons _
  exact hsub.nodup h

/-- A graph with one elementary circuit, up to where it begins, has one arc that closes it. -/
theorem length_closings_of_unique {events : List Event} {cycles : List Cycle}
    (hnodup : (events.map Event.arc).Nodup)
    (hreported : List.Forall₂ (g.Reported events) (closings events) cycles)
    (hall : ∀ arcs, g.IsCircuit arcs → ∃ a ∈ arcs, a ∈ closings events) {arcs : List Arc}
    (harcs : g.IsElementary arcs) (hunique : ∀ arcs', g.IsElementary arcs' → arcs' ~r arcs) :
    (closings events).length = 1 := by
  obtain ⟨a, _, ha⟩ := hall arcs harcs.1
  have hwitness : ∀ b ∈ closings events, ∃ rest, g.IsElementary (rest ++ [b]) ∧
      ∀ x ∈ rest, .entered x ∈ events := by
    intro b hb
    obtain ⟨i, hi⟩ := List.mem_iff_getElem?.mp hb
    obtain ⟨hlt, hget⟩ := List.getElem?_eq_some_iff.mp hi
    obtain ⟨rest, hr, hentered⟩ := hreported.get hlt (hreported.length_eq ▸ hlt)
    rw [List.get_eq_getElem, hget] at hr
    exact ⟨rest, hr.elementary, hentered⟩
  -- another closing arc would stand on the circuit of `a`, where all others were entered
  have hsame : ∀ b ∈ closings events, b = a := by
    intro b hb
    obtain ⟨rest, hrest, hentered⟩ := hwitness a ha
    obtain ⟨rest', hrest', _⟩ := hwitness b hb
    have hrot : rest' ++ [b] ~r rest ++ [a] := (hunique _ hrest').trans (hunique _ hrest).symm
    have hmem : b ∈ rest ++ [a] := hrot.mem_iff.mp (by simp)
    rcases List.mem_append.mp hmem with hmem | hmem
    · exact absurd (hentered b hmem) (not_entered_of_closed hnodup hb)
    · exact List.mem_singleton.mp hmem
  have hle : closings events ⊆ [a] := fun b hb => List.mem_singleton.mpr (hsame b hb)
  have := (List.subperm_of_subset (nodup_closings hnodup) hle).length_le
  have hpos := List.length_pos_of_mem ha
  simp only [List.length_singleton] at this
  omega

/-- The search for circles among any schemas comes to an end without leaving the list of marks.
Every circle reported names the schemas of an elementary circuit, at the arc that ends it. Every
circuit has an arc that was reported, so nothing is reported exactly if there is no circuit, and
none is left without the reported arcs. No arc is reported twice, so a single elementary circuit
gives a single report. -/
theorem cycles_search (schemas : Keyed Schema) :
    ∃ events, Sweeps (ofSchemas schemas) (List.range schemas.length) (ofSchemas schemas).start events
        (ofSchemas schemas).search ∧
      List.Forall₂ (fun a c => ∃ arcs, (ofSchemas schemas).Reports arcs a c) (closings events)
        (ofSchemas schemas).cycles ∧
      (∀ arcs, (ofSchemas schemas).IsCircuit arcs → ∃ a ∈ arcs, a ∈ closings events) ∧
      ((ofSchemas schemas).cycles = [] ↔ (ofSchemas schemas).Acyclic) ∧
      ((ofSchemas schemas).without (closings events)).Acyclic ∧
      (closings events).Nodup ∧
      ∀ arcs, (ofSchemas schemas).IsElementary arcs →
        (∀ arcs', (ofSchemas schemas).IsElementary arcs' → arcs' ~r arcs) →
        (ofSchemas schemas).cycles.length = 1 := by
  obtain ⟨g, hg⟩ : ∃ g, g = ofSchemas schemas := ⟨_, rfl⟩
  have hsize : g.size = schemas.length := by simp [hg, size, ofSchemas, Keyed.keys]
  rw [← hg, ← hsize]
  obtain ⟨events, hsweeps⟩ := g.search_sweeps
  obtain ⟨cycles, hcycles, hreported⟩ := hsweeps.reports [] (tracked_start g) rfl
  replace hcycles : g.cycles = cycles := hcycles
  subst hcycles
  have hacc := hsweeps.acc
  have hall : ∀ arcs, g.IsCircuit arcs → ∃ a ∈ arcs, a ∈ closings events := fun arcs hc => by
    simpa using exists_not_keep hacc hc
  have hlength : (closings events).length = g.cycles.length := hreported.length_eq
  refine ⟨events, hsweeps, ?_, hall, ⟨?_, ?_⟩, acyclic_without hacc, nodup_closings hsweeps.nodup, ?_⟩
  · refine hreported.imp ?_
    rintro a c ⟨arcs, h, _⟩
    exact ⟨arcs, h⟩
  · intro hnil arcs hc
    obtain ⟨a, _, ha⟩ := hall arcs hc
    rw [hnil] at hlength
    rw [List.eq_nil_of_length_eq_zero hlength] at ha
    cases ha
  · intro hacyclic
    cases hcs : g.cycles with
    | nil => rfl
    | cons c cs =>
      rw [hcs] at hreported
      obtain ⟨a, as, ⟨arcs, hr, _⟩, _, _⟩ := List.forall₂_cons_right_iff.mp hreported
      exact absurd hr.elementary.1 (hacyclic _)
  · intro arcs harcs hunique
    rw [← hlength]
    exact length_closings_of_unique hsweeps.nodup hreported hall harcs hunique

end ReferenceGraph

end BindingSchema
