import BindingSchema.ReferenceGraph

/-!
The search for circles as a run, without the bound on its depth.

`Follows` says what the search does with the edges of one schema, `Sweeps` what it does with the
schemas one after the other. A run is a finite derivation, and a schema is only entered if it has
a mark, so the marks are never written outside their list. An edge is told apart from others to
the same schema by the arc it is (`Arc`), and a run keeps the arcs by which it entered a schema
and those by which it closed a circle.

Proved:
- `search_sweeps`: the search is a run over all schemas; the bound is never met, since every
  schema that is entered takes one from the unvisited ones (`Follows.count_le`).
- `Follows.deterministic`, `Sweeps.deterministic`: there is one run.
- `Follows.extends`: following edges leaves the path as it was and no mark but unvisited ones
  changes.
- `Sweeps.nodup`: no arc is taken twice, neither to enter nor to close.
- `Sweeps.done`: at the end everything has been searched.
-/

namespace BindingSchema

/-- An edge by the schema it leaves and its place among that schema's edges. -/
structure Arc where
  source : Nat
  index : Nat
  deriving DecidableEq

namespace ReferenceGraph

variable {g : ReferenceGraph}

def edge? (g : ReferenceGraph) (a : Arc) : Option Edge := (g.edgesOf a.source)[a.index]?

/-- What the search did at an arc that it did not pass over. -/
inductive Event where
  | entered (arc : Arc)
  | closed (arc : Arc)
  deriving DecidableEq

def Event.arc : Event → Arc
  | .entered a => a
  | .closed a => a

/-- The arcs that closed a circle, in the order in which they did. -/
def closings (events : List Event) : List Arc :=
  events.filterMap fun
    | .closed a => some a
    | .entered _ => none

namespace Search

def enter (s : Search) (schema : Nat) : Search :=
  { s with marks := s.marks.set schema .onPath, path := s.path ++ [schema] }

def leave (s : Search) (schema : Nat) : Search :=
  { s with marks := s.marks.set schema .done, path := s.path.dropLast }

end Search

/-- No schema has been searched. -/
def start (g : ReferenceGraph) : Search := { marks := List.replicate g.size .unvisited }

/-- The edges `es` of `source`, the first of which is the arc `⟨source, index⟩`, are followed. -/
inductive Follows (g : ReferenceGraph) : Nat → Nat → List Edge → Search → List Event → Search → Prop
  | nil {source index : Nat} {s : Search} : Follows g source index [] s [] s
  | enter {source index : Nat} {e : Edge} {es : List Edge} {s s' s'' : Search} {inner rest : List Event}
      (unvisited : s.marks[e.target]? = some .unvisited)
      (below : Follows g e.target 0 (g.edgesOf e.target) (s.enter e.target) inner s')
      (next : Follows g source (index + 1) es (s'.leave e.target) rest s'') :
      Follows g source index (e :: es) s (.entered ⟨source, index⟩ :: (inner ++ rest)) s''
  | close {source index : Nat} {e : Edge} {es : List Edge} {s s' : Search} {rest : List Event}
      (onPath : s.marks[e.target]? = some .onPath)
      (next : Follows g source (index + 1) es (g.close s e) rest s') :
      Follows g source index (e :: es) s (.closed ⟨source, index⟩ :: rest) s'
  | pass {source index : Nat} {e : Edge} {es : List Edge} {s s' : Search} {rest : List Event}
      (settled : s.marks[e.target]? = some .done ∨ s.marks[e.target]? = none)
      (next : Follows g source (index + 1) es s rest s') :
      Follows g source index (e :: es) s rest s'

/-- Each of `schemas` is searched unless it has been. All of them have a mark. -/
inductive Sweeps (g : ReferenceGraph) : List Nat → Search → List Event → Search → Prop
  | nil {s : Search} : Sweeps g [] s [] s
  | enter {schema : Nat} {schemas : List Nat} {s s' s'' : Search} {inner rest : List Event}
      (unvisited : s.marks[schema]? = some .unvisited)
      (below : Follows g schema 0 (g.edgesOf schema) (s.enter schema) inner s')
      (next : Sweeps g schemas (s'.leave schema) rest s'') :
      Sweeps g (schema :: schemas) s (inner ++ rest) s''
  | pass {schema : Nat} {schemas : List Nat} {s s' : Search} {rest : List Event}
      (inRange : schema < s.marks.length) (settled : s.marks[schema]? ≠ some .unvisited)
      (next : Sweeps g schemas s rest s') :
      Sweeps g (schema :: schemas) s rest s'

/-! ## One run -/

theorem Follows.deterministic {source index : Nat} {es : List Edge} {s t u : Search} {events events' : List Event}
    (h : Follows g source index es s events t) (h' : Follows g source index es s events' u) :
    events = events' ∧ t = u := by
  induction h generalizing events' u with
  | nil => cases h'; exact ⟨rfl, rfl⟩
  | enter unvisited below next ihBelow ihNext =>
    cases h' with
    | enter _ below' next' =>
      obtain ⟨rfl, rfl⟩ := ihBelow below'
      obtain ⟨rfl, rfl⟩ := ihNext next'
      exact ⟨rfl, rfl⟩
    | close onPath' _ => simp [unvisited] at onPath'
    | pass settled' _ => simp [unvisited] at settled'
  | close onPath next ih =>
    cases h' with
    | enter unvisited' _ _ => simp [onPath] at unvisited'
    | close _ next' =>
      obtain ⟨rfl, rfl⟩ := ih next'
      exact ⟨rfl, rfl⟩
    | pass settled' _ => simp [onPath] at settled'
  | pass settled next ih =>
    cases h' with
    | enter unvisited' _ _ => simp [unvisited'] at settled
    | close onPath' _ => simp [onPath'] at settled
    | pass _ next' => exact ih next'

theorem Sweeps.deterministic {schemas : List Nat} {s t u : Search} {events events' : List Event}
    (h : Sweeps g schemas s events t) (h' : Sweeps g schemas s events' u) : events = events' ∧ t = u := by
  induction h generalizing events' u with
  | nil => cases h'; exact ⟨rfl, rfl⟩
  | enter unvisited below next ih =>
    cases h' with
    | enter _ below' next' =>
      obtain ⟨rfl, rfl⟩ := below.deterministic below'
      obtain ⟨rfl, rfl⟩ := ih next'
      exact ⟨rfl, rfl⟩
    | pass _ settled' _ => exact absurd unvisited settled'
  | pass _ settled next ih =>
    cases h' with
    | enter unvisited' _ _ => exact absurd unvisited' settled
    | pass _ _ next' => exact ih next'

theorem Follows.append {source index : Nat} {es es' : List Edge} {s t u : Search} {events events' : List Event}
    (h : Follows g source index es s events t)
    (h' : Follows g source (index + es.length) es' t events' u) :
    Follows g source index (es ++ es') s (events ++ events') u := by
  induction h generalizing events' u with
  | nil => exact h'
  | @enter source index e es s s' s'' inner rest unvisited below next _ ih =>
    have := ih (by rw [List.length_cons] at h'; rwa [Nat.add_right_comm, Nat.add_assoc])
    simpa using Follows.enter unvisited below this
  | @close source index e es s s' rest onPath next ih =>
    exact .close onPath (ih (by rw [List.length_cons] at h'; rwa [Nat.add_right_comm, Nat.add_assoc]))
  | @pass source index e es s s' rest settled next ih =>
    exact .pass settled (ih (by rw [List.length_cons] at h'; rwa [Nat.add_right_comm, Nat.add_assoc]))

/-! ## Entering and leaving a schema -/

theorem Search.marks_enter {s : Search} {schema : Nat} (hs : s.marks[schema]? = some .unvisited) :
    (s.enter schema).marks[schema]? = some .onPath := by
  have hlt : schema < s.marks.length := (List.getElem?_eq_some_iff.mp hs).1
  simp [Search.enter, hlt]

theorem Search.marks_enter_ne (s : Search) {schema i : Nat} (hi : i ≠ schema) :
    (s.enter schema).marks[i]? = s.marks[i]? := by
  simp [Search.enter, List.getElem?_set_ne (Ne.symm hi)]

theorem Search.marks_leave_ne (s : Search) {schema i : Nat} (hi : i ≠ schema) :
    (s.leave schema).marks[i]? = s.marks[i]? := by
  simp [Search.leave, List.getElem?_set_ne (Ne.symm hi)]

theorem Search.marks_leave {s t : Search} {schema : Nat} (hs : s.marks[schema]? = some .unvisited)
    (hlen : t.marks.length = (s.enter schema).marks.length) :
    (t.leave schema).marks[schema]? = some .done := by
  have hlt : schema < s.marks.length := (List.getElem?_eq_some_iff.mp hs).1
  simp [Search.leave, Search.enter, hlen, hlt]

/-! ## What a run leaves as it was -/

/-- `t` is `s` with some schemas searched from their first to their last edge. -/
structure Extends (s t : Search) : Prop where
  length : t.marks.length = s.marks.length
  path : t.path = s.path
  onPath : ∀ i : Nat, t.marks[i]? = some .onPath ↔ s.marks[i]? = some .onPath
  done : ∀ i : Nat, s.marks[i]? = some .done → t.marks[i]? = some .done

namespace Extends

theorem refl (s : Search) : Extends s s := ⟨rfl, rfl, fun _ => Iff.rfl, fun _ h => h⟩

theorem trans {s t u : Search} (h : Extends s t) (h' : Extends t u) : Extends s u :=
  ⟨h'.length.trans h.length, h'.path.trans h.path, fun i => (h'.onPath i).trans (h.onPath i),
    fun i hi => h'.done i (h.done i hi)⟩

/-- What is unvisited now was so before. -/
theorem unvisited {s t : Search} (h : Extends s t) {i : Nat} (hi : t.marks[i]? = some .unvisited) :
    s.marks[i]? = some .unvisited := by
  have hlt : i < s.marks.length := by
    rw [← h.length]
    exact (List.getElem?_eq_some_iff.mp hi).1
  rcases hm : s.marks[i]? with _ | m
  · rw [List.getElem?_eq_none_iff] at hm; omega
  · cases m with
    | unvisited => rfl
    | onPath => rw [(h.onPath i).mpr hm] at hi; cases hi
    | done => rw [h.done i hm] at hi; cases hi

theorem close (s : Search) (e : Edge) : Extends s (g.close s e) := by
  unfold ReferenceGraph.close
  split
  · exact refl s
  · exact ⟨rfl, rfl, fun _ => Iff.rfl, fun _ h => h⟩

/-- An unvisited schema is entered, searched and left. -/
theorem enter_leave {s t : Search} {schema : Nat} (hs : s.marks[schema]? = some .unvisited)
    (h : Extends (s.enter schema) t) : Extends s (t.leave schema) := by
  have hdone := Search.marks_leave hs h.length
  refine ⟨by simpa [Search.leave, Search.enter] using h.length, ?_, ?_, ?_⟩
  · simp [Search.leave, h.path, Search.enter]
  · intro i
    by_cases hi : i = schema
    · subst hi; simp [hdone, hs]
    · rw [Search.marks_leave_ne t hi, h.onPath i, Search.marks_enter_ne s hi]
  · intro i hd
    by_cases hi : i = schema
    · subst hi; rw [hs] at hd; cases hd
    · rw [Search.marks_leave_ne t hi]
      exact h.done i (by rwa [Search.marks_enter_ne s hi])

/-- Whatever was searched inside `schema`, itself included, was unvisited before and is done after. -/
theorem searched {s t : Search} {schema i : Nat} (hs : s.marks[schema]? = some .unvisited)
    (h : Extends (s.enter schema) t)
    (hi : i = schema ∨ ((s.enter schema).marks[i]? = some .unvisited ∧ t.marks[i]? = some .done)) :
    s.marks[i]? = some .unvisited ∧ (t.leave schema).marks[i]? = some .done := by
  by_cases he : i = schema
  · subst he; exact ⟨hs, Search.marks_leave hs h.length⟩
  · obtain ⟨hbefore, hafter⟩ := hi.resolve_left he
    rw [Search.marks_enter_ne s he] at hbefore
    exact ⟨hbefore, by rwa [Search.marks_leave_ne t he]⟩

end Extends

theorem Follows.extends {source index : Nat} {es : List Edge} {s t : Search} {events : List Event}
    (h : Follows g source index es s events t) : Extends s t := by
  induction h with
  | nil => exact .refl _
  | enter unvisited _ _ ihBelow ihNext => exact (Extends.enter_leave unvisited ihBelow).trans ihNext
  | close _ _ ih => exact (Extends.close _ _).trans ih
  | pass _ _ ih => exact ih

theorem Sweeps.extends {schemas : List Nat} {s t : Search} {events : List Event}
    (h : Sweeps g schemas s events t) : Extends s t := by
  induction h with
  | nil => exact .refl _
  | enter unvisited below _ ih => exact (Extends.enter_leave unvisited below.extends).trans ih
  | pass _ _ _ ih => exact ih

/-- At the end every schema of the list has been searched. -/
theorem Sweeps.done {schemas : List Nat} {s t : Search} {events : List Event}
    (h : Sweeps g schemas s events t) (hp : ∀ i : Nat, s.marks[i]? ≠ some .onPath) :
    ∀ i ∈ schemas, t.marks[i]? = some .done := by
  induction h with
  | nil => intro i hi; cases hi
  | @enter schema schemas s s' s'' inner rest unvisited below next ih =>
    have hext := Extends.enter_leave unvisited below.extends
    intro i hi
    rcases List.mem_cons.mp hi with rfl | hi
    · exact next.extends.done _ (Search.marks_leave unvisited below.extends.length)
    · exact ih (fun j => by rw [Ne, hext.onPath j]; exact hp j) i hi
  | @pass schema schemas s s' rest inRange settled next ih =>
    intro i hi
    rcases List.mem_cons.mp hi with rfl | hi
    · apply next.extends.done
      rcases hm : s.marks[i]? with _ | m
      · rw [List.getElem?_eq_none_iff] at hm; omega
      · cases m with
        | unvisited => exact absurd hm settled
        | onPath => exact absurd hm (hp i)
        | done => rfl
    · exact ih hp i hi

/-! ## The bound on the depth -/

theorem count_set_le {marks : List Mark} {i : Nat} {m : Mark} (hm : m ≠ .unvisited) :
    (marks.set i m).count .unvisited ≤ marks.count .unvisited := by
  by_cases hi : i < marks.length
  · have hm' : ¬ (m == Mark.unvisited) = true := by simpa using hm
    rw [List.count_set hi, if_neg hm']
    omega
  · exact Nat.le_of_eq (by rw [List.set_eq_of_length_le (by omega)])

theorem count_set_lt {marks : List Mark} {i : Nat} {m : Mark} (hm : m ≠ .unvisited)
    (hi : marks[i]? = some .unvisited) :
    (marks.set i m).count .unvisited < marks.count .unvisited := by
  obtain ⟨hlt, hget⟩ := List.getElem?_eq_some_iff.mp hi
  have hpos : 0 < marks.count .unvisited := List.count_pos_iff.mpr (hget ▸ List.getElem_mem hlt)
  have hm' : (m == Mark.unvisited) = false := by simpa using hm
  rw [List.count_set hlt, hm', hget]
  simp only [beq_self_eq_true, if_true, Bool.false_eq_true, if_false]
  omega

theorem marks_close (s : Search) (e : Edge) : (g.close s e).marks = s.marks := by
  unfold close
  split <;> rfl

theorem Follows.count_le {source index : Nat} {es : List Edge} {s t : Search} {events : List Event}
    (h : Follows g source index es s events t) :
    t.marks.count .unvisited ≤ s.marks.count .unvisited := by
  induction h with
  | nil => exact Nat.le_refl _
  | @enter source index e es s s' s'' inner rest _ _ _ ihBelow ihNext =>
    have henter : (s.enter e.target).marks.count .unvisited ≤ s.marks.count .unvisited :=
      count_set_le (by decide)
    have hleave : (s'.leave e.target).marks.count .unvisited ≤ s'.marks.count .unvisited :=
      count_set_le (by decide)
    omega
  | close _ _ ih => rwa [marks_close] at ih
  | pass _ _ ih => exact ih

/-- What `visit` does at each edge. -/
def follow (g : ReferenceGraph) (depth : Nat) (s : Search) (edge : Edge) : Search :=
  match s.marks[edge.target]? with
  | some .unvisited => g.visit depth edge.target s
  | some .onPath => g.close s edge
  | some .done | none => s

theorem visit_succ (g : ReferenceGraph) (depth schema : Nat) (s : Search) :
    g.visit (depth + 1) schema s =
      ((g.edgesOf schema).foldl (g.follow depth) (s.enter schema)).leave schema := rfl

/-- If visits one level down are runs, so is going through the edges of a schema. -/
theorem foldl_follow_follows {depth : Nat}
    (hvisits : ∀ (schema : Nat) (s : Search), s.marks[schema]? = some .unvisited →
      s.marks.count .unvisited ≤ depth →
      ∃ events t, Follows g schema 0 (g.edgesOf schema) (s.enter schema) events t ∧
        g.visit depth schema s = t.leave schema) (es : List Edge) :
    ∀ (source index : Nat) (s : Search), s.marks.count .unvisited ≤ depth →
    ∃ events, Follows g source index es s events (es.foldl (g.follow depth) s) := by
  induction es with
  | nil =>
    intro source index s _
    exact ⟨[], .nil⟩
  | cons e es ih =>
    intro source index s hcount
    rw [List.foldl_cons]
    rcases hm : s.marks[e.target]? with _ | m
    · have hf : g.follow depth s e = s := by simp [follow, hm]
      rw [hf]
      obtain ⟨events, h⟩ := ih source (index + 1) s hcount
      exact ⟨events, .pass (Or.inr hm) h⟩
    · cases m with
      | unvisited =>
        have hf : g.follow depth s e = g.visit depth e.target s := by simp [follow, hm]
        obtain ⟨inner, t, hbelow, hvisit⟩ := hvisits e.target s hm hcount
        have hle : (t.leave e.target).marks.count .unvisited ≤ depth := by
          have h1 : (t.leave e.target).marks.count .unvisited ≤ t.marks.count .unvisited :=
            count_set_le (by decide)
          have h2 := hbelow.count_le
          have h3 : (s.enter e.target).marks.count .unvisited ≤ s.marks.count .unvisited :=
            count_set_le (by decide)
          omega
        rw [hf, hvisit]
        obtain ⟨rest, hnext⟩ := ih source (index + 1) _ hle
        exact ⟨_, .enter hm hbelow hnext⟩
      | onPath =>
        have hf : g.follow depth s e = g.close s e := by simp [follow, hm]
        rw [hf]
        obtain ⟨rest, h⟩ := ih source (index + 1) (g.close s e) (by rwa [marks_close])
        exact ⟨_, .close hm h⟩
      | done =>
        have hf : g.follow depth s e = s := by simp [follow, hm]
        rw [hf]
        obtain ⟨events, h⟩ := ih source (index + 1) s hcount
        exact ⟨events, .pass (Or.inl hm) h⟩

/-- With a depth for every unvisited schema, `visit` is a run. -/
theorem visit_follows (g : ReferenceGraph) (depth : Nat) : ∀ (schema : Nat) (s : Search),
    s.marks[schema]? = some .unvisited → s.marks.count .unvisited ≤ depth →
    ∃ events t, Follows g schema 0 (g.edgesOf schema) (s.enter schema) events t ∧
      g.visit depth schema s = t.leave schema := by
  induction depth with
  | zero =>
    intro schema s hs hcount
    have := count_set_lt (m := .done) (by decide) hs
    omega
  | succ depth ih =>
    intro schema s hs hcount
    have hlt : (s.enter schema).marks.count .unvisited < s.marks.count .unvisited :=
      count_set_lt (by decide) hs
    obtain ⟨events, h⟩ := foldl_follow_follows ih (g.edgesOf schema) schema 0 (s.enter schema) (by omega)
    exact ⟨events, _, h, visit_succ g depth schema s⟩

/-- The search is a run over all schemas. -/
theorem search_sweeps (g : ReferenceGraph) :
    ∃ events, Sweeps g (List.range g.size) g.start events g.search := by
  suffices ∀ (schemas : List Nat) (s : Search), s.marks.length = g.size → (∀ i ∈ schemas, i < g.size) →
      ∃ events, Sweeps g schemas s events (schemas.foldl
        (fun s schema => if s.marks[schema]? = some .unvisited then g.visit g.size schema s else s) s) from
    this (List.range g.size) g.start (by simp [start]) (fun i hi => List.mem_range.mp hi)
  intro schemas
  induction schemas with
  | nil => intro s _ _; exact ⟨[], .nil⟩
  | cons schema schemas ih =>
    intro s hlen hmem
    have hrest : ∀ i ∈ schemas, i < g.size := fun i hi => hmem i (List.mem_cons_of_mem _ hi)
    rw [List.foldl_cons]
    by_cases hs : s.marks[schema]? = some .unvisited
    · rw [if_pos hs]
      have hcount : s.marks.count .unvisited ≤ g.size := hlen ▸ List.count_le_length
      obtain ⟨inner, t, hbelow, hvisit⟩ := visit_follows g g.size schema s hs hcount
      have hext := Extends.enter_leave hs hbelow.extends
      rw [hvisit]
      obtain ⟨rest, hnext⟩ := ih (t.leave schema) (hext.length.trans hlen) hrest
      exact ⟨_, .enter hs hbelow hnext⟩
    · rw [if_neg hs]
      obtain ⟨rest, hnext⟩ := ih s hlen hrest
      exact ⟨rest, .pass (hlen ▸ hmem schema List.mem_cons_self) hs hnext⟩

/-! ## Every arc at most once -/

/-- The arcs taken are those of `source` from `index` on, and those of schemas that were searched
meanwhile. -/
theorem Follows.arc_cases {source index : Nat} {es : List Edge} {s t : Search} {events : List Event}
    (h : Follows g source index es s events t) :
    ∀ e ∈ events, (e.arc.source = source ∧ index ≤ e.arc.index) ∨
      (s.marks[e.arc.source]? = some .unvisited ∧ t.marks[e.arc.source]? = some .done) := by
  induction h with
  | nil => intro e he; cases he
  | @enter source index e es s s' s'' inner rest unvisited below next ihBelow ihNext =>
    intro ev hev
    rcases List.mem_cons.mp hev with rfl | hev
    · exact Or.inl ⟨rfl, Nat.le_refl _⟩
    rcases List.mem_append.mp hev with hev | hev
    · obtain ⟨hbefore, hafter⟩ := below.extends.searched unvisited ((ihBelow ev hev).imp And.left id)
      exact Or.inr ⟨hbefore, next.extends.done _ hafter⟩
    · rcases ihNext ev hev with ⟨hsource, hindex⟩ | ⟨hbefore, hafter⟩
      · exact Or.inl ⟨hsource, by omega⟩
      · exact Or.inr ⟨(Extends.enter_leave unvisited below.extends).unvisited hbefore, hafter⟩
  | @close source index e es s s' rest onPath next ih =>
    intro ev hev
    rcases List.mem_cons.mp hev with rfl | hev
    · exact Or.inl ⟨rfl, Nat.le_refl _⟩
    · rcases ih ev hev with ⟨hsource, hindex⟩ | ⟨hbefore, hafter⟩
      · exact Or.inl ⟨hsource, by omega⟩
      · exact Or.inr ⟨(Extends.close s e).unvisited hbefore, hafter⟩
  | pass _ _ ih =>
    intro ev hev
    rcases ih ev hev with ⟨hsource, hindex⟩ | h
    · exact Or.inl ⟨hsource, by omega⟩
    · exact Or.inr h

/-- The arcs taken inside a schema belong to schemas that nobody was in before and that are done
after. -/
theorem Follows.arc_searched {schema : Nat} {s t : Search} {events : List Event}
    (hs : s.marks[schema]? = some .unvisited)
    (h : Follows g schema 0 (g.edgesOf schema) (s.enter schema) events t) :
    ∀ e ∈ events, s.marks[e.arc.source]? = some .unvisited ∧
      (t.leave schema).marks[e.arc.source]? = some .done :=
  fun e he => h.extends.searched hs ((h.arc_cases e he).imp And.left id)

/-- An arc of `source` before `index` is not taken any more while `source` is on the path. -/
theorem Follows.not_taken {source index : Nat} {es : List Edge} {s t : Search} {events : List Event}
    (h : Follows g source (index + 1) es s events t) (hs : s.marks[source]? = some .onPath) :
    ⟨source, index⟩ ∉ events.map Event.arc := by
  intro hmem
  obtain ⟨e, he, harc⟩ := List.mem_map.mp hmem
  rcases h.arc_cases e he with ⟨_, hindex⟩ | ⟨hunvisited, _⟩
  · rw [harc] at hindex
    exact absurd hindex (Nat.not_succ_le_self index)
  · rw [harc, hs] at hunvisited
    cases hunvisited

theorem Follows.nodup {source index : Nat} {es : List Edge} {s t : Search} {events : List Event}
    (h : Follows g source index es s events t) (hs : s.marks[source]? = some .onPath) :
    (events.map Event.arc).Nodup := by
  induction h with
  | nil => exact List.nodup_nil
  | @enter source index e es s s' s'' inner rest unvisited below next ihBelow ihNext =>
    have hinner := below.arc_searched unvisited
    have hleave := ((Extends.enter_leave unvisited below.extends).onPath source).mpr hs
    simp only [List.map_cons, List.map_append, List.nodup_cons, List.nodup_append, List.mem_append, not_or]
    refine ⟨⟨?_, next.not_taken hleave⟩, ihBelow (Search.marks_enter unvisited), ihNext hleave, ?_⟩
    · intro hmem
      obtain ⟨ev, hev, harc⟩ := List.mem_map.mp hmem
      have := (hinner ev hev).1
      rw [harc] at this
      exact absurd (this.symm.trans hs) (by simp)
    · intro a ha b hb hab
      obtain ⟨ev, hev, rfl⟩ := List.mem_map.mp ha
      obtain ⟨ev', hev', rfl⟩ := List.mem_map.mp hb
      have hd := (hinner ev hev).2
      rw [hab] at hd
      rcases next.arc_cases ev' hev' with ⟨hsource, _⟩ | ⟨hunvisited, _⟩
      · rw [hsource] at hd; exact absurd (hd.symm.trans hleave) (by simp)
      · exact absurd (hd.symm.trans hunvisited) (by simp)
  | @close source index e es s s' rest onPath next ih =>
    have hclose := ((Extends.close (g := g) s e).onPath source).mpr hs
    rw [List.map_cons, List.nodup_cons]
    exact ⟨next.not_taken hclose, ih hclose⟩
  | pass _ _ ih => exact ih hs

/-- The arcs taken from the list of schemas on are those of schemas not searched before. -/
theorem Sweeps.unvisited {schemas : List Nat} {s t : Search} {events : List Event}
    (h : Sweeps g schemas s events t) : ∀ e ∈ events, s.marks[e.arc.source]? = some .unvisited := by
  induction h with
  | nil => intro e he; cases he
  | @enter schema schemas s s' s'' inner rest unvisited below next ih =>
    intro ev hev
    rcases List.mem_append.mp hev with hev | hev
    · exact (below.arc_searched unvisited ev hev).1
    · exact (Extends.enter_leave unvisited below.extends).unvisited (ih ev hev)
  | pass _ _ _ ih => exact ih

theorem Sweeps.nodup {schemas : List Nat} {s t : Search} {events : List Event}
    (h : Sweeps g schemas s events t) : (events.map Event.arc).Nodup := by
  induction h with
  | nil => exact List.nodup_nil
  | @enter schema schemas s s' s'' inner rest unvisited below next ih =>
    rw [List.map_append, List.nodup_append]
    refine ⟨below.nodup (Search.marks_enter unvisited), ih, ?_⟩
    intro a ha b hb hab
    obtain ⟨ev, hev, rfl⟩ := List.mem_map.mp ha
    obtain ⟨ev', hev', rfl⟩ := List.mem_map.mp hb
    have hd := (below.arc_searched unvisited ev hev).2
    rw [hab] at hd
    exact absurd (hd.symm.trans (next.unvisited ev' hev')) (by simp)
  | pass _ _ _ ih => exact ih

end ReferenceGraph

end BindingSchema
