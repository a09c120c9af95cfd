import BindingSchema.Proofs.Annotation.Progress

/-!
Annotation without a state.

`typed` is annotation when the type of every schema is known beforehand. What a node becomes
depends on nothing but the answers to its references (`annotate_congr`), so wherever each answer is
the type that the schema has in the end, annotation makes of a node what `typed` makes of it
(`annotate_eq_typed`). Without placeholders this is so (`serves_enterSchema`): the schemas that
are done at the end are a fixed point (`registry_typed`).
-/

namespace BindingSchema

namespace Annotation

/-! ## What a node depends on -/

/-- As long as `P` holds before and `Q` holds after, `enter` answers with `types`. -/
structure Serves (count : Nat) (enter : Enter) (types : Nat → Option BindingType) (P Q : State → Prop) : Prop where
  forward : ∀ st s, P s → P (s.take enter st)
  backward : ∀ st s, Q (s.take enter st) → Q s
  answer : ∀ target place s, target < count → P s → Q (enter target place s).2 →
    (enter target place s).1 = types target

section

variable {schemas : List String} {enter enter' : Enter} {types : Nat → Option BindingType}
  {P Q P' Q' : State → Prop}

theorem Serves.after (h : Serves schemas.length enter types P Q) (n : Node) (name : String) (isMember : Bool)
    (place : Pointer) (s : State) :
    (P s → P (annotate schemas enter name isMember place n s).2) ∧
      (Q (annotate schemas enter name isMember place n s).2 → Q s) := by
  rw [annotate_state]
  exact foldl_take (P := fun s t => (P s → P t) ∧ (Q t → Q s)) (fun _ => ⟨id, id⟩)
    (fun _ _ _ h h' => ⟨fun hp => h'.1 (h.1 hp), fun hq => h.2 (h'.2 hq)⟩)
    (fun st _ s => ⟨h.forward st s, h.backward st s⟩) s

theorem Serves.before (h : Serves schemas.length enter types P Q) (ps : List Property)
    (place : Pointer) (s : State) : Q (annotateProperties schemas enter place ps s).2 → Q s := by
  induction ps generalizing s with
  | nil => exact id
  | cons p ps ih =>
    obtain ⟨name, required, node⟩ := p
    intro hq
    exact (h.after node name true (place.push name) s).2 (ih _ hq)

theorem annotateProperties_congr (h : Serves schemas.length enter types P Q)
    (h' : Serves schemas.length enter' types P' Q') {ps : List Property}
    (hps : ∀ p ∈ ps, ∀ (name : String) (isMember : Bool) (place place' : Pointer) (s s' : State),
      P s → Q (annotate schemas enter name isMember place p.node s).2 →
      P' s' → Q' (annotate schemas enter' name isMember place' p.node s').2 →
      (annotate schemas enter name isMember place p.node s).1 =
        (annotate schemas enter' name isMember place' p.node s').1) (place place' : Pointer) (s s' : State)
    (hp : P s) (hq : Q (annotateProperties schemas enter place ps s).2)
    (hp' : P' s') (hq' : Q' (annotateProperties schemas enter' place' ps s').2) :
    (annotateProperties schemas enter place ps s).1 = (annotateProperties schemas enter' place' ps s').1 := by
  induction ps generalizing s s' with
  | nil => rfl
  | cons p ps ih =>
    obtain ⟨name, required, node⟩ := p
    have hnode := hps ⟨name, required, node⟩ List.mem_cons_self name true (place.push name) (place'.push name) s s'
      hp (h.before ps place _ hq) hp' (h'.before ps place' _ hq')
    have hrest := ih (fun p hp => hps p (List.mem_cons_of_mem _ hp)) _ _
      ((h.after node name true (place.push name) s).1 hp) hq
      ((h'.after node name true (place'.push name) s').1 hp') hq'
    simp only [annotateProperties]
    rw [hnode, hrest]

/-- Two ways to answer that agree make the same node. -/
theorem annotate_congr (h : Serves schemas.length enter types P Q)
    (h' : Serves schemas.length enter' types P' Q') (n : Node) :
    ∀ (name : String) (isMember : Bool) (place place' : Pointer) (s s' : State),
      P s → Q (annotate schemas enter name isMember place n s).2 →
      P' s' → Q' (annotate schemas enter' name isMember place' n s').2 →
      (annotate schemas enter name isMember place n s).1 =
        (annotate schemas enter' name isMember place' n s').1 := by
  induction n using Node.induct with
  | h n ihProperties ihItems ihValues =>
    intro name isMember place place' s s' hp hq hp' hq'
    cases hb : n.branch with
    | properties ps =>
      have hps := (Node.branch_eq_properties.mp hb).2
      rw [annotate_properties _ _ _ _ _ _ hb] at hq hq' ⊢
      rw [annotate_properties _ _ _ _ _ _ hb]
      have := annotateProperties_congr h h' (fun p hm => ihProperties p (hps ▸ hm)) _ _ s s' hp hq hp' hq'
      simp only [this]
    | reference r =>
      cases hr : resolve schemas r.path with
      | error problem =>
        rw [annotate_missing _ _ _ _ _ _ hb hr, annotate_missing _ _ _ _ _ _ hb hr]
      | ok target =>
        rw [annotate_reference _ _ _ _ _ _ hb hr] at hq hq' ⊢
        rw [annotate_reference _ _ _ _ _ _ hb hr]
        have hlt := resolve_lt hr
        have := (h.answer _ _ s hlt hp hq).trans (h'.answer _ _ s' hlt hp' hq').symm
        simp only [this]
    | enumeration values =>
      rw [annotate_enumeration _ _ _ _ _ _ hb, annotate_enumeration _ _ _ _ _ _ hb]
    | items item =>
      rw [annotate_items _ _ _ _ _ _ hb] at hq hq' ⊢
      rw [annotate_items _ _ _ _ _ _ hb]
      have := ihItems item (Node.branch_eq_items.mp hb).2.2.2 name true (place.push "items")
        (place'.push "items") s s' hp hq hp' hq'
      simp only [this]
    | mapValues value =>
      rw [annotate_mapValues _ _ _ _ _ _ hb] at hq hq' ⊢
      rw [annotate_mapValues _ _ _ _ _ _ hb]
      have := ihValues value (Node.branch_eq_mapValues.mp hb).2.2.2.2 name true (place.push "additionalProperties")
        (place'.push "additionalProperties") s s' hp hq hp' hq'
      simp only [this]
    | declared => rw [annotate_declared _ _ _ _ _ _ hb, annotate_declared _ _ _ _ _ _ hb]

end

/-! ## Annotation with the types at hand -/

def answers (types : Nat → Option BindingType) : Enter := fun target _ s => (types target, s)

theorem serves_answers (count : Nat) (types : Nat → Option BindingType) :
    Serves count (answers types) types (fun _ => True) (fun _ => True) :=
  ⟨fun _ _ _ => trivial, fun _ _ _ => trivial, fun _ _ _ _ _ _ => rfl⟩

/-- What a node becomes when the type of every schema is known. -/
def typed (schemas : List String) (types : Nat → Option BindingType) (name : String) (isMember : Bool)
    (n : Node) : Node :=
  (annotate schemas (answers types) name isMember .root n { progress := [] }).1

def typedProperties (schemas : List String) (types : Nat → Option BindingType) (ps : List Property) :
    List Property :=
  ps.map fun p => { p with node := typed schemas types p.name true p.node }

section

variable {schemas : List String} {types : Nat → Option BindingType} {name : String} {isMember : Bool} {n : Node}

theorem annotate_answers (place : Pointer) (s : State) :
    (annotate schemas (answers types) name isMember place n s).1 = typed schemas types name isMember n :=
  annotate_congr (serves_answers _ types) (serves_answers _ types) n name isMember place _ s _ trivial trivial
    trivial trivial

theorem annotateProperties_answers (place : Pointer) (ps : List Property) (s : State) :
    (annotateProperties schemas (answers types) place ps s).1 = typedProperties schemas types ps := by
  induction ps generalizing s with
  | nil => rfl
  | cons p ps ih =>
    obtain ⟨name, required, node⟩ := p
    simp only [annotateProperties, typedProperties, List.map_cons]
    rw [annotate_answers, ih]
    rfl

theorem typed_properties {ps : List Property} (h : n.branch = .properties ps) :
    typed schemas types name isMember n =
      { n with
        type := some .object
        properties := typedProperties schemas types ps
        bindingType := some ((BindingType.object name ((typedProperties schemas types ps).map fun p =>
          orFreeForm p.node.bindingType)).withNullable n.isNullable) } := by
  rw [typed, annotate_properties _ _ _ _ _ _ h]
  simp only [annotateProperties_answers]

theorem typed_missing {r : SchemaRef} {problem : Problem} (h : n.branch = .reference r)
    (hr : resolve schemas r.path = .error problem) :
    typed schemas types name isMember n = { n with bindingType := none } := by
  rw [typed, annotate_missing _ _ _ _ _ _ h hr]

theorem typed_reference {r : SchemaRef} {target : Nat} (h : n.branch = .reference r)
    (hr : resolve schemas r.path = .ok target) :
    typed schemas types name isMember n =
      { n with
        type := some .object
        reference := some { r with target := some target }
        bindingType := some ((orFreeForm (types target)).withNullable n.isNullable) } := by
  rw [typed, annotate_reference _ _ _ _ _ _ h hr]
  rfl

theorem typed_enumeration {values : List Value} (h : n.branch = .enumeration values) :
    typed schemas types name isMember n =
      { n with
        type := some .enum
        bindingType := some ((BindingType.enumeration name
          (values.filterMap (·.asString?))).withNullable n.isNullable) } := by
  rw [typed, annotate_enumeration _ _ _ _ _ _ h]

theorem typed_items {item : Node} (h : n.branch = .items item) :
    typed schemas types name isMember n =
      { n with
        type := some (n.type.getD .array)
        items := some (typed schemas types name true item)
        bindingType := some ((BindingType.array
          (orFreeForm (typed schemas types name true item).bindingType)).withNullable n.isNullable) } := by
  rw [typed, annotate_items _ _ _ _ _ _ h]
  simp only [annotate_answers]

theorem typed_mapValues {value : Node} (h : n.branch = .mapValues value) :
    typed schemas types name isMember n =
      { n with
        type := some .map
        additionalProperties := some (typed schemas types name true value)
        bindingType := some ((BindingType.map
          (orFreeForm (typed schemas types name true value).bindingType)).withNullable n.isNullable) } := by
  rw [typed, annotate_mapValues _ _ _ _ _ _ h]
  simp only [annotate_answers]

theorem typed_declared (h : n.branch = .declared) :
    typed schemas types name isMember n =
      { n with
        bindingType := (declaredType n.type n.format isMember).map (·.withNullable n.isNullable) } := by
  rw [typed, annotate_declared _ _ _ _ _ _ h]

end

theorem annotate_eq_typed {schemas : List String} {enter : Enter} {types : Nat → Option BindingType}
    {P Q : State → Prop} (h : Serves schemas.length enter types P Q) {n : Node} {name : String} {isMember : Bool}
    {place : Pointer} {s : State} (hp : P s) (hq : Q (annotate schemas enter name isMember place n s).2) :
    (annotate schemas enter name isMember place n s).1 = typed schemas types name isMember n :=
  annotate_congr h (serves_answers _ types) n name isMember place .root s _ hp hq trivial trivial

/-! ## The registry as a fixed point -/

/-- The type a schema has in the end. -/
def State.types (s : State) (i : Nat) : Option BindingType :=
  match s.progress[i]? with
  | some (.done node) => node.bindingType
  | _ => none

theorem types_done {s : State} {i : Nat} {node : Node} (h : s.progress[i]? = some (.done node)) :
    s.types i = node.bindingType := by
  simp only [State.types, h]

variable {schemas : Keyed Schema}

/-- Where no placeholder is handed out until `last`, every answer is the type in `last`. -/
theorem serves_enterSchema {last : State} (hclean : last.placeholders = []) (depth : Nat) :
    Serves (Keyed.keys schemas).length (enterSchema schemas depth) last.types
      (fun s => s.pending < depth ∧ s.progress.length = schemas.length) (fun s => Later s last) := by
  have htake : ∀ st (s : State), Later s (s.take (enterSchema schemas depth) st) := by
    intro st s
    cases st with
    | report errors => exact (Run.report s errors).toLater
    | enter edge => exact (advances_enterSchema schemas depth edge.target edge.place s).1.toLater
  refine ⟨fun st s ⟨hlt, hlen⟩ => ?_, fun st s hlast => (htake st s).trans hlast, ?_⟩
  · exact ⟨Nat.lt_of_le_of_lt (htake st s).pending hlt, (htake st s).length.trans hlen⟩
  · intro target place s htarget hs hlast
    have hlt : target < schemas.length := length_keys schemas ▸ htarget
    obtain ⟨node, hdone, hanswer⟩ := enterSchema_answer hs.1 hs.2 hlt (hlast.placeholders hclean)
    rw [hanswer, types_done (hlast.done target node hdone)]

/-- The schemas that are done are annotated with the types they have themselves. -/
theorem registry_typed {s : State} (hkept : Kept schemas s) (hclean : s.placeholders = [])
    (hlen : s.progress.length = schemas.length) {i : Nat} {node : Node} {name : String} {schema : Schema}
    (hp : s.progress[i]? = some (.done node)) (hs : schemas[i]? = some (name, schema)) :
    node = typed (Keyed.keys schemas) s.types name false schema.node := by
  obtain ⟨depth, t, hlt, hnode, hlater⟩ := hkept i node name schema hp hs
  have hrun := (advances_annotate (advances_enterSchema schemas depth) schema.node name false (.schema name) t).1
  rw [hnode]
  exact annotate_eq_typed (serves_enterSchema hclean depth) ⟨hlt, by rw [← hlen, hlater.length, hrun.length]⟩ hlater

end Annotation

end BindingSchema
