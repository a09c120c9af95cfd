import BindingSchema.Proofs.Annotation.Progress
import Mathlib.Algebra.BigOperators.Group.Multiset.Basic

/-!
What annotation reports, node by node.

Annotation comes to the schemas and parameters and from there down the branch of each node it comes to
(`Node.reached`). What is wrong with a node by itself is known from the node and its place alone
(`Node.problems`), and a schema has been charged with what is wrong below it as soon as it is entered.
So what has been reported together with what pending schemas are still to report is the same
before and after a schema is entered, however deep and from wherever (`account_enterSchema`): nothing
is left out and nothing reported twice.
-/

namespace BindingSchema

open Annotation

/-! ## Reached nodes -/

namespace Node

mutual

/-- The nodes that annotation comes to from a node, with their places. -/
def reached (place : Pointer) : Node → List (Pointer × Node)
  | ⟨type, format, description, nullable, items, additionalProperties, properties, enumValues,
      reference, bindingType⟩ =>
    (place, ⟨type, format, description, nullable, items, additionalProperties, properties, enumValues,
      reference, bindingType⟩) ::
    match properties with
    | p :: ps => reachedOfProperties (place.push "properties") (p :: ps)
    | [] =>
    match reference with
    | some _ => []
    | none =>
    match enumValues with
    | some _ => []
    | none =>
    match items with
    | some item => reached (place.push "items") item
    | none =>
    match additionalProperties with
    | some value => reached (place.push "additionalProperties") value
    | none => []

def reachedOfProperties (place : Pointer) : List Property → List (Pointer × Node)
  | [] => []
  | ⟨name, _, node⟩ :: rest => reached (place.push name) node ++ reachedOfProperties place rest

end

theorem reachedOfProperties_eq (place : Pointer) (ps : List Property) :
    reachedOfProperties place ps = ps.flatMap fun p => p.node.reached (place.push p.name) := by
  induction ps with
  | nil => rfl
  | cons p ps ih =>
    obtain ⟨name, required, node⟩ := p
    rw [reachedOfProperties, ih, List.flatMap_cons]

theorem reached_eq (place : Pointer) (n : Node) :
    n.reached place = (place, n) ::
      match n.branch with
      | .properties ps => ps.flatMap fun p => p.node.reached ((place.push "properties").push p.name)
      | .items item => item.reached (place.push "items")
      | .mapValues value => value.reached (place.push "additionalProperties")
      | _ => [] := by
  obtain ⟨type, format, description, nullable, items, values, properties, enumValues, reference, bt⟩ := n
  rcases properties with _ | ⟨p, ps⟩ <;> rcases reference with _ | r <;> rcases enumValues with _ | vs <;>
    rcases items with _ | item <;> rcases values with _ | value <;>
    simp only [reached, branch, reachedOfProperties_eq]

/-- What is wrong with a node by itself: its reference names no schema, or its enum lists what is no
name. -/
def problems (names : List String) (place : Pointer) (n : Node) : List Diagnostic :=
  match n.branch with
  | .reference r =>
    match SchemaRef.parse r.path with
    | .error _ => [(Problem.malformedReference r.path).located (place.push "$ref")]
    | .ok name =>
      if name ∈ names then [] else [(Problem.missingSchema r.path name names).located (place.push "$ref")]
  | .enumeration values =>
    (values.filter (·.asString?.isNone)).map (fun v => (Problem.enumItemNotString v).located place) ++
      ((values.filterMap (·.asString?)).filter (!Identifier.isValid ·)).map
        (fun name => (Problem.invalidName name).located (place.push "enum"))
  | _ => []

end Node

/-- The nodes that annotation comes to, with their places. -/
def Interface.reached (i : Interface) : List (Pointer × Node) :=
  i.schemas.flatMap (fun (name, s) => s.node.reached (.schema name)) ++
    i.exports.flatMap (reachedOfFunction "exports") ++ i.imports.flatMap (reachedOfFunction "imports")
where
  reachedOfFunction (kind : String) (f : Function) : List (Pointer × Node) :=
    f.input.toList.flatMap (fun p => p.node.reached ⟨[kind, f.name, "input"]⟩) ++
      f.output.toList.flatMap fun p => p.node.reached ⟨[kind, f.name, "output"]⟩

namespace Annotation

/-! ## Reports of a node -/

/-- What annotating a node reports by itself, without the schemas that it enters. -/
def reports (names : List String) (place : Pointer) (n : Node) : List Diagnostic :=
  (steps names place n).flatMap Step.errors

theorem stepsOfProperties_eq (names : List String) (place : Pointer) (ps : List Property) :
    stepsOfProperties names place ps = ps.flatMap fun p => steps names (place.push p.name) p.node := by
  induction ps with
  | nil => rfl
  | cons p ps ih =>
    obtain ⟨name, required, node⟩ := p
    rw [stepsOfProperties, ih, List.flatMap_cons]

theorem perm_enumProblems (place : Pointer) (values : List Value) :
    (enumProblems place values).Perm
      ((values.filter (·.asString?.isNone)).map (fun v => (Problem.enumItemNotString v).located place) ++
        ((values.filterMap (·.asString?)).filter (!Identifier.isValid ·)).map
          (fun name => (Problem.invalidName name).located (place.push "enum"))) := by
  induction values with
  | nil => exact List.Perm.refl _
  | cons v values ih =>
    cases v with
    | string name =>
      by_cases h : Identifier.isValid name = true
      · simpa [enumProblems, Value.asString?, h] using ih
      · simpa [enumProblems, Value.asString?, h] using (ih.cons _).trans List.perm_middle.symm
    | _ => exact ih.cons _

/-- Only references and enums can be wrong. -/
theorem problems_eq_nil {names : List String} {place : Pointer} {n : Node} {b : Branch} (hb : n.branch = b)
    (hreference : ∀ r, b ≠ .reference r) (henumeration : ∀ values, b ≠ .enumeration values) :
    n.problems names place = [] := by
  subst hb
  unfold Node.problems
  split
  · exact absurd ‹_› (hreference _)
  · exact absurd ‹_› (henumeration _)
  · rfl

theorem problems_reference {names : List String} {place : Pointer} {n : Node} {r : SchemaRef}
    (hb : n.branch = .reference r) : n.problems names place = reports names place n := by
  simp only [Node.problems, hb, reports]
  cases hparse : SchemaRef.parse r.path with
  | error e =>
    have hr : resolve names r.path = .error (.malformedReference r.path) := by simp only [resolve, hparse]
    rw [steps_missing hb hr]
    rfl
  | ok name =>
    dsimp only
    cases hidx : names.idxOf? name with
    | none =>
      have hr : resolve names r.path = .error (.missingSchema r.path name names) := by
        simp only [resolve, hparse, hidx]
      rw [if_neg (List.idxOf?_eq_none_iff.mp hidx), steps_missing hb hr]
      rfl
    | some target =>
      have hr : resolve names r.path = .ok target := by simp only [resolve, hparse, hidx]
      have hmem : name ∈ names := by
        by_contra h
        rw [List.idxOf?_eq_none_iff.mpr h] at hidx
        cases hidx
      rw [if_pos hmem, steps_reference hb hr]
      rfl

/-- What is wrong with a node and with all that annotation comes to below it is what it reports. -/
theorem perm_reports (names : List String) (n : Node) : ∀ place : Pointer,
    ((n.reached place).flatMap fun e => e.2.problems names e.1).Perm (reports names place n) := by
  induction n using Node.induct with
  | h n ihProperties ihItems ihValues =>
    intro place
    rw [Node.reached_eq, List.flatMap_cons]
    cases hb : n.branch with
    | properties ps =>
      have hps := (Node.branch_eq_properties.mp hb).2
      dsimp only
      rw [problems_eq_nil hb nofun nofun, reports, steps_properties hb, stepsOfProperties_eq, List.nil_append,
        List.flatMap_assoc, List.flatMap_assoc]
      exact List.Perm.flatMap_left _ fun p hp => ihProperties p (hps ▸ hp) _
    | reference r =>
      dsimp only
      rw [problems_reference hb, List.flatMap_nil, List.append_nil]
    | enumeration values =>
      rw [reports, steps_enumeration hb]
      simpa [Node.problems, hb, Step.errors] using (perm_enumProblems place values).symm
    | items item =>
      dsimp only
      rw [problems_eq_nil hb nofun nofun, reports, steps_items hb]
      exact ihItems item (Node.branch_eq_items.mp hb).2.2.2 _
    | mapValues value =>
      dsimp only
      rw [problems_eq_nil hb nofun nofun, reports, steps_mapValues hb]
      exact ihValues value (Node.branch_eq_mapValues.mp hb).2.2.2.2 _
    | declared =>
      dsimp only
      rw [problems_eq_nil hb nofun nofun, reports, steps_declared hb]
      exact List.Perm.refl _

/-! ## The account of a state -/

/-- What a schema is still to report. -/
def owed (names : List String) (e : String × Schema) : Progress → Multiset Diagnostic
  | .pending => reports names (.schema e.1) e.2.node
  | _ => 0

/-- What has been reported, and what the pending schemas are still to report. -/
def account (schemas : Keyed Schema) (s : State) : Multiset Diagnostic :=
  s.errors + (List.zipWith (owed (Keyed.keys schemas)) schemas s.progress).sum

/-- In a sum over two lists, another item changes its own part. -/
theorem sum_zipWith_set {α β : Type} (f : α → β → Multiset Diagnostic) (b' : β) {i : Nat} {a : α} {b : β} :
    ∀ {as : List α} {bs : List β}, as[i]? = some a → bs[i]? = some b →
      (List.zipWith f as (bs.set i b')).sum + f a b = (List.zipWith f as bs).sum + f a b' := by
  induction i with
  | zero =>
    intro as bs ha hb
    cases as with
    | nil => cases ha
    | cons x as =>
      cases bs with
      | nil => cases hb
      | cons y bs =>
        cases ha
        cases hb
        simp only [List.set_cons_zero, List.zipWith_cons_cons, List.sum_cons]
        rw [add_right_comm, add_comm (f a b'), add_right_comm]
  | succ i ih =>
    intro as bs ha hb
    cases as with
    | nil => cases ha
    | cons x as =>
      cases bs with
      | nil => cases hb
      | cons y bs =>
        simp only [List.set_cons_succ, List.zipWith_cons_cons, List.sum_cons, add_assoc]
        rw [ih ha hb]

section

variable {schemas : Keyed Schema}

theorem account_report (s : State) (errors : List Diagnostic) :
    account schemas (s.report errors) = account schemas s + errors := by
  rw [account, account, State.report, ← Multiset.coe_add, add_right_comm]

theorem account_set {s : State} {target : Nat} {e : String × Schema} {p : Progress} (hs : schemas[target]? = some e)
    (hp : s.progress[target]? = some p) (q : Progress) :
    account schemas (s.set target q) + owed (Keyed.keys schemas) e p =
      account schemas s + owed (Keyed.keys schemas) e q := by
  rw [account, account, add_assoc, add_assoc]
  exact congrArg _ (sum_zipWith_set _ q hs hp)

/-- A node adds what it reports by itself, where entering a schema leaves the account as it is. -/
theorem account_annotate {enter : Enter}
    (henter : ∀ target place s, account schemas (enter target place s).2 = account schemas s) (n : Node) (name : String)
    (isMember : Bool) (place : Pointer) (s : State) :
    account schemas (annotate (Keyed.keys schemas) enter name isMember place n s).2 =
      account schemas s + reports (Keyed.keys schemas) place n := by
  rw [annotate_state, reports]
  generalize steps (Keyed.keys schemas) place n = l
  induction l generalizing s with
  | nil => exact (add_zero _).symm
  | cons st l ih =>
    rw [List.foldl_cons, ih, List.flatMap_cons, ← Multiset.coe_add, ← add_assoc]
    cases st with
    | enter edge => rw [State.take, henter, Step.errors, Multiset.coe_nil, add_zero]
    | report errors => rw [State.take, account_report]; rfl

/-- Entering a schema leaves the account as it is: what a schema reports it has owed. -/
theorem account_enterSchema (depth : Nat) : ∀ target place s,
    account schemas (enterSchema schemas depth target place s).2 = account schemas s := by
  induction depth with
  | zero => exact fun _ _ _ => rfl
  | succ depth ih =>
    intro target place s
    rcases hp : s.progress[target]? with _ | p
    · simp [enterSchema, hp]
    rcases hs : schemas[target]? with _ | ⟨name, schema⟩
    · cases p <;> simp [enterSchema, hp, hs]
    cases p with
    | done node => rw [enterSchema_done hp]
    | inProgress => rw [enterSchema_inProgress hp hs]; rfl
    | pending =>
      rw [enterSchema_pending hp hs]
      have hrun := (advances_annotate (advances_enterSchema schemas depth) schema.node name false (.schema name)
        (s.set target .inProgress)).1
      have hannotate := account_annotate ih schema.node name false (.schema name) (s.set target .inProgress)
      generalize annotate (Keyed.keys schemas) (enterSchema schemas depth) name false (.schema name) schema.node
        (s.set target .inProgress) = r at hrun hannotate
      have hleave := account_set hs (hrun.enter_leave hp r.1).1 (.done r.1)
      have henter := account_set hs hp .inProgress
      -- in progress or done, a schema owes nothing
      simp only [owed, add_zero] at hleave henter
      exact hleave.trans (hannotate.trans henter)

/-! ## The whole registry and the functions -/

theorem account_annotateSchemas : account schemas (annotateSchemas schemas) = account schemas (.start schemas) := by
  suffices ∀ (targets : List Nat) (s : State), account schemas
      (targets.foldl (fun s target => (enterFrom schemas target .root s).2) s) = account schemas s from this _ _
  intro targets
  induction targets with
  | nil => exact fun _ => rfl
  | cons target targets ih => exact fun s => (ih _).trans (account_enterSchema _ target .root s)

/-- At the start everything is owed. -/
theorem account_start :
    account schemas (.start schemas) =
      (schemas.flatMap fun e => reports (Keyed.keys schemas) (.schema e.1) e.2.node : List Diagnostic) := by
  rw [account, State.start, Multiset.coe_nil, zero_add]
  generalize Keyed.keys schemas = names
  induction schemas with
  | nil => rfl
  | cons e schemas ih =>
    rw [List.map_cons, List.zipWith_cons_cons, List.sum_cons, ih, List.flatMap_cons, ← Multiset.coe_add, owed]

/-- When no schema is pending nothing is. -/
theorem account_of_done {s : State} (h : ∀ p ∈ s.progress, p.isPending = false) : account schemas s = s.errors := by
  suffices hsum : ∀ (names : List String) (es : Keyed Schema) (ps : List Progress), (∀ p ∈ ps, p.isPending = false) →
      (List.zipWith (owed names) es ps).sum = 0 by
    rw [account, hsum _ schemas _ h, add_zero]
  intro names es ps hps
  induction ps generalizing es with
  | nil => simp
  | cons p ps ih =>
    obtain ⟨hp, hps⟩ := List.forall_mem_cons.mp hps
    cases es with
    | nil => rfl
    | cons e es =>
      rw [List.zipWith_cons_cons, List.sum_cons, ih _ hps]
      cases p with
      | pending => cases hp
      | _ => rfl

/-- What annotating a function reports by itself. -/
def functionReports (names : List String) (kind : String) (f : Function) : List Diagnostic :=
  f.input.toList.flatMap (fun p => reports names ⟨[kind, f.name, "input"]⟩ p.node) ++
    f.output.toList.flatMap fun p => reports names ⟨[kind, f.name, "output"]⟩ p.node

theorem account_annotateParameter (place : Pointer) (name : String) (p : Option Parameter) (s : State) :
    account schemas (annotateParameter schemas place name p s).2 =
      account schemas s + (p.toList.flatMap fun q => reports (Keyed.keys schemas) place q.node : List Diagnostic) := by
  cases p with
  | none => exact (add_zero _).symm
  | some p =>
    rw [Option.toList_some, List.flatMap_singleton]
    exact account_annotate (account_enterSchema _) p.node name false place s

theorem account_annotateFunctions (kind : String) (fs : List Function) (s : State) :
    account schemas (annotateFunctions schemas kind fs s).2 =
      account schemas s + (fs.flatMap (functionReports (Keyed.keys schemas) kind) : List Diagnostic) := by
  induction fs generalizing s with
  | nil => exact (add_zero _).symm
  | cons f fs ih =>
    simp only [annotateFunctions, annotateFunction, ih, account_annotateParameter, List.flatMap_cons, functionReports,
      ← Multiset.coe_add, add_assoc]
    rfl

end

end Annotation

end BindingSchema
