import BindingSchema.Proofs.Annotation.Progress

/-!
The recursion into schemas ends by itself.

Every schema that is entered is one less that is pending, and annotating a node never makes it more
again. So two depths that are both more than there is pending give the same answer in the same state
(`enterSchema_depth`): the depth is what the recursion is defined by, and never what ends it.
-/

namespace BindingSchema

namespace Annotation

/-- As long as at most `limit` schemas are pending, both answer alike, and leave it so. -/
def Agree (limit : Nat) (enter enter' : Enter) : Prop :=
  ∀ target place s, s.pending ≤ limit →
    enter target place s = enter' target place s ∧ (enter target place s).2.pending ≤ limit

variable {names : List String} {enter enter' : Enter} {limit : Nat}

theorem annotateProperties_agree {ps : List Property}
    (h : ∀ p ∈ ps, ∀ (name : String) (isMember : Bool) (place : Pointer) (s : State), s.pending ≤ limit →
      annotate names enter name isMember place p.node s = annotate names enter' name isMember place p.node s ∧
        (annotate names enter name isMember place p.node s).2.pending ≤ limit)
    (place : Pointer) (s : State) (hs : s.pending ≤ limit) :
    annotateProperties names enter place ps s = annotateProperties names enter' place ps s ∧
      (annotateProperties names enter place ps s).2.pending ≤ limit := by
  induction ps generalizing s with
  | nil => exact ⟨rfl, hs⟩
  | cons p ps ih =>
    obtain ⟨name, required, node⟩ := p
    obtain ⟨hnode, hpending⟩ := h _ List.mem_cons_self name true (place.push name) s hs
    obtain ⟨hrest, hlast⟩ := ih (fun p hp => h p (List.mem_cons_of_mem _ hp)) _ hpending
    simp only [annotateProperties]
    rw [← hnode, ← hrest]
    exact ⟨rfl, hlast⟩

/-- What annotation makes of a node depends on the answers that it gets on the way. -/
theorem annotate_agree (h : Agree limit enter enter') (n : Node) :
    ∀ (name : String) (isMember : Bool) (place : Pointer) (s : State), s.pending ≤ limit →
      annotate names enter name isMember place n s = annotate names enter' name isMember place n s ∧
        (annotate names enter name isMember place n s).2.pending ≤ limit := by
  induction n using Node.induct with
  | h n ihProperties ihItems ihValues =>
    intro name isMember place s hs
    cases hb : n.branch with
    | properties ps =>
      have hps := (Node.branch_eq_properties.mp hb).2
      obtain ⟨heq, hpending⟩ := annotateProperties_agree (fun p hp => ihProperties p (hps ▸ hp))
        (place.push "properties") s hs
      rw [annotate_properties _ _ _ _ _ _ hb, annotate_properties _ _ _ _ _ _ hb, ← heq]
      exact ⟨rfl, hpending⟩
    | reference r =>
      cases hr : resolve names r.path with
      | error problem =>
        rw [annotate_missing _ _ _ _ _ _ hb hr, annotate_missing _ _ _ _ _ _ hb hr]
        exact ⟨rfl, hs⟩
      | ok target =>
        obtain ⟨heq, hpending⟩ := h target (place.push "$ref") s hs
        rw [annotate_reference _ _ _ _ _ _ hb hr, annotate_reference _ _ _ _ _ _ hb hr, ← heq]
        exact ⟨rfl, hpending⟩
    | enumeration values =>
      rw [annotate_enumeration _ _ _ _ _ _ hb, annotate_enumeration _ _ _ _ _ _ hb]
      exact ⟨rfl, hs⟩
    | items item =>
      obtain ⟨heq, hpending⟩ := ihItems item (Node.branch_eq_items.mp hb).2.2.2 name true (place.push "items") s hs
      rw [annotate_items _ _ _ _ _ _ hb, annotate_items _ _ _ _ _ _ hb, ← heq]
      exact ⟨rfl, hpending⟩
    | mapValues value =>
      obtain ⟨heq, hpending⟩ := ihValues value (Node.branch_eq_mapValues.mp hb).2.2.2.2 name true
        (place.push "additionalProperties") s hs
      rw [annotate_mapValues _ _ _ _ _ _ hb, annotate_mapValues _ _ _ _ _ _ hb, ← heq]
      exact ⟨rfl, hpending⟩
    | declared =>
      rw [annotate_declared _ _ _ _ _ _ hb, annotate_declared _ _ _ _ _ _ hb]
      exact ⟨rfl, hs⟩

/-- Any depth beyond the number of pending schemas will do. -/
theorem enterSchema_depth {schemas : Keyed Schema} {depth : Nat} : ∀ {depth' : Nat} (target : Nat) (place : Pointer)
    (s : State), s.pending < depth → s.pending < depth' →
    enterSchema schemas depth target place s = enterSchema schemas depth' target place s := by
  induction depth with
  | zero => intro _ _ _ _ h; omega
  | succ depth ih =>
    intro depth' target place s h h'
    cases depth' with
    | zero => omega
    | succ depth' =>
      rcases hp : s.progress[target]? with _ | p
      · simp [enterSchema, hp]
      rcases hs : schemas[target]? with _ | ⟨name, schema⟩
      · cases p <;> simp [enterSchema, hp, hs]
      cases p with
      | done node => rw [enterSchema_done hp, enterSchema_done hp]
      | inProgress => rw [enterSchema_inProgress hp hs, enterSchema_inProgress hp hs]
      | pending =>
        -- inside the schema one fewer is pending, so one level less will do
        have hlt := pending_set_lt hp
        have hagree : Agree (s.set target .inProgress).pending (enterSchema schemas depth)
            (enterSchema schemas depth') := by
          intro target place t ht
          exact ⟨ih target place t (by omega) (by omega),
            Nat.le_trans (advances_enterSchema schemas depth target place t).1.pending ht⟩
        rw [enterSchema_pending hp hs, enterSchema_pending hp hs,
          (annotate_agree hagree schema.node name false (.schema name) _ (Nat.le_refl _)).1]

end Annotation

end BindingSchema
