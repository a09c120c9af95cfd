import BindingSchema.Proofs.Interface.Fields
import BindingSchema.TextFormat

/-!
What is read from a text repeats no key.

Both readers gather the members of an object as they come and make the object of them at its end, with
`Keyed.ofList`, which keeps the first place and the last value of a key. So no object in a value that
was read has a key twice, at any depth, and whatever holds of unrepeated values holds of every document
that is given as a text (`unrepeated_decode`).
-/

namespace BindingSchema

/-! ## Objects made of their members -/

namespace Keyed

variable {α : Type u}

theorem mem_insert {m : Keyed α} {key : String} {value : α} {e : String × α} (h : e ∈ insert m key value) :
    e ∈ m ∨ e = (key, value) := by
  induction m with
  | nil => exact Or.inr (List.mem_singleton.mp h)
  | cons d rest ih =>
    obtain ⟨k, v⟩ := d
    by_cases hk : k = key
    · rw [insert, if_pos hk, List.mem_cons, hk] at h
      exact h.symm.imp (List.mem_cons_of_mem _) id
    · rw [insert, if_neg hk, List.mem_cons] at h
      rcases h with rfl | h
      · exact Or.inl List.mem_cons_self
      · exact (ih h).imp (List.mem_cons_of_mem _) id

theorem mem_of_mem_ofList {entries : List (String × α)} {e : String × α} (h : e ∈ ofList entries) : e ∈ entries := by
  suffices hfold : ∀ m : Keyed α, e ∈ entries.foldl (fun m e => insert m e.1 e.2) m → e ∈ m ∨ e ∈ entries from
    (hfold [] h).resolve_left List.not_mem_nil
  clear h
  induction entries with
  | nil => exact fun m h => Or.inl h
  | cons d rest ih =>
    intro m h
    rcases ih _ h with h | h
    · rcases mem_insert h with h | rfl
      · exact Or.inl h
      · exact Or.inr List.mem_cons_self
    · exact Or.inr (List.mem_cons_of_mem _ h)

end Keyed

theorem Value.unrepeated_ofList {members : List (String × Value)} (h : ∀ m ∈ members, m.2.Unrepeated) :
    (object (Keyed.ofList members)).Unrepeated :=
  unrepeated_object.mpr ⟨Keyed.nodup_keys_ofList members, fun m hm => h m (Keyed.mem_of_mem_ofList hm)⟩

/-! ## JSON -/

namespace Json

theorem bind_eq_ok {α β : Type} {x : Except Error α} {f : α → Except Error β} {b : β} :
    (x >>= f) = .ok b ↔ ∃ a, x = .ok a ∧ f a = .ok b := by
  constructor
  · intro h
    cases x with
    | error e => cases h
    | ok a => exact ⟨a, rfl, h⟩
  · rintro ⟨a, rfl, h⟩
    exact h

/-- With `fuel` steps to go, nothing is read that repeats a key if nothing was before. -/
structure Unrepeating (fuel : Nat) : Prop where
  value : ∀ {depth : Nat} {cur cur' : Cursor} {v : Value}, readValue depth fuel cur = .ok (v, cur') → v.Unrepeated
  items : ∀ {depth : Nat} {first : Bool} {read items : List Value} {cur cur' : Cursor},
    (∀ v ∈ read, v.Unrepeated) → readItems depth first read fuel cur = .ok (items, cur') →
      ∀ v ∈ items, v.Unrepeated
  members : ∀ {depth : Nat} {first : Bool} {read members : List (String × Value)} {cur cur' : Cursor},
    (∀ m ∈ read, m.2.Unrepeated) → readMembers depth first read fuel cur = .ok (members, cur') →
      ∀ m ∈ members, m.2.Unrepeated

variable {fuel : Nat}

theorem Unrepeating.readValue (h : Unrepeating fuel) {depth : Nat} {cur cur' : Cursor} {v : Value}
    (hread : readValue depth (fuel + 1) cur = .ok (v, cur')) : v.Unrepeated := by
  rw [Json.readValue] at hread
  split at hread
  case h_1 => cases hread
  case h_7 =>
    -- a list
    split at hread
    · cases hread
    · obtain ⟨⟨items, _⟩, hitems, hread⟩ := bind_eq_ok.mp hread
      cases hread
      exact Value.unrepeated_array.mpr (h.items (List.forall_mem_nil _) hitems)
  case h_8 =>
    -- an object
    split at hread
    · cases hread
    · obtain ⟨⟨members, _⟩, hmembers, hread⟩ := bind_eq_ok.mp hread
      cases hread
      exact Value.unrepeated_ofList (h.members (List.forall_mem_nil _) hmembers)
  case h_9 =>
    split at hread
    · obtain ⟨_, _, hread⟩ := bind_eq_ok.mp hread
      cases hread
      trivial
    · cases hread
  all_goals
    obtain ⟨_, _, hread⟩ := bind_eq_ok.mp hread
    cases hread
    trivial

theorem Unrepeating.readItems (h : Unrepeating fuel) {depth : Nat} {first : Bool} {read items : List Value}
    {cur cur' : Cursor} (hearlier : ∀ v ∈ read, v.Unrepeated)
    (hread : readItems depth first read (fuel + 1) cur = .ok (items, cur')) : ∀ v ∈ items, v.Unrepeated := by
  rw [Json.readItems] at hread
  obtain ⟨⟨more, _⟩, _, hread⟩ := bind_eq_ok.mp hread
  cases more with
  | false =>
    cases hread
    exact fun v hv => hearlier v (List.mem_reverse.mp hv)
  | true =>
    obtain ⟨⟨item, _⟩, hitem, hread⟩ := bind_eq_ok.mp hread
    exact h.items (List.forall_mem_cons.mpr ⟨h.value hitem, hearlier⟩) hread

theorem Unrepeating.readMembers (h : Unrepeating fuel) {depth : Nat} {first : Bool}
    {read members : List (String × Value)} {cur cur' : Cursor} (hearlier : ∀ m ∈ read, m.2.Unrepeated)
    (hread : readMembers depth first read (fuel + 1) cur = .ok (members, cur')) :
    ∀ m ∈ members, m.2.Unrepeated := by
  rw [Json.readMembers] at hread
  obtain ⟨⟨more, _⟩, _, hread⟩ := bind_eq_ok.mp hread
  cases more with
  | false =>
    cases hread
    exact fun m hm => hearlier m (List.mem_reverse.mp hm)
  | true =>
    obtain ⟨⟨key, _⟩, _, hread⟩ := bind_eq_ok.mp hread
    obtain ⟨⟨value, _⟩, hvalue, hread⟩ := bind_eq_ok.mp hread
    exact h.members (List.forall_mem_cons.mpr ⟨h.value hvalue, hearlier⟩) hread

theorem unrepeating (fuel : Nat) : Unrepeating fuel := by
  induction fuel with
  | zero =>
    constructor
    · intro _ _ _ _ h
      rw [readValue] at h
      cases h
    · intro _ _ _ _ _ _ _ h
      rw [readItems] at h
      cases h
    · intro _ _ _ _ _ _ _ h
      rw [readMembers] at h
      cases h
  | succ fuel ih => exact ⟨ih.readValue, ih.readItems, ih.readMembers⟩

theorem unrepeated_parse {text : String} {v : Value} (h : parse text = .ok v) : v.Unrepeated := by
  obtain ⟨⟨w, _⟩, hw, h⟩ := bind_eq_ok.mp h
  obtain ⟨_, _, h⟩ := bind_eq_ok.mp h
  cases h
  exact (unrepeating _).value hw

end Json

/-! ## YAML -/

namespace Yaml

/-! ### Scalars: no list and no object, so no keys -/

namespace Scalar

theorem unrepeated_double (x : Double) : x.value.Unrepeated := by
  cases x <;> trivial

theorem unrepeated_intValue {n : Int} {v : Value} (h : intValue? n = some v) : v.Unrepeated := by
  unfold intValue? at h
  split at h
  · cases h
    trivial
  · cases h

theorem unrepeated_plain {text : String} {v : Value} (h : plain text = some v) : v.Unrepeated := by
  unfold plain at h
  split at h
  · cases h
    trivial
  split at h
  · cases h
    trivial
  extract_lets double other at h
  have hother : other.Unrepeated := by
    cases hdouble : double with
    | none =>
      simp only [other, hdouble]
      trivial
    | some x =>
      simp only [other, hdouble]
      exact unrepeated_double x
  split at h
  · split at h
    · exact unrepeated_intValue h
    · exact Option.some.inj h ▸ hother
  · exact Option.some.inj h ▸ hother

theorem unrepeated_untagged {style : Style} {text : String} {v : Value} (h : untagged style text = some v) :
    v.Unrepeated := by
  unfold untagged at h
  split at h
  · exact unrepeated_plain h
  · cases h
    trivial

theorem unrepeated_value {tag? : Option Tag} {style : Style} {text : String} {v : Value}
    (h : value? tag? style text = some v) : v.Unrepeated := by
  unfold value? at h
  split at h
  · exact unrepeated_untagged h
  split at h
  · exact unrepeated_untagged h
  split at h
  · obtain ⟨b, _, rfl⟩ := Option.map_eq_some_iff.mp h
    trivial
  split at h
  · obtain ⟨n, _, h⟩ := Option.bind_eq_some_iff.mp h
    exact unrepeated_intValue h
  split at h
  · obtain ⟨x, _, rfl⟩ := Option.map_eq_some_iff.mp h
    exact unrepeated_double x
  split at h
  · split at h
    · cases h
      trivial
    · cases h
  · cases h
    trivial

end Scalar

/-! ### Nodes -/

namespace Node

theorem bind_eq_some {α β : Type} {x : StateT Nat Option α} {f : α → StateT Nat Option β} {count : Nat}
    {r : β × Nat} : (x >>= f) count = some r ↔ ∃ a count', x count = some (a, count') ∧ f a count' = some r := by
  show (x count).bind (fun p => f p.1 p.2) = some r ↔ _
  rw [Option.bind_eq_some_iff]
  exact ⟨fun ⟨⟨a, count'⟩, h⟩ => ⟨a, count', h⟩, fun ⟨a, count', h⟩ => ⟨⟨a, count'⟩, h⟩⟩

/-- What is true of each outcome is true of all of them. -/
theorem forall_mem_of_mapM {α β : Type} {f : α → StateT Nat Option β} {P : β → Prop}
    (hf : ∀ a count b count', f a count = some (b, count') → P b) {as : List α} {count count' : Nat} {bs : List β}
    (h : as.mapM f count = some (bs, count')) : ∀ b ∈ bs, P b := by
  induction as generalizing count bs with
  | nil =>
    cases h
    nofun
  | cons a as ih =>
    rw [List.mapM_cons] at h
    obtain ⟨b, _, hb, h⟩ := bind_eq_some.mp h
    obtain ⟨rest, _, hrest, h⟩ := bind_eq_some.mp h
    cases h
    exact List.forall_mem_cons.mpr ⟨hf _ _ _ _ hb, ih hrest⟩

theorem eq_some_of_lift {α : Type} {x : Option α} {count count' : Nat} {a : α}
    (h : (liftM x : StateT Nat Option α) count = some (a, count')) : x = some a := by
  cases x with
  | none => cases h
  | some b =>
    cases h
    rfl

theorem unrepeated_scalarValue {p : Properties} {style : Style} {text : String} {v : Value}
    (h : scalarValue? p style text = some v) : v.Unrepeated := by
  unfold scalarValue? at h
  split at h
  · cases h
  · exact Scalar.unrepeated_value h

/-- What a node means is unrepeated if that of every node is inside of which there is less room. -/
theorem unrepeated_value {anchors : Anchors} {room : Nat} :
    ∀ {n : Node} {count count' : Nat} {v : Value}, value anchors room n count = some (v, count') → v.Unrepeated := by
  induction room with
  | zero =>
    intro n count count' v h
    rw [value] at h
    obtain ⟨target, _, _, h⟩ := bind_eq_some.mp h
    cases target with
    | scalar p style text => exact unrepeated_scalarValue (eq_some_of_lift h)
    | _ => cases h
  | succ room ih =>
    intro n count count' v h
    rw [value] at h
    obtain ⟨target, _, _, h⟩ := bind_eq_some.mp h
    cases target with
    | «alias» number => cases h
    | scalar p style text => exact unrepeated_scalarValue (eq_some_of_lift h)
    | sequence p items =>
      dsimp only at h
      split at h
      · cases h
      obtain ⟨vs, _, hvs, h⟩ := bind_eq_some.mp h
      cases h
      exact Value.unrepeated_array.mpr (forall_mem_of_mapM (fun _ _ _ _ => ih) hvs)
    | mapping p entries =>
      dsimp only at h
      split at h
      · cases h
      obtain ⟨members, _, hmembers, h⟩ := bind_eq_some.mp h
      cases h
      refine Value.unrepeated_ofList (forall_mem_of_mapM (fun e _ m _ hm => ?_) hmembers)
      obtain ⟨key, _, _, hm⟩ := bind_eq_some.mp hm
      obtain ⟨w, _, hw, hm⟩ := bind_eq_some.mp hm
      cases hm
      exact ih hw

end Node

theorem unrepeated_parse {text : String} {v : Value} (h : parse text = some v) : v.Unrepeated := by
  unfold parse at h
  split at h
  · cases h
  obtain ⟨ts, _, h⟩ := Option.bind_eq_some_iff.mp h
  obtain ⟨root, _, h⟩ := Option.bind_eq_some_iff.mp h
  cases root with
  | none =>
    cases h
    trivial
  | some root =>
    obtain ⟨⟨w, _⟩, hw, rfl⟩ := Option.map_eq_some_iff.mp h
    exact Node.unrepeated_value hw

end Yaml

theorem TextFormat.unrepeated_decode {format : TextFormat} {text : String} {v : Value}
    (h : format.decode text = .ok v) : v.Unrepeated := by
  unfold decode at h
  split at h
  · split at h
    · rename_i hparse
      cases h
      exact Json.unrepeated_parse hparse
    · cases h
  · split at h
    · rename_i hparse
      cases h
      exact Yaml.unrepeated_parse hparse
    · cases h

end BindingSchema
