import BindingSchema.Proofs.Document.Records

/-!
What a text stands for.

The checks of a document know the types, formats and content types by `ofText?`, and the readers by tables
of their own. Both know the same words, and take them for the same things (`TypeName.get?_words`,
`Format.get?_words`, `ContentType.get?_words`). So a word that a check has nothing against is read
(`word_of_text`), and a word that is read is one that the checks know (`word_eq_ok`).
-/

namespace BindingSchema

open Decode

/-! ## Tables -/

/-- A table of texts is searched for a text like the list it was made from. -/
theorem Keyed.get?_texts {β : Type u} (text : β → String) (bs : List β) (key : String) :
    get? (bs.map fun b => (text b, b)) key = bs.find? (text · == key) := by
  induction bs with
  | nil => rfl
  | cons b bs ih =>
    rw [List.map_cons, get?, List.find?_cons, ih]
    by_cases h : text b = key
    · simp [h]
    · rw [if_neg h, beq_eq_false_iff_ne.mpr h]

/-- A table agrees with a check if each knows the words of the other, for the same things. -/
theorem Keyed.get?_eq_of_words {α : Type u} {ofText? : String → Option α} {words : Keyed α}
    (hknown : ∀ e ∈ words, ofText? e.1 = some e.2) (hread : ∀ s a, ofText? s = some a → get? words s = some a)
    (s : String) : get? words s = ofText? s := by
  cases htext : ofText? s with
  | some a => exact hread s a htext
  | none =>
    refine get?_eq_none fun hs => ?_
    obtain ⟨e, he, rfl⟩ := List.mem_map.mp hs
    cases htext.symm.trans (hknown e he)

theorem TypeName.get?_words (s : String) : Keyed.get? words s = ofText? s := by
  refine Keyed.get?_eq_of_words (by decide) (fun s a h => ?_) s
  unfold ofText? at h
  split at h <;> cases h
  all_goals rfl

theorem Format.get?_words (s : String) : Keyed.get? words s = ofText? s := by
  refine Keyed.get?_eq_of_words (by decide) (fun s a h => ?_) s
  unfold ofText? at h
  split at h <;> cases h
  all_goals rfl

theorem ContentType.get?_words (s : String) : Keyed.get? words s = ofText? s :=
  Keyed.get?_texts text all s

/-! ## Reading -/

section

variable {α : Type} {source : Source} {words : List (String × α)} {a : α}

theorem lookupWord_eq_ok {s : String} : lookupWord words s = .ok a ↔ Keyed.get? words s = some a := by
  unfold lookupWord
  cases Keyed.get? words s <;> simp

/-- A word is a string that is listed; anything else it may be written as is no string. -/
theorem word_eq_ok {v : Value} (h : word source words v = .ok a) :
    v.asString? = none ∨ ∃ s, v = .string s ∧ Keyed.get? words s = some a := by
  cases v with
  | string s => exact Or.inr ⟨s, rfl, lookupWord_eq_ok.mp h⟩
  | _ => exact Or.inl rfl

/-- A text is read as what it stands for, by a table with the same words. -/
theorem word_of_text {ofText? : String → Option α} (hwords : ∀ s, Keyed.get? words s = ofText? s) {s : String}
    (h : ofText? s = some a) : word source words (.string s) = .ok a :=
  lookupWord_eq_ok.mpr ((hwords s).trans h)

end

end BindingSchema
