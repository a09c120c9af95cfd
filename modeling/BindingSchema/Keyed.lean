/-!
Maps that keep the order in which their keys were first written.

Everything in a schema document is ordered: schemas are numbered by declaration, properties
and diagnostics come out in document order. A map is therefore a list of entries. Look-up
takes the first entry of a key, and `insert` keeps a key at the place where it was first
written (`keys_insert_of_mem`), so maps built with `ofList` have no key twice
(`nodup_keys_ofList`).
-/

namespace BindingSchema

abbrev Keyed (α : Type u) := List (String × α)

namespace Keyed

variable {α : Type u}

def keys (m : Keyed α) : List String := m.map (·.1)

/-- The value of the first entry under `key`. -/
def get? (m : Keyed α) (key : String) : Option α :=
  match m with
  | [] => none
  | (k, v) :: rest => if k = key then some v else get? rest key

/-- The place of the first entry under `key`. -/
def indexOf? (m : Keyed α) (key : String) : Option Nat :=
  match m with
  | [] => none
  | (k, _) :: rest => if k = key then some 0 else (indexOf? rest key).map (· + 1)

/-- A key that is there already keeps its place and takes the new value. -/
def insert (m : Keyed α) (key : String) (value : α) : Keyed α :=
  match m with
  | [] => [(key, value)]
  | (k, v) :: rest => if k = key then (k, value) :: rest else (k, v) :: insert rest key value

/-- Entries in the order of their first mention; the last value under a key wins. -/
def ofList (entries : List (String × α)) : Keyed α :=
  entries.foldl (fun m e => insert m e.1 e.2) []

/-! ## Keys -/

theorem keys_insert_of_mem {m : Keyed α} {key : String} {value : α} (h : key ∈ keys m) :
    keys (insert m key value) = keys m := by
  induction m with
  | nil => simp [keys] at h
  | cons e rest ih =>
    obtain ⟨k, v⟩ := e
    by_cases hk : k = key
    · simp [insert, keys, hk]
    · have hr : key ∈ keys rest := by
        rcases List.mem_cons.mp h with h | h
        · exact absurd h.symm hk
        · exact h
      have := ih hr
      simp only [keys] at this
      simp [insert, keys, hk, this]

theorem keys_insert_of_not_mem {m : Keyed α} {key : String} {value : α} (h : key ∉ keys m) :
    keys (insert m key value) = keys m ++ [key] := by
  induction m with
  | nil => simp [insert, keys]
  | cons e rest ih =>
    obtain ⟨k, v⟩ := e
    have hk : k ≠ key := fun e => h (by simp [keys, e])
    have hr : key ∉ keys rest := fun hm => h (List.mem_cons_of_mem _ hm)
    have := ih hr
    simp only [keys] at this
    simp [insert, keys, hk, this]

theorem nodup_keys_insert {m : Keyed α} {key : String} {value : α} (h : (keys m).Nodup) :
    (keys (insert m key value)).Nodup := by
  by_cases hm : key ∈ keys m
  · rw [keys_insert_of_mem hm]; exact h
  · rw [keys_insert_of_not_mem hm]
    rw [List.nodup_append]
    refine ⟨h, by simp, ?_⟩
    intro a ha b hb hab
    simp at hb
    exact hm (by rw [← hb, ← hab]; exact ha)

theorem nodup_keys_ofList (entries : List (String × α)) : (keys (ofList entries)).Nodup := by
  suffices ∀ m : Keyed α, (keys m).Nodup →
      (keys (entries.foldl (fun m e => insert m e.1 e.2) m)).Nodup from this [] (by simp [keys])
  induction entries with
  | nil => exact fun _ h => h
  | cons e rest ih => exact fun m h => ih _ (nodup_keys_insert h)

end Keyed

end BindingSchema
