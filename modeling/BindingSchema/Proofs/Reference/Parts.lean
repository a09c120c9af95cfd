import BindingSchema.Pointer
import BindingSchema.Reference

/-!
The parts of a path, and which paths point to a schema.

Splitting a path at its slashes and joining segments that have none undo each other (`parts_eq_iff`).
So keys without a slash come back out of the text of a pointer as they went in (`parts_text`), and the
text then tells pointers apart.

For references this says which paths are read: the ones that `toSchema` writes for a name that is not
empty and has no slash, each with that name, and no others (`parse_exact`).
-/

namespace BindingSchema

namespace SchemaRef

/-! ## Splitting and joining -/

theorem split_eq_splitOn (cs : List Char) : split cs = cs.splitOn '/' := by
  induction cs with
  | nil => rfl
  | cons c cs ih =>
    rw [split, ih, List.splitOn, List.splitOn, List.splitOnP_cons_eq_if_modifyHead]
    by_cases hc : c = '/'
    · simp [hc]
    · rw [if_neg hc, if_neg (by simpa using hc)]
      cases hparts : List.splitOnP (· == '/') cs with
      | nil => exact absurd hparts (List.splitOnP_ne_nil _ _)
      | cons part parts => rfl

theorem parts_intercalate {segments : List String} (hne : segments ≠ [])
    (h : ∀ s ∈ segments, '/' ∉ s.toList) : parts ("/".intercalate segments) = segments := by
  have hsplit : List.splitOn '/' (['/'].intercalate (segments.map String.toList)) = segments.map String.toList :=
    List.splitOn_intercalate '/' (by simpa using h) (by simpa using hne)
  rw [parts, split_eq_splitOn, String.toList_intercalate]
  change (List.splitOn '/' (['/'].intercalate (segments.map String.toList))).map String.ofList = segments
  rw [hsplit, List.map_map]
  simp [Function.comp_def]

theorem intercalate_parts (path : String) : "/".intercalate (parts path) = path := by
  have hparts : (parts path).map String.toList = path.toList.splitOn '/' := by
    simp [parts, split_eq_splitOn, Function.comp_def]
  rw [← String.toList_inj, String.toList_intercalate, hparts]
  exact List.intercalate_splitOn '/'

theorem slash_not_mem_split (cs : List Char) : ∀ part ∈ split cs, '/' ∉ part := by
  induction cs with
  | nil => simp [split]
  | cons c cs ih =>
    rw [split]
    by_cases hc : c = '/'
    · simpa [hc] using ih
    · rw [if_neg hc]
      cases hparts : split cs with
      | nil => simpa using Ne.symm hc
      | cons part parts =>
        rw [hparts] at ih
        simpa [Ne.symm hc] using ih

theorem slash_not_mem_parts {path part : String} (h : part ∈ parts path) : '/' ∉ part.toList := by
  obtain ⟨cs, hcs, rfl⟩ := List.mem_map.mp h
  simpa using slash_not_mem_split path.toList cs hcs

/-- A path is its parts joined by slashes, and is so in one way only. -/
theorem parts_eq_iff {path : String} {segments : List String} (hne : segments ≠ []) :
    parts path = segments ↔ path = "/".intercalate segments ∧ ∀ s ∈ segments, '/' ∉ s.toList := by
  constructor
  · rintro rfl
    exact ⟨(intercalate_parts path).symm, fun s hs => slash_not_mem_parts hs⟩
  · rintro ⟨rfl, h⟩
    exact parts_intercalate hne h

theorem parts_text {p : Pointer} (h : ∀ s ∈ p.segments, '/' ∉ s.toList) : parts p.text = "#" :: p.segments :=
  parts_intercalate (List.cons_ne_nil _ _) (by simpa using h)

/-! ## Paths to schemas -/

/-- A name that a reference can be written for: it is one part of the path, and not an empty one. -/
structure Referable (name : String) : Prop where
  nonempty : name ≠ ""
  plain : '/' ∉ name.toList

variable {path name : String}

theorem lead_append (name : String) : lead ++ name = "/".intercalate ["#", "components", "schemas", name] := by
  rw [← String.toList_inj]
  simp [lead]

theorem parts_eq_lead_iff :
    parts path = ["#", "components", "schemas", name] ↔ path = lead ++ name ∧ '/' ∉ name.toList := by
  rw [parts_eq_iff (List.cons_ne_nil _ _), ← lead_append]
  simp

theorem parse_lead (h : Referable name) : parse (lead ++ name) = .ok name := by
  have hparts : parts (lead ++ name) = ["#", "components", "schemas", name] :=
    parts_eq_lead_iff.mpr ⟨rfl, h.plain⟩
  rw [parse, hparts]
  exact if_neg h.nonempty

theorem parse_cases (path : String) :
    (∃ name, path = lead ++ name ∧ Referable name) ∨ parse path = .error (.invalid path) := by
  rw [parse]
  split
  · rename_i name hparts
    obtain ⟨hpath, hplain⟩ := parts_eq_lead_iff.mp hparts
    by_cases hname : name = ""
    · exact .inr (if_pos hname)
    · exact .inl ⟨name, hpath, hname, hplain⟩
  · exact .inr rfl

theorem parse_eq_ok_iff : parse path = .ok name ↔ path = lead ++ name ∧ Referable name := by
  constructor
  · intro h
    obtain ⟨found, rfl, hfound⟩ | herror := parse_cases path
    · obtain rfl : found = name := by simpa [parse_lead hfound] using h
      exact ⟨rfl, hfound⟩
    · simp [herror] at h
  · rintro ⟨rfl, hname⟩
    exact parse_lead hname

theorem parse_eq_error_iff {error : ReferenceError} :
    parse path = .error error ↔ error = .invalid path ∧ ¬ ∃ name, path = lead ++ name ∧ Referable name := by
  constructor
  · intro h
    have hnone : ¬ ∃ name, path = lead ++ name ∧ Referable name := by
      rintro ⟨name, rfl, hname⟩
      simp [parse_lead hname] at h
    have herror := (parse_cases path).resolve_left hnone
    obtain rfl : error = .invalid path := by simpa [herror, eq_comm] using h
    exact ⟨rfl, hnone⟩
  · rintro ⟨rfl, hnone⟩
    exact (parse_cases path).resolve_left hnone

theorem schemaName_toSchema {found : String} :
    (toSchema name).schemaName = .ok found ↔ found = name ∧ Referable name := by
  rw [schemaName, toSchema, parse_eq_ok_iff, String.append_right_inj]
  constructor
  · rintro ⟨rfl, hname⟩
    exact ⟨rfl, hname⟩
  · rintro ⟨rfl, hname⟩
    exact ⟨rfl, hname⟩

/-- What a path is read as tells which path it was: a name is read from one path only, and an error
has the whole path in it. -/
theorem parse_injective : Function.Injective parse := by
  intro path path' h
  cases hparse : parse path' with
  | ok name =>
    have hpath := parse_eq_ok_iff.mp (h.trans hparse)
    have hpath' := parse_eq_ok_iff.mp hparse
    exact hpath.1.trans hpath'.1.symm
  | error error =>
    have hpath := parse_eq_error_iff.mp (h.trans hparse)
    have hpath' := parse_eq_error_iff.mp hparse
    exact ReferenceError.invalid.inj (hpath.1.symm.trans hpath'.1)

/-- The paths that are read are the ones that are written for a referable name, each as that name; any
other path is an error that has the whole path in it. So the name of a reference that is written for a
name is this name if it is referable, and there is none if it is not. No two paths are read alike. -/
theorem parse_exact :
    (∀ path name, parse path = .ok name ↔ path = lead ++ name ∧ Referable name) ∧
      (∀ path error, parse path = .error error ↔
        error = .invalid path ∧ ¬ ∃ name, path = lead ++ name ∧ Referable name) ∧
      (∀ name found, (toSchema name).schemaName = .ok found ↔ found = name ∧ Referable name) ∧
      Function.Injective parse :=
  ⟨fun _ _ => parse_eq_ok_iff, fun _ _ => parse_eq_error_iff, fun _ _ => schemaName_toSchema, parse_injective⟩

example : (toSchema "Fruit/seed").schemaName = .error (.invalid "#/components/schemas/Fruit/seed") := by
  rfl

end SchemaRef

end BindingSchema
