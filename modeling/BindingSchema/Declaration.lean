import BindingSchema.Interface
import BindingSchema.Problem

/-!
The names a document declares, in the order in which they are checked: exports, then imports,
then schemas, each before the properties below it. A name that is no identifier is an error;
one that some language reserves is a warning.
-/

namespace BindingSchema

/-- A name and the place where it is declared. -/
structure Declaration where
  name : String
  place : Pointer
  deriving DecidableEq

namespace Declaration

/-! ## Finding them -/

mutual

/-- The properties below a node, before those of its items and map values. -/
def ofNode (place : Pointer) : Node → List Declaration
  | ⟨_, _, _, _, items, additionalProperties, properties, _, _, _⟩ =>
    ofProperties place properties ++ ofOptional (place.push "items") items ++
      ofOptional (place.push "additionalProperties") additionalProperties

def ofOptional (place : Pointer) : Option Node → List Declaration
  | none => []
  | some n => ofNode place n

def ofProperties (place : Pointer) : List Property → List Declaration
  | [] => []
  | ⟨name, _, node⟩ :: rest =>
    let here := place.append ["properties", name]
    ⟨name, here⟩ :: ofNode here node ++ ofProperties place rest

end

def ofParameter (place : Pointer) : Option Parameter → List Declaration
  | none => []
  | some p => ofNode place p.node

def ofFunction (kind : String) (f : Function) : List Declaration :=
  let place : Pointer := ⟨[kind, f.name]⟩
  ⟨f.name, place⟩ :: ofParameter (place.push "input") f.input ++
    ofParameter (place.push "output") f.output

def ofSchema (name : String) (s : Schema) : List Declaration :=
  ⟨name, .schema name⟩ :: ofNode (.schema name) s.node

def all (exports imports : List Function) (schemas : Keyed Schema) : List Declaration :=
  exports.flatMap (ofFunction "exports") ++ imports.flatMap (ofFunction "imports") ++
    schemas.flatMap fun (name, s) => ofSchema name s

/-! ## Checking them -/

def error? (d : Declaration) : Option Diagnostic :=
  if Identifier.isValid d.name then none
  else some ((Problem.invalidName d.name).located d.place)

def warning? (d : Declaration) : Option Diagnostic :=
  if Identifier.isValid d.name then
    match Language.reserving d.name with
    | [] => none
    | languages => some ((Problem.reservedName d.name languages).located d.place)
  else none

/-- What there is to say about a declaration, after what was found before. -/
def report (found : Diagnostics) (d : Declaration) : Diagnostics :=
  match d.error? with
  | some e => found.error e
  | none =>
    match d.warning? with
    | some w => found.warn w
    | none => found

def check (ds : List Declaration) : Diagnostics := ds.foldl report {}

/-- A name that is no identifier is not looked up. -/
theorem warning?_of_error? {d : Declaration} {e : Diagnostic} (h : d.error? = some e) :
    d.warning? = none := by
  unfold error? at h
  split at h
  · cases h
  · rename_i hinvalid
    exact if_neg hinvalid

theorem foldl_report (ds : List Declaration) : ∀ found : Diagnostics,
    ds.foldl report found =
      ⟨found.errors ++ ds.filterMap error?, found.warnings ++ ds.filterMap warning?⟩ := by
  induction ds with
  | nil =>
    intro found
    simp
  | cons d ds ih =>
    intro found
    rw [List.foldl_cons, ih, report]
    cases herror : d.error? with
    | some e => simp [Diagnostics.error, herror, warning?_of_error? herror]
    | none =>
      cases hwarning : d.warning? with
      | some w => simp [Diagnostics.warn, herror, hwarning]
      | none => simp [herror, hwarning]

theorem check_eq (ds : List Declaration) : check ds = ⟨ds.filterMap error?, ds.filterMap warning?⟩ := by
  rw [check, foldl_report, List.nil_append, List.nil_append]

end Declaration

end BindingSchema
