/-!
What is found wrong with a document, and how it is collected.

Nothing stops at the first problem. Each step adds to the diagnostics, and at the end the
caller gets the value with its warnings, or every error at once.
-/

namespace BindingSchema

inductive Category where
  /-- A bad version, name, type, format, reference or property. -/
  | structural
  /-- Schemas that refer to each other in a circle. -/
  | cycle
  /-- A name that some target language reserves; a warning. -/
  | keyword
  /-- A version whose form is not final; a warning. -/
  | draftVersion
  deriving DecidableEq

def Category.text : Category → String
  | .structural => "STRUCTURAL"
  | .cycle => "CYCLE"
  | .keyword => "KEYWORD"
  | .draftVersion => "DRAFT_VERSION"

structure Diagnostic where
  message : String
  /-- Where the problem is, as the text of a pointer. -/
  path : String
  category : Category := .structural
  deriving DecidableEq

def Diagnostic.isCycle (d : Diagnostic) : Bool := d.category == .cycle

structure Diagnostics where
  errors : List Diagnostic := []
  warnings : List Diagnostic := []
  deriving DecidableEq

/-- Every error found in a document that was turned down, with the warnings up to then. -/
structure Rejection where
  errors : List Diagnostic
  warnings : List Diagnostic
  deriving DecidableEq

namespace Diagnostics

def error (ds : Diagnostics) (d : Diagnostic) : Diagnostics := { ds with errors := ds.errors ++ [d] }

def warn (ds : Diagnostics) (d : Diagnostic) : Diagnostics := { ds with warnings := ds.warnings ++ [d] }

def hasErrors (ds : Diagnostics) : Bool := !ds.errors.isEmpty

/-- The value with its warnings, unless there is an error. -/
def result (ds : Diagnostics) (value : α) : Except Rejection (α × List Diagnostic) :=
  if ds.hasErrors then .error ⟨ds.errors, ds.warnings⟩ else .ok (value, ds.warnings)

theorem result_eq (ds : Diagnostics) (value : α) :
    ds.result value =
      if ds.errors = [] then .ok (value, ds.warnings) else .error ⟨ds.errors, ds.warnings⟩ := by
  cases h : ds.errors <;> simp [result, hasErrors, h]

end Diagnostics

namespace Rejection

/-- The first error stands for all of them. -/
def summary (r : Rejection) : String :=
  match r.errors with
  | [] => "Invalid document"
  | [only] => only.message
  | first :: rest => first.message ++ " (and " ++ toString rest.length ++ " other error(s))"

def cycles (r : Rejection) : List Diagnostic := r.errors.filter (·.isCycle)

end Rejection

end BindingSchema
