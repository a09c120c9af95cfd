import BindingSchema.Annotation
import BindingSchema.Declaration
import BindingSchema.Lowering
import BindingSchema.ReferenceGraph
import BindingSchema.Structure

/-!
From a document to its normal form: lowering, names, types, and no circles.

Every step runs whatever the earlier ones found, and all errors are raised together.
-/

namespace BindingSchema

structure Normalized where
  interface : Interface
  warnings : List Diagnostic

namespace Normalization

/-! ## Required properties -/

def requiredErrors (schemas : Keyed Definition) : List Diagnostic :=
  schemas.flatMap fun (name, d) =>
    d.required.flatMap fun required =>
      if (Keyed.get? d.properties required).isSome then []
      else [(Problem.requiredUndefined (.string required)).located (.schema name)]

/-! ## Versions -/

/-- The exports of version 0 are names, taken as they are written. -/
def ofNames (doc : NameDocument) : Normalized :=
  ⟨{ version := .v0, exports := doc.exports.map fun name => { name := name } }, []⟩

/-- What is derived from a document of version 1. -/
structure Derivation where
  interface : Interface
  diagnostics : Diagnostics
  /-- The references whose type is a placeholder. -/
  placeholders : List Pointer

def derive (doc : FunctionDocument) : Derivation :=
  let schemas := lowerSchemas doc.schemas
  let exports := lowerFunctions doc.exports
  let imports := lowerFunctions doc.imports
  let names := Declaration.check (Declaration.all exports imports schemas)
  let s := Annotation.annotateSchemas schemas
  let (exports, s) := Annotation.annotateFunctions schemas "exports" exports s
  let (imports, s) := Annotation.annotateFunctions schemas "imports" imports s
  let schemas := s.registry schemas
  let cycles := (ReferenceGraph.ofSchemas schemas).cycles
  { interface := { version := .v1, exports, imports, schemas }
    diagnostics :=
      { errors := requiredErrors doc.schemas ++ names.errors ++ s.errors ++ cycles.map (·.diagnostic)
        warnings := names.warnings }
    placeholders := s.placeholders }

def ofFunctions (doc : FunctionDocument) : Except Rejection Normalized :=
  let d := derive doc
  (d.diagnostics.result d.interface).map fun (interface, warnings) => ⟨interface, warnings⟩

end Normalization

def normalize : Document → Except Rejection Normalized
  | .names doc => .ok (Normalization.ofNames doc)
  | .functions doc => Normalization.ofFunctions doc

/-- Checks, reads and normalizes a document. Warnings of the reading come first. -/
def parse (doc : Value) : Except Rejection Normalized :=
  let r := readDocument doc
  match r.document, r.errors with
  | some document, [] =>
    match normalize document with
    | .ok n => .ok { n with warnings := r.warnings ++ n.warnings }
    | .error e => .error { e with warnings := r.warnings ++ e.warnings }
  | _, errors => .error ⟨errors, r.warnings⟩

end BindingSchema
