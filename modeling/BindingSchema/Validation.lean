import BindingSchema.Interface.Encode
import BindingSchema.Normalization
import BindingSchema.TextFormat

/-!
Validation as a host sees it: a text goes in, and out come the errors and warnings, with the
normalized document if there are no errors. It never fails.
-/

namespace BindingSchema

inductive ParseError where
  | text (error : TextError)
  | rejected (rejection : Rejection)

/-- Reads, checks and normalizes a text. -/
def parseText (text : String) (format : TextFormat) : Except ParseError Normalized :=
  match format.decode text with
  | .error e => .error (.text e)
  | .ok doc =>
    match parse doc with
    | .error r => .error (.rejected r)
    | .ok n => .ok n

structure Validation where
  valid : Bool
  errors : List Diagnostic
  warnings : List Diagnostic
  interface : Option Interface

/-- A text that cannot be read is an error at the root of the document. -/
def validate (text : String) (format : TextFormat) : Validation :=
  match parseText text format with
  | .ok n => ⟨true, [], n.warnings, some n.interface⟩
  | .error (.text e) => ⟨false, [(Problem.undecodableText e.message).located .root], [], none⟩
  | .error (.rejected r) => ⟨false, r.errors, r.warnings, none⟩

/-- Whether a text is valid and needs functions of the host. -/
def hasImports (text : String) (format : TextFormat) : Bool :=
  let v := validate text format
  v.valid && v.interface.any (·.hasImports)

/-! ## Untyped form -/

def Diagnostic.encode (d : Diagnostic) : Value :=
  .object [("message", .string d.message), ("path", .string d.path)]

def Validation.encode (v : Validation) : Value :=
  .object (Encode.field "valid" (.bool v.valid) ++
    Encode.field "errors" (.array (v.errors.map (·.encode))) ++
    Encode.field "warnings" (.array (v.warnings.map (·.encode))) ++
    Encode.optionalField "schema" Interface.encode v.interface)

namespace Diagnostic

open Decode

def record : Record := ⟨"struct ValidationError", ["message", "path"]⟩

structure Draft where
  message : Option String := none
  path : Option String := none

def readField (d : Draft) (field : String) (v : Value) : Result Draft :=
  match field with
  | "message" => return { d with message := some (← string v) }
  | "path" => return { d with path := some (← string v) }
  | _ => return d

/-- The untyped form does not tell the category, so the most common one is taken. -/
def read (v : Value) : Result Diagnostic := do
  let d ← record.fold .inPlace readField {} v
  return ⟨← record.require v "message" d.message, ← record.require v "path" d.path, .structural⟩

end Diagnostic

end BindingSchema
