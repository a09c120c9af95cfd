/-!
References to named schemas.

A reference is a path of four parts joined by `/`: `#`, `components`, `schemas` and the name of
the schema. `target` is the schema's place in the registry, once it is known.
-/

namespace BindingSchema

structure SchemaRef where
  path : String
  target : Option Nat := none
  deriving DecidableEq

inductive ReferenceError where
  | invalid (path : String)
  | unresolved (path : String)
  deriving DecidableEq

def ReferenceError.message : ReferenceError → String
  | .invalid path => "Invalid $ref \"" ++ path ++ "\""
  | .unresolved path => "Unresolved $ref \"" ++ path ++ "\""

namespace SchemaRef

/-- What every path starts with. -/
def lead : String := "#/components/schemas/"

/-- The parts of a path between its slashes. -/
def split : List Char → List (List Char)
  | [] => [[]]
  | c :: cs =>
    if c = '/' then [] :: split cs
    else match split cs with
      | [] => [[c]]
      | part :: parts => (c :: part) :: parts

def parts (path : String) : List String := (split path.toList).map String.ofList

/-- The name of the schema that `path` points to. -/
def parse (path : String) : Except ReferenceError String :=
  match parts path with
  | ["#", "components", "schemas", name] => if name = "" then .error (.invalid path) else .ok name
  | _ => .error (.invalid path)

def toSchema (name : String) : SchemaRef := ⟨lead ++ name, none⟩

def schemaName (r : SchemaRef) : Except ReferenceError String := parse r.path

def isResolved (r : SchemaRef) : Bool := r.target.isSome

end SchemaRef

end BindingSchema
