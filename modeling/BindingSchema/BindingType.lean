import BindingSchema.Vocabulary

/-!
The types that bindings are generated from: a closed tree, derived from a document's nodes.

A type never contains itself. An object or enum carries the name of the schema, property or
function it was derived for.
-/

namespace BindingSchema

mutual

inductive Shape where
  | string
  | boolean
  | dateTime
  | buffer
  | integer (type : IntegerType)
  | float
  | double
  /-- Property types stand in the order of declaration. -/
  | object (name : String) (properties : List BindingType)
  | enumeration (name : String) (elementType : BindingType) (values : List String)
  | array (elementType : BindingType)
  | map (keyType : BindingType) (valueType : BindingType)
  /-- An object of which nothing is known. -/
  | freeForm

structure BindingType where
  shape : Shape
  nullable : Bool

end

/-! ## Kinds -/

/-- A shape without what it carries. -/
inductive Kind where
  | string
  | boolean
  | dateTime
  | buffer
  | integer (type : IntegerType)
  | float
  | double
  | object
  | enumeration
  | array
  | map
  | freeForm
  deriving DecidableEq

namespace Kind

def all : List Kind :=
  [string, boolean, dateTime, buffer] ++ IntegerType.all.map integer ++
    [float, double, object, enumeration, array, map, freeForm]

def text : Kind → String
  | string => "string"
  | boolean => "boolean"
  | dateTime => "date-time"
  | buffer => "buffer"
  | integer t => t.text
  | float => "float"
  | double => "double"
  | object => "object"
  | enumeration => "enum"
  | array => "array"
  | map => "map"
  | freeForm => "jsobject"

def ofText? (s : String) : Option Kind := all.find? (·.text == s)

theorem ofText?_text (k : Kind) : ofText? k.text = some k := by
  cases k with
  | integer t => cases t <;> decide
  | _ => decide

end Kind

def Shape.kind : Shape → Kind
  | string => .string
  | boolean => .boolean
  | dateTime => .dateTime
  | buffer => .buffer
  | integer t => .integer t
  | float => .float
  | double => .double
  | object _ _ => .object
  | enumeration _ _ _ => .enumeration
  | array _ => .array
  | map _ _ => .map
  | freeForm => .freeForm

/-! ## Constructors -/

namespace BindingType

/-- A type that does not admit null. -/
def plain (shape : Shape) : BindingType := ⟨shape, false⟩

def string : BindingType := plain .string

def boolean : BindingType := plain .boolean

def dateTime : BindingType := plain .dateTime

def buffer : BindingType := plain .buffer

def float : BindingType := plain .float

def double : BindingType := plain .double

def freeForm : BindingType := plain .freeForm

def integer (type : IntegerType) : BindingType := plain (.integer type)

def object (name : String) (properties : List BindingType) : BindingType :=
  plain (.object name properties)

/-- The values of an enum are strings. -/
def enumeration (name : String) (values : List String) : BindingType :=
  plain (.enumeration name string values)

def array (elementType : BindingType) : BindingType := plain (.array elementType)

/-- The keys of a map are strings. -/
def map (valueType : BindingType) : BindingType := plain (.map string valueType)

def withNullable (t : BindingType) (nullable : Bool) : BindingType := { t with nullable := nullable }

/-! ## Predicates and parts -/

def kind (t : BindingType) : Kind := t.shape.kind

def integerType? (t : BindingType) : Option IntegerType :=
  match t.shape with
  | .integer i => some i
  | _ => none

/-- Scalars and enums need no structured encoding. -/
def isPrimitive (t : BindingType) : Bool :=
  match t.shape with
  | .object _ _ | .array _ | .map _ _ | .freeForm => false
  | _ => true

/-- The element of an array or enum, the value of a map. -/
def element? (t : BindingType) : Option BindingType :=
  match t.shape with
  | .array e | .enumeration _ e _ | .map _ e => some e
  | _ => none

def name? (t : BindingType) : Option String :=
  match t.shape with
  | .object name _ | .enumeration name _ _ => some name
  | _ => none

instance : Inhabited BindingType := ⟨freeForm⟩

end BindingType

end BindingSchema
