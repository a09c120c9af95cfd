/-!
The words a document describes its values with: integer types, type names, formats and content
types, each with its text and the table that reads the text back.
-/

namespace BindingSchema

/-! ## Integer types -/

inductive IntegerType where
  | int8
  | int16
  | int32
  | int64
  | uint8
  | uint16
  | uint32
  | uint64
  deriving DecidableEq

namespace IntegerType

def all : List IntegerType := [int8, int16, int32, int64, uint8, uint16, uint32, uint64]

def text : IntegerType → String
  | int8 => "int8"
  | int16 => "int16"
  | int32 => "int32"
  | int64 => "int64"
  | uint8 => "uint8"
  | uint16 => "uint16"
  | uint32 => "uint32"
  | uint64 => "uint64"

def bits : IntegerType → Nat
  | int8 | uint8 => 8
  | int16 | uint16 => 16
  | int32 | uint32 => 32
  | int64 | uint64 => 64

def signed : IntegerType → Bool
  | int8 | int16 | int32 | int64 => true
  | uint8 | uint16 | uint32 | uint64 => false

/-- The integer type of a width. A width that is not on offer counts as 64 bits. -/
def ofWidth (bits : Nat) (signed : Bool) : IntegerType :=
  match bits, signed with
  | 8, true => int8
  | 16, true => int16
  | 32, true => int32
  | _, true => int64
  | 8, false => uint8
  | 16, false => uint16
  | 32, false => uint32
  | _, false => uint64

theorem ofWidth_bits_signed (t : IntegerType) : ofWidth t.bits t.signed = t := by
  cases t <;> rfl

end IntegerType

/-! ## Formats -/

inductive Format where
  | integer (type : IntegerType)
  | float
  | double
  | dateTime
  | byte
  deriving DecidableEq

namespace Format

def text : Format → String
  | integer t => t.text
  | float => "float"
  | double => "double"
  | dateTime => "date-time"
  | byte => "byte"

def ofText? : String → Option Format
  | "int8" => some (integer .int8)
  | "int16" => some (integer .int16)
  | "int32" => some (integer .int32)
  | "int64" => some (integer .int64)
  | "uint8" => some (integer .uint8)
  | "uint16" => some (integer .uint16)
  | "uint32" => some (integer .uint32)
  | "uint64" => some (integer .uint64)
  | "float" => some float
  | "double" => some double
  | "date-time" => some dateTime
  | "byte" => some byte
  | _ => none

end Format

/-! ## Type names -/

/-- The last two are only ever derived. -/
inductive TypeName where
  | string
  | number
  | integer
  | boolean
  | object
  | array
  | buffer
  | enum
  | map
  deriving DecidableEq

namespace TypeName

/-- Types a document may declare. -/
def declarable : List TypeName := [string, number, integer, boolean, object, array, buffer]

def text : TypeName → String
  | string => "string"
  | number => "number"
  | integer => "integer"
  | boolean => "boolean"
  | object => "object"
  | array => "array"
  | buffer => "buffer"
  | enum => "enum"
  | map => "map"

def ofText? : String → Option TypeName
  | "string" => some string
  | "number" => some number
  | "integer" => some integer
  | "boolean" => some boolean
  | "object" => some object
  | "array" => some array
  | "buffer" => some buffer
  | "enum" => some enum
  | "map" => some map
  | _ => none

def isDeclarable (t : TypeName) : Bool := declarable.contains t

/-- Formats that may accompany a type. -/
def formats : TypeName → List Format
  | string => [.dateTime, .byte]
  | number => [.float, .double]
  | integer => IntegerType.all.map .integer
  | _ => []

end TypeName

/-! ## Content types -/

/-- How the input or output of a function is encoded. -/
inductive ContentType where
  | json
  | utf8Text
  | binary
  deriving DecidableEq

namespace ContentType

def all : List ContentType := [json, utf8Text, binary]

def text : ContentType → String
  | json => "application/json"
  | utf8Text => "text/plain; charset=utf-8"
  | binary => "application/x-binary"

def ofText? (s : String) : Option ContentType := all.find? (·.text == s)

end ContentType

/-! ## Reading back -/

theorem Format.ofText?_text (f : Format) : ofText? f.text = some f := by
  cases f with
  | integer t => cases t <;> decide
  | _ => decide

theorem TypeName.ofText?_text (t : TypeName) : ofText? t.text = some t := by
  cases t <;> decide

theorem ContentType.ofText?_text (c : ContentType) : ofText? c.text = some c := by
  cases c <;> decide

end BindingSchema
