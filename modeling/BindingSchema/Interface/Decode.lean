import BindingSchema.Document.Decode
import BindingSchema.Interface

/-!
Reading a normalized document from its untyped form.

Schemas, properties, parameters and types share their object with the fields of a node or
shape, which are set aside until their own have been read.
-/

namespace BindingSchema

open Decode

/-! ## Types -/

namespace Kind

/-- A kind is given by its word or by its place in the list of kinds. -/
def read : Value → Result Kind
  | .string s =>
    match ofText? s with
    | some k => .ok k
    | none => .error (.unknownVariant s (all.map (·.text)))
  | .number (.int n) =>
    if n < 0 then .error (.invalidType (.number (.int n)) "variant identifier")
    else match all[n.toNat]? with
      | some k => .ok k
      | none =>
        .error (.invalidValue (.number (.int n)) ("variant index 0 <= i < " ++ toString all.length))
  | v => .error (mismatch v "variant identifier")

end Kind

namespace BindingType

/-- The fields that shapes carry, as far as they have been read. -/
structure Payload where
  name : Option String := none
  properties : Option (List BindingType) := none
  elementType : Option BindingType := none
  values : Option (List String) := none
  keyType : Option BindingType := none
  valueType : Option BindingType := none

/-- The fields a kind of shape carries. -/
def payloadFields : Kind → List String
  | .object => ["name", "properties"]
  | .enumeration => ["name", "elementType", "values"]
  | .array => ["elementType"]
  | .map => ["keyType", "valueType"]
  | _ => []

def require (field : String) : Option α → Result α
  | some a => .ok a
  | none => .error (.missingField field)

def shapeOf (kind : Kind) (p : Payload) : Result Shape :=
  match kind with
  | .string => .ok .string
  | .boolean => .ok .boolean
  | .dateTime => .ok .dateTime
  | .buffer => .ok .buffer
  | .integer t => .ok (.integer t)
  | .float => .ok .float
  | .double => .ok .double
  | .object => return .object (← require "name" p.name) (← require "properties" p.properties)
  | .enumeration =>
    return .enumeration (← require "name" p.name) (← require "elementType" p.elementType)
      (← require "values" p.values)
  | .array => return .array (← require "elementType" p.elementType)
  | .map => return .map (← require "keyType" p.keyType) (← require "valueType" p.valueType)
  | .freeForm => .ok .freeForm

/-- The kind and the flag come before the payload, whose fields depend on the kind. -/
def readHead (members : List (String × Value)) : Result (Kind × Bool) := do
  let nullable ← (Keyed.get? members "nullable").mapM bool
  match Keyed.get? members "kind" with
  | none => throw (.missingField "kind")
  | some v => return (← Kind.read v, nullable.getD false)

/-- The readings of one value as something made of types. -/
structure Readings where
  type : Unit → Result BindingType
  types : Unit → Result (List BindingType)

def readField (p : Payload) (field : String) (v : Value) (r : Readings) : Result Payload :=
  match field with
  | "name" => return { p with name := some (← Decode.string v) }
  | "properties" => return { p with properties := some (← r.types ()) }
  | "elementType" => return { p with elementType := some (← r.type ()) }
  | "values" => return { p with values := some (← Decode.list Decode.string v) }
  | "keyType" => return { p with keyType := some (← r.type ()) }
  | "valueType" => return { p with valueType := some (← r.type ()) }
  | _ => return p

mutual

def read : Value → Result BindingType
  | .object members => do
    let (kind, nullable) ← readHead members
    let payload ← readPayload (payloadFields kind) members {}
    return ⟨← shapeOf kind payload, nullable⟩
  | v => .error (mismatch v "struct XtpNormalizedType")

def readPayload (fields : List String) : List (String × Value) → Payload → Result Payload
  | [], p => .ok p
  | (field, v) :: rest, p => do
    let p ←
      if fields.contains field then
        readField p field v
          { type := fun _ => read v
            types := fun _ => match v with
              | .array items => readItems items
              | v => .error (mismatch v "a sequence") }
      else .ok p
    readPayload fields rest p

def readItems : List Value → Result (List BindingType)
  | [] => .ok []
  | v :: rest => do
    let t ← read v
    return t :: (← readItems rest)

end

end BindingType

/-! ## Nodes -/

namespace SchemaRef

def record : Record := ⟨"struct SchemaRef", ["path", "target"]⟩

structure Draft where
  path : Option String := none
  target : Option Nat := none

def readField (d : Draft) (field : String) (v : Value) : Result Draft :=
  match field with
  | "path" => return { d with path := some (← string v) }
  | "target" => return { d with target := ← optional index v }
  | _ => return d

def read (source : Source) (v : Value) : Result SchemaRef := do
  let d ← record.fold source readField {} v
  return ⟨← record.require v "path" d.path, d.target⟩

end SchemaRef

namespace Property

/-- The fields a property has besides those of its node. -/
structure Draft where
  name : Option String := none
  required : Option Bool := none

def readField (d : Draft) (field : String) (v : Value) : Result Draft :=
  match field with
  | "name" => return { d with name := some (← string v) }
  | "required" => return { d with required := some (← bool v) }
  | _ => return d

def readHead (members : List (String × Value)) : Result (String × Bool) := do
  let d ← members.foldlM (fun d m => readField d m.1 m.2) ({} : Draft)
  return (← BindingType.require "name" d.name, ← BindingType.require "required" d.required)

end Property

namespace Node

def record : Record :=
  ⟨"struct TypedNode", ["type", "format", "description", "nullable", "items",
    "additionalProperties", "properties", "enum", "$ref", "xtpType"]⟩

/-- The readings of one value as something made of nodes. -/
structure Readings where
  node : Unit → Result Node
  properties : Unit → Result (List Property)

/-- A node is always part of a record that shares its object, so its fields are set aside. -/
def readField (n : Node) (field : String) (v : Value) (r : Readings) : Result Node :=
  match field with
  | "type" => return { n with type := ← optional (word .setAside TypeName.words) v }
  | "format" => return { n with format := ← optional (word .setAside Format.words) v }
  | "description" => return { n with description := ← optional string v }
  | "nullable" => return { n with nullable := ← optional bool v }
  | "items" =>
    if v.isNull then return { n with items := none }
    else return { n with items := some (← r.node ()) }
  | "additionalProperties" =>
    if v.isNull then return { n with additionalProperties := none }
    else return { n with additionalProperties := some (← r.node ()) }
  | "properties" => return { n with properties := ← r.properties () }
  | "enum" => return { n with enumValues := ← optional (list .ok) v }
  | "$ref" => return { n with reference := ← optional (SchemaRef.read .setAside) v }
  | "xtpType" => return { n with bindingType := ← optional BindingType.read v }
  | _ => return n

mutual

def read : Value → Result Node
  | .object members => readMembers members {}
  | .array items => do
    let n ← readItems record.fields items {}
    if record.fields.length < items.length then throw (record.tooLong .setAside items.length)
    return n
  | v => .error (mismatch v record.name)

def readMembers : List (String × Value) → Node → Result Node
  | [], n => .ok n
  | (field, v) :: rest, n => do
    let n ← readField n field v
      { node := fun _ => read v
        properties := fun _ => match v with
          | .array items => readProperties items
          | v => .error (mismatch v "a sequence") }
    readMembers rest n

def readItems (fields : List String) : List Value → Node → Result Node
  | [], n => .ok n
  | v :: rest, n =>
    match fields with
    | [] => .ok n
    | field :: fields => do
      let n ← readField n field v
        { node := fun _ => read v
          properties := fun _ => match v with
            | .array items => readProperties items
            | v => .error (mismatch v "a sequence") }
      readItems fields rest n

def readProperties : List Value → Result (List Property)
  | [] => .ok []
  | .object members :: rest => do
    let (name, required) ← Property.readHead members
    let node ← readMembers members {}
    return ⟨name, required, node⟩ :: (← readProperties rest)
  | v :: _ => .error (mismatch v "struct Property")

end

end Node

/-! ## Functions, schemas and the whole -/

namespace Parameter

def read : Value → Result Parameter
  | .object members => do
    let contentType ← (Keyed.get? members "contentType").mapM (word .inPlace ContentType.words)
    match contentType with
    | none => throw (.missingField "contentType")
    | some contentType => return ⟨contentType, ← Node.readMembers members {}⟩
  | v => .error (mismatch v "struct Parameter")

end Parameter

namespace Function

def record : Record := ⟨"struct Export", ["name", "description", "codeSamples", "input", "output"]⟩

structure Draft where
  name : Option String := none
  description : Option String := none
  codeSamples : List CodeSample := []
  input : Option Parameter := none
  output : Option Parameter := none

def readField (d : Draft) (field : String) (v : Value) : Result Draft :=
  match field with
  | "name" => return { d with name := some (← string v) }
  | "description" => return { d with description := ← optional string v }
  | "codeSamples" => return { d with codeSamples := ← list (CodeSample.read .inPlace) v }
  | "input" => return { d with input := ← optional Parameter.read v }
  | "output" => return { d with output := ← optional Parameter.read v }
  | _ => return d

def read (v : Value) : Result Function := do
  let d ← record.fold .inPlace readField {} v
  return ⟨← record.require v "name" d.name, d.description, d.codeSamples, d.input, d.output⟩

end Function

namespace Schema

structure Draft where
  name : Option String := none
  required : List String := []

def readField (d : Draft) (field : String) (v : Value) : Result Draft :=
  match field with
  | "name" => return { d with name := some (← string v) }
  | "required" => return { d with required := ← list string v }
  | _ => return d

def read : Value → Result Schema
  | .object members => do
    let d ← members.foldlM (fun d m => readField d m.1 m.2) ({} : Draft)
    match d.name with
    | none => throw (.missingField "name")
    | some name => return ⟨name, d.required, ← Node.readMembers members {}⟩
  | v => .error (mismatch v "struct Schema")

end Schema

namespace Interface

def record : Record := ⟨"struct XtpSchema", ["version", "exports", "imports", "schemas"]⟩

def versions : List (String × InterfaceVersion) := InterfaceVersion.all.map fun v => (v.text, v)

structure Draft where
  version : Option InterfaceVersion := none
  exports : Option (List Function) := none
  imports : Option (List Function) := none
  schemas : Option (Keyed Schema) := none

def readField (d : Draft) (field : String) (v : Value) : Result Draft :=
  match field with
  | "version" => return { d with version := some (← word .inPlace versions v) }
  | "exports" => return { d with exports := some (← list Function.read v) }
  | "imports" => return { d with imports := some (← list Function.read v) }
  | "schemas" => return { d with schemas := some (← map Schema.read v) }
  | _ => return d

def read (v : Value) : Result Interface := do
  let d ← record.fold .inPlace readField {} v
  return ⟨← record.require v "version" d.version, ← record.require v "exports" d.exports,
    ← record.require v "imports" d.imports, ← record.require v "schemas" d.schemas⟩

end Interface

end BindingSchema
