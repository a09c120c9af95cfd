import BindingSchema.Decode
import BindingSchema.Document

/-!
Reading a document into its types.

Optional fields may be null, which is the same as leaving them out.
-/

namespace BindingSchema

open Decode

/-! ## Words

A reader has tables of its own, in the order in which a message lists what was expected.
-/

def TypeName.words : List (String × TypeName) :=
  [("string", .string), ("number", .number), ("integer", .integer), ("boolean", .boolean),
    ("object", .object), ("array", .array), ("buffer", .buffer), ("enum", .enum), ("map", .map)]

def Format.words : List (String × Format) :=
  [("int8", .integer .int8), ("int16", .integer .int16), ("int32", .integer .int32),
    ("int64", .integer .int64), ("uint8", .integer .uint8), ("uint16", .integer .uint16),
    ("uint32", .integer .uint32), ("uint64", .integer .uint64), ("float", .float),
    ("double", .double), ("date-time", .dateTime), ("byte", .byte)]

def ContentType.words : List (String × ContentType) :=
  [("application/json", .json), ("text/plain; charset=utf-8", .utf8Text),
    ("application/x-binary", .binary)]

/-! ## Code samples -/

namespace CodeSample

def record : Record := ⟨"struct CodeSample", ["lang", "source", "label"]⟩

structure Draft where
  lang : Option String := none
  source : Option String := none
  label : Option String := none

def readField (d : Draft) (field : String) (v : Value) : Result Draft :=
  match field with
  | "lang" => return { d with lang := some (← string v) }
  | "source" => return { d with source := some (← string v) }
  | "label" => return { d with label := ← optional string v }
  | _ => return d

def read (source : Source) (v : Value) : Result CodeSample := do
  let d ← record.fold source readField {} v
  return ⟨← record.require v "lang" d.lang, ← record.require v "source" d.source, d.label⟩

end CodeSample

/-! ## Definitions -/

namespace Definition

def record : Record :=
  ⟨"struct RawNode", ["type", "format", "description", "nullable", "items", "additionalProperties",
    "properties", "required", "enum", "$ref"]⟩

/-- The readings of one value as something made of definitions. -/
structure Readings where
  definition : Source → Result Definition
  entries : Unit → Result (List (String × Definition))

/-- The values of a map may be given by a flag: `true` allows any value, `false` says that there
are none. -/
def mapValues (v : Value) (r : Readings) : Result (Option Definition) :=
  match v with
  | .null | .bool false => .ok none
  | .bool true => .ok (some {})
  | _ => (r.definition .inPlace).map some

def readField (source : Source) (d : Definition) (field : String) (v : Value) (r : Readings) :
    Result Definition :=
  match field with
  | "type" => return { d with type := ← optional (word source TypeName.words) v }
  | "format" => return { d with format := ← optional (word source Format.words) v }
  | "description" => return { d with description := ← optional string v }
  | "nullable" => return { d with nullable := ← optional bool v }
  | "items" =>
    if v.isNull then return { d with items := none }
    else return { d with items := some (← r.definition source) }
  | "additionalProperties" => return { d with additionalProperties := ← mapValues v r }
  | "properties" => return { d with properties := ← r.entries () }
  | "required" => return { d with required := ← listOrNull string v }
  | "enum" => return { d with enumValues := ← optional (list .ok) v }
  | "$ref" => return { d with reference := ← optional string v }
  | _ => return d

mutual

def read (source : Source) : Value → Result Definition
  | .object members => readMembers source members {}
  | .array items => do
    let d ← readItems source record.fields items {}
    if record.fields.length < items.length then throw (record.tooLong source items.length)
    return d
  | v => .error (mismatch v record.name)

def readMembers (source : Source) : List (String × Value) → Definition → Result Definition
  | [], d => .ok d
  | (field, v) :: rest, d => do
    let d ← readField source d field v
      { definition := fun s => read s v
        entries := fun _ => match v with
          | .null => .ok []
          | .object members => readEntries source members
          | v => .error (mismatch v "a map") }
    readMembers source rest d

def readItems (source : Source) (fields : List String) : List Value → Definition → Result Definition
  | [], d => .ok d
  | v :: rest, d =>
    match fields with
    | [] => .ok d
    | field :: fields => do
      let d ← readField source d field v
        { definition := fun s => read s v
          entries := fun _ => match v with
            | .null => .ok []
            | .object members => readEntries source members
            | v => .error (mismatch v "a map") }
      readItems source fields rest d

/-- An entry that is null has all its fields left out. -/
def readEntries (source : Source) : List (String × Value) → Result (List (String × Definition))
  | [] => .ok []
  | (name, v) :: rest => do
    let d ← if v.isNull then .ok {} else read source v
    return (name, d) :: (← readEntries source rest)

end

end Definition

/-! ## Functions -/

namespace ParameterDefinition

/-- The content type shares its object with the definition, which is set aside. -/
def read : Value → Result ParameterDefinition
  | .object members => do
    let contentType ← (Keyed.get? members "contentType").mapM (word .inPlace ContentType.words)
    match contentType with
    | none => throw (.missingField "contentType")
    | some contentType => return ⟨contentType, ← Definition.read .setAside (.object members)⟩
  | v => .error (mismatch v "struct RawParameter")

end ParameterDefinition

namespace FunctionDefinition

def record : Record := ⟨"struct RawExport", ["description", "codeSamples", "input", "output"]⟩

def readField (d : FunctionDefinition) (field : String) (v : Value) : Result FunctionDefinition :=
  match field with
  | "description" => return { d with description := ← optional string v }
  | "codeSamples" => return { d with codeSamples := ← listOrNull (CodeSample.read .inPlace) v }
  | "input" => return { d with input := ← optional ParameterDefinition.read v }
  | "output" => return { d with output := ← optional ParameterDefinition.read v }
  | _ => return d

def read (v : Value) : Result FunctionDefinition := record.fold .inPlace readField {} v

end FunctionDefinition

/-! ## Documents -/

namespace FunctionDocument

def componentsRecord : Record := ⟨"struct RawComponents", ["schemas"]⟩

/-- The schemas, the only part that components have. -/
def readComponents (v : Value) : Result (Keyed Definition) :=
  componentsRecord.fold .inPlace
    (fun schemas field v =>
      if field = "schemas" then named {} (Definition.read .inPlace) v else return schemas)
    [] v

def record : Record := ⟨"struct V1Document", ["version", "exports", "imports", "components"]⟩

structure Draft where
  version : Option String := none
  exports : Keyed FunctionDefinition := []
  imports : Keyed FunctionDefinition := []
  schemas : Keyed Definition := []

def readField (d : Draft) (field : String) (v : Value) : Result Draft :=
  match field with
  | "version" => return { d with version := some (← string v) }
  | "exports" => return { d with exports := ← named {} FunctionDefinition.read v }
  | "imports" => return { d with imports := ← named {} FunctionDefinition.read v }
  | "components" =>
    if v.isNull then return { d with schemas := [] }
    else return { d with schemas := ← readComponents v }
  | _ => return d

def read (v : Value) : Result FunctionDocument := do
  let d ← record.fold .inPlace readField {} v
  return ⟨← record.require v "version" d.version, d.exports, d.imports, d.schemas⟩

end FunctionDocument

namespace NameDocument

def record : Record := ⟨"struct V0Document", ["version", "exports"]⟩

structure Draft where
  version : Option String := none
  exports : List String := []

def readField (d : Draft) (field : String) (v : Value) : Result Draft :=
  match field with
  | "version" => return { d with version := some (← string v) }
  | "exports" => return { d with exports := ← listOrNull string v }
  | _ => return d

def read (v : Value) : Result NameDocument := do
  let d ← record.fold .inPlace readField {} v
  return ⟨← record.require v "version" d.version, d.exports⟩

end NameDocument

namespace Document

/-- The version that a document states, if it is a known one. -/
def statedVersion? (v : Value) : Option Version :=
  ((v.get? "version").bind (·.asString?)).bind Version.ofText?

/-- Version 0 exports bare names; everything else is read as functions, which need a version. -/
def read (version : Option Version) (v : Value) : Result Document :=
  match version with
  | some .v0 => (NameDocument.read v).map .names
  | _ => (FunctionDocument.read v).map .functions

end Document

end BindingSchema
