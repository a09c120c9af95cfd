import BindingSchema.Interface

/-!
The untyped form of a normalized document.

Fields come in the order of declaration. Optional fields that are absent are left out, and so
are empty lists of properties, required names and code samples.
-/

namespace BindingSchema

namespace Encode

abbrev Members := List (String × Value)

def field (name : String) (v : Value) : Members := [(name, v)]

/-- A field that is left out when absent. -/
def optionalField (name : String) (encode : α → Value) : Option α → Members
  | none => []
  | some a => [(name, encode a)]

/-- A list that is left out when empty. -/
def listField (name : String) : List Value → Members
  | [] => []
  | items => [(name, .array items)]

def strings (ss : List String) : List Value := ss.map .string

end Encode

open Encode

/-! ## Types -/

mutual

def Shape.encodePayload : Shape → Members
  | .object name properties =>
    field "name" (.string name) ++ field "properties" (.array (BindingType.encodeAll properties))
  | .enumeration name elementType values =>
    field "name" (.string name) ++ field "elementType" elementType.encode ++
      field "values" (.array (strings values))
  | .array elementType => field "elementType" elementType.encode
  | .map keyType valueType =>
    field "keyType" keyType.encode ++ field "valueType" valueType.encode
  | _ => []

def BindingType.encode : BindingType → Value
  | ⟨shape, nullable⟩ =>
    .object (field "kind" (.string shape.kind.text) ++ shape.encodePayload ++
      field "nullable" (.bool nullable))

def BindingType.encodeAll : List BindingType → List Value
  | [] => []
  | t :: ts => t.encode :: BindingType.encodeAll ts

end

/-! ## Nodes -/

def SchemaRef.encode (r : SchemaRef) : Value :=
  .object (field "path" (.string r.path) ++ optionalField "target" Value.ofNat r.target)

mutual

def Node.encodeFields : Node → Members
  | ⟨type, format, description, nullable, items, additionalProperties, properties, enumValues,
      reference, bindingType⟩ =>
    optionalField "type" (fun t => .string t.text) type ++
      optionalField "format" (fun f => .string f.text) format ++
      optionalField "description" .string description ++
      optionalField "nullable" .bool nullable ++
      Node.encodeOptional "items" items ++
      Node.encodeOptional "additionalProperties" additionalProperties ++
      listField "properties" (Property.encodeAll properties) ++
      optionalField "enum" .array enumValues ++
      optionalField "$ref" SchemaRef.encode reference ++
      optionalField "xtpType" BindingType.encode bindingType

def Node.encodeOptional (name : String) : Option Node → Members
  | none => []
  | some n => [(name, .object n.encodeFields)]

def Property.encodeAll : List Property → List Value
  | [] => []
  | ⟨name, required, node⟩ :: rest =>
    .object (field "name" (.string name) ++ field "required" (.bool required) ++ node.encodeFields) ::
      Property.encodeAll rest

end

/-! ## Functions, schemas and the whole -/

def CodeSample.encode (s : CodeSample) : Value :=
  .object (field "lang" (.string s.lang) ++ field "source" (.string s.source) ++
    optionalField "label" .string s.label)

def Parameter.encode (p : Parameter) : Value :=
  .object (field "contentType" (.string p.contentType.text) ++ p.node.encodeFields)

def Function.encode (f : Function) : Value :=
  .object (field "name" (.string f.name) ++ optionalField "description" .string f.description ++
    listField "codeSamples" (f.codeSamples.map (·.encode)) ++
    optionalField "input" Parameter.encode f.input ++ optionalField "output" Parameter.encode f.output)

def Schema.encode (s : Schema) : Value :=
  .object (field "name" (.string s.name) ++ listField "required" (strings s.required) ++
    s.node.encodeFields)

def Interface.encode (i : Interface) : Value :=
  .object (field "version" (.string i.version.text) ++
    field "exports" (.array (i.exports.map (·.encode))) ++
    field "imports" (.array (i.imports.map (·.encode))) ++
    field "schemas" (.object (i.schemas.map fun (key, s) => (key, s.encode))))

end BindingSchema
