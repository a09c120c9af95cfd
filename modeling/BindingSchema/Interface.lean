import BindingSchema.BindingType
import BindingSchema.Document
import BindingSchema.Reference

/-!
The normalized document that bindings are generated from.

All schemas stand in one registry, in the order of declaration. A reference keeps its path and
holds the place of its target in the registry, so schemas that refer to each other do not
contain each other.
-/

namespace BindingSchema

/-! ## Nodes -/

mutual

/-- A place with a type: a schema, property, parameter, list item or map value. -/
structure Node where
  type : Option TypeName := none
  format : Option Format := none
  description : Option String := none
  nullable : Option Bool := none
  items : Option Node := none
  additionalProperties : Option Node := none
  /-- In the order of declaration. -/
  properties : List Property := []
  enumValues : Option (List Value) := none
  reference : Option SchemaRef := none
  /-- Derived from the other fields. -/
  bindingType : Option BindingType := none

structure Property where
  name : String
  /-- Whether the object lists the property as required. -/
  required : Bool
  node : Node

end

namespace Node

instance : Inhabited Node := ⟨{}⟩

def isNullable (n : Node) : Bool := n.nullable.getD false

def isDateTime (n : Node) : Bool := n.type == some .string && n.format == some .dateTime

/-- The values of an enum that are strings. -/
def enumStrings (n : Node) : List String := (n.enumValues.getD []).filterMap (·.asString?)

def property? (n : Node) (name : String) : Option Property := n.properties.find? (·.name == name)

/-- Whether there is something to say about the node. -/
def hasComment (n : Node) : Bool := n.description.isSome || n.reference.isSome

end Node

/-! ## Functions and schemas -/

structure Parameter where
  contentType : ContentType
  node : Node

namespace Parameter

def isJsonEncoded (p : Parameter) : Bool := p.contentType == .json

def isUtf8Encoded (p : Parameter) : Bool := p.contentType == .utf8Text

end Parameter

/-- A function on the boundary: an export, or an import from the host. -/
structure Function where
  name : String
  description : Option String := none
  codeSamples : List CodeSample := []
  input : Option Parameter := none
  output : Option Parameter := none

namespace Function

/-- The samples in a language, whose name is compared without regard to the case of ASCII
letters. -/
def samplesIn (f : Function) (lang : String) : List CodeSample :=
  f.codeSamples.filter (·.lang.toLower == lang.toLower)

def hasComment (f : Function) : Bool :=
  f.description.isSome || f.input.any (·.node.hasComment) || f.output.any (·.node.hasComment)

end Function

structure Schema where
  name : String
  required : List String := []
  node : Node := {}

namespace Schema

def isEnum (s : Schema) : Bool := s.node.enumValues.isSome

end Schema

/-! ## The whole -/

inductive InterfaceVersion where
  | v0
  | v1
  deriving DecidableEq

namespace InterfaceVersion

def all : List InterfaceVersion := [v0, v1]

def text : InterfaceVersion → String
  | v0 => "v0"
  | v1 => "v1"

end InterfaceVersion

structure Interface where
  version : InterfaceVersion
  exports : List Function := []
  imports : List Function := []
  schemas : Keyed Schema := []

namespace Interface

def schema? (i : Interface) (place : Nat) : Option Schema := i.schemas[place]?.map (·.2)

def place? (i : Interface) (name : String) : Option Nat := Keyed.indexOf? i.schemas name

/-- The schema a resolved reference points to. -/
def resolve (i : Interface) (r : SchemaRef) : Except ReferenceError Schema :=
  match r.target.bind i.schema? with
  | some s => .ok s
  | none => .error (.unresolved r.path)

def hasImports (i : Interface) : Bool := !i.imports.isEmpty

/-- Whether a node can be passed without structured encoding. Without a reference it can. With
one it can if the target is an enum, which is passed as a string, or has no properties. -/
def isPrimitive (i : Interface) (n : Node) : Bool :=
  match n.reference with
  | none => true
  | some r =>
    match i.resolve r with
    | .ok target => target.isEnum || target.node.properties.isEmpty
    | .error _ => false

end Interface

end BindingSchema
