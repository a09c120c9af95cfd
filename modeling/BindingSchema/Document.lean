import BindingSchema.Value
import BindingSchema.Vocabulary

/-!
A document as its author wrote it, with every field in its type.

References are still texts, properties are still a map, and nothing is derived.
-/

namespace BindingSchema

/-! ## Versions -/

inductive Version where
  /-- A flat list of export names. -/
  | v0
  /-- Functions and schemas, before the form is final. -/
  | v1Draft
  | v1
  deriving DecidableEq

namespace Version

def all : List Version := [v0, v1Draft, v1]

def text : Version → String
  | v0 => "v0"
  | v1Draft => "v1-draft"
  | v1 => "v1"

def ofText? (s : String) : Option Version := all.find? (·.text == s)

def isDraft : Version → Bool
  | v1Draft => true
  | _ => false

end Version

/-! ## Parts of a document -/

/-- A description of values: a schema, parameter, property, list item or map value. -/
structure Definition where
  type : Option TypeName := none
  format : Option Format := none
  description : Option String := none
  nullable : Option Bool := none
  items : Option Definition := none
  /-- What the values of a map are. -/
  additionalProperties : Option Definition := none
  properties : List (String × Definition) := []
  required : List String := []
  enumValues : Option (List Value) := none
  reference : Option String := none

namespace Definition

instance : Inhabited Definition := ⟨{}⟩

def isRequired (d : Definition) (name : String) : Bool := d.required.contains name

end Definition

structure CodeSample where
  lang : String
  source : String
  label : Option String
  deriving DecidableEq

/-- The input or output of a function. -/
structure ParameterDefinition where
  contentType : ContentType
  definition : Definition

/-- An export or import. -/
structure FunctionDefinition where
  description : Option String := none
  codeSamples : List CodeSample := []
  input : Option ParameterDefinition := none
  output : Option ParameterDefinition := none

/-- A document of version 1, draft or not. -/
structure FunctionDocument where
  version : String
  exports : Keyed FunctionDefinition := []
  imports : Keyed FunctionDefinition := []
  schemas : Keyed Definition := []

/-- A document of version 0. -/
structure NameDocument where
  version : String
  exports : List String := []

inductive Document where
  | names (doc : NameDocument)
  | functions (doc : FunctionDocument)

def Document.version : Document → String
  | .names doc => doc.version
  | .functions doc => doc.version

end BindingSchema
