import BindingSchema.Interface

/-!
From definitions to nodes: maps of properties become lists, each property carries whether it is
required, and references wait for their target.
-/

namespace BindingSchema

mutual

def Definition.toNode : Definition → Node
  | ⟨type, format, description, nullable, items, additionalProperties, properties, required,
      enumValues, reference⟩ =>
    { type, format, description, nullable
      items := Definition.toNode? items
      additionalProperties := Definition.toNode? additionalProperties
      properties := Definition.toProperties required properties
      enumValues
      reference := reference.map fun path => ⟨path, none⟩ }

def Definition.toNode? : Option Definition → Option Node
  | none => none
  | some d => some d.toNode

/-- `required` is the list of the object the properties belong to. -/
def Definition.toProperties (required : List String) : List (String × Definition) → List Property
  | [] => []
  | (name, d) :: rest => ⟨name, required.contains name, d.toNode⟩ :: Definition.toProperties required rest

end

def ParameterDefinition.toParameter (p : ParameterDefinition) : Parameter :=
  ⟨p.contentType, p.definition.toNode⟩

def FunctionDefinition.toFunction (name : String) (f : FunctionDefinition) : Function where
  name := name
  description := f.description
  codeSamples := f.codeSamples
  input := f.input.map (·.toParameter)
  output := f.output.map (·.toParameter)

def Definition.toSchema (name : String) (d : Definition) : Schema := ⟨name, d.required, d.toNode⟩

def lowerFunctions (fs : Keyed FunctionDefinition) : List Function :=
  fs.map fun (name, f) => f.toFunction name

def lowerSchemas (ds : Keyed Definition) : Keyed Schema :=
  ds.map fun (name, d) => (name, d.toSchema name)

theorem keys_lowerSchemas (ds : Keyed Definition) : Keyed.keys (lowerSchemas ds) = Keyed.keys ds := by
  simp [lowerSchemas, Keyed.keys]

end BindingSchema
