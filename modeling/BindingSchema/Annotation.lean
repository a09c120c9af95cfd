import BindingSchema.Interface
import BindingSchema.Problem

/-!
Types for every node.

A node's type comes from the first of these that it has: properties, a reference, an enum,
items, map values, a declared type. A reference takes the type of its schema, which is annotated
when it is first met and remembered. A schema that is met again while it is still being
annotated is answered by a placeholder, an object without properties, so that the recursion
ends; such a document is turned down later, for its circle of references.
-/

namespace BindingSchema

namespace Annotation

/-- How far a schema of the registry has come. -/
inductive Progress where
  | pending
  | inProgress
  | done (node : Node)

structure State where
  /-- One for each schema of the registry, in its order. -/
  progress : List Progress
  errors : List Diagnostic := []
  /-- The references that were answered by a placeholder. -/
  placeholders : List Pointer := []

def State.report (s : State) (errors : List Diagnostic) : State := { s with errors := s.errors ++ errors }

def State.set (s : State) (schema : Nat) (p : Progress) : State :=
  { s with progress := s.progress.set schema p }

/-- Looks up a schema's type for a reference at the given place. -/
abbrev Enter := Nat → Pointer → State → Option BindingType × State

/-! ## One node -/

/-- The place of the schema that `path` points to, or what is wrong with the path. -/
def resolve (schemas : List String) (path : String) : Except Problem Nat :=
  match SchemaRef.parse path with
  | .error _ => .error (.malformedReference path)
  | .ok name =>
    match schemas.idxOf? name with
    | some place => .ok place
    | none => .error (.missingSchema path name schemas)

def enumProblems (place : Pointer) (values : List Value) : List Diagnostic :=
  values.flatMap fun item =>
    match item with
    | .string name =>
      if Identifier.isValid name then [] else [(Problem.invalidName name).located (place.push "enum")]
    | _ => [(Problem.enumItemNotString item).located place]

/-- The type of a node that only declares one. A member of something always has a type. -/
def declaredType (type : Option TypeName) (format : Option Format) (isMember : Bool) :
    Option BindingType :=
  match type with
  | some .string => some (if format = some .dateTime then .dateTime else .string)
  | some .integer =>
    match format with
    | some (.integer t) => some (.integer t)
    | _ => some (.integer .int64)
  | some .boolean => some .boolean
  | some .buffer => some .buffer
  | some .number => some (if format = some .float then .float else .double)
  | some .array => some (.array .freeForm)
  | some .object | some .enum | some .map => some .freeForm
  | none => if isMember then some .freeForm else none

/-- A missing type inside another one is an object of which nothing is known. -/
def orFreeForm (t : Option BindingType) : BindingType := t.getD .freeForm

/-! ## The tree below a node -/

mutual

/-- `name` is what an object or enum is called here. Members are properties, items and map
values. -/
def annotate (schemas : List String) (enter : Enter) (name : String) (isMember : Bool)
    (place : Pointer) : Node → State → Node × State
  | ⟨type, format, description, nullable, items, additionalProperties, properties, enumValues,
      reference, _⟩, s =>
    let isNullable := nullable.getD false
    let node : Node :=
      { type, format, description, nullable, items, additionalProperties, properties, enumValues,
        reference }
    match properties with
    | p :: ps =>
      let (annotated, s) := annotateProperties schemas enter (place.push "properties") (p :: ps) s
      let types := annotated.map fun p => orFreeForm p.node.bindingType
      ({ node with
          type := some .object
          properties := annotated
          bindingType := some ((BindingType.object name types).withNullable isNullable) }, s)
    | [] =>
    match reference with
    | some r =>
      match resolve schemas r.path with
      | .error problem => (node, s.report [problem.located (place.push "$ref")])
      | .ok target =>
        let (t, s) := enter target (place.push "$ref") s
        ({ node with
            type := some .object
            reference := some { r with target := some target }
            bindingType := some ((orFreeForm t).withNullable isNullable) }, s)
    | none =>
    match enumValues with
    | some values =>
      let variants := values.filterMap (·.asString?)
      ({ node with
          type := some .enum
          bindingType := some ((BindingType.enumeration name variants).withNullable isNullable) },
        s.report (enumProblems place values))
    | none =>
    match items with
    | some item =>
      let (item, s) := annotate schemas enter name true (place.push "items") item s
      ({ node with
          type := some (type.getD .array)
          items := some item
          bindingType :=
            some ((BindingType.array (orFreeForm item.bindingType)).withNullable isNullable) }, s)
    | none =>
    match additionalProperties with
    | some value =>
      let (value, s) := annotate schemas enter name true (place.push "additionalProperties") value s
      ({ node with
          type := some .map
          additionalProperties := some value
          bindingType :=
            some ((BindingType.map (orFreeForm value.bindingType)).withNullable isNullable) }, s)
    | none =>
      ({ node with
          bindingType := (declaredType type format isMember).map (·.withNullable isNullable) }, s)

def annotateProperties (schemas : List String) (enter : Enter) (place : Pointer) :
    List Property → State → List Property × State
  | [], s => ([], s)
  | ⟨name, required, node⟩ :: rest, s =>
    let (node, s) := annotate schemas enter name true (place.push name) node s
    let (rest, s) := annotateProperties schemas enter place rest s
    (⟨name, required, node⟩ :: rest, s)

end

/-! ## The registry -/

/-- The type of a schema, annotating it if that has not been done. Every annotation inside
another one has a schema of its own, so the size of the registry bounds the depth. -/
def enterSchema (schemas : Keyed Schema) : Nat → Enter
  | 0, _, _, s => (none, s)
  | depth + 1, target, place, s =>
    match s.progress[target]?, schemas[target]? with
    | some (.done node), _ => (node.bindingType, s)
    | some .inProgress, some (name, _) =>
      (some (.object name []), { s with placeholders := s.placeholders ++ [place] })
    | some .pending, some (name, schema) =>
      let (node, s) :=
        annotate (Keyed.keys schemas) (enterSchema schemas depth) name false (.schema name)
          schema.node (s.set target .inProgress)
      (node.bindingType, s.set target (.done node))
    | _, _ => (none, s)

def enterFrom (schemas : Keyed Schema) : Enter := enterSchema schemas (schemas.length + 1)

/-- Every schema, in the order of declaration. -/
def annotateSchemas (schemas : Keyed Schema) : State :=
  (List.range schemas.length).foldl
    (fun s target => (enterFrom schemas target (.root) s).2)
    { progress := schemas.map fun _ => .pending }

/-- The registry with the nodes that are done. -/
def State.registry (s : State) (schemas : Keyed Schema) : Keyed Schema :=
  List.zipWith
    (fun (name, schema) progress =>
      match progress with
      | .done node => (name, { schema with node := node })
      | _ => (name, schema))
    schemas s.progress

/-! ## Functions -/

def annotateParameter (schemas : Keyed Schema) (place : Pointer) (name : String) :
    Option Parameter → State → Option Parameter × State
  | none, s => (none, s)
  | some p, s =>
    let (node, s) := annotate (Keyed.keys schemas) (enterFrom schemas) name false place p.node s
    (some { p with node := node }, s)

def annotateFunction (schemas : Keyed Schema) (kind : String) (f : Function) (s : State) :
    Function × State :=
  let place : Pointer := ⟨[kind, f.name]⟩
  let (input, s) := annotateParameter schemas (place.push "input") f.name f.input s
  let (output, s) := annotateParameter schemas (place.push "output") f.name f.output s
  ({ f with input := input, output := output }, s)

def annotateFunctions (schemas : Keyed Schema) (kind : String) :
    List Function → State → List Function × State
  | [], s => ([], s)
  | f :: fs, s =>
    let (f, s) := annotateFunction schemas kind f s
    let (fs, s) := annotateFunctions schemas kind fs s
    (f :: fs, s)

end Annotation

end BindingSchema
