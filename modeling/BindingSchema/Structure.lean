import BindingSchema.Document.Decode
import BindingSchema.Problem
import BindingSchema.Reference

/-!
The structure of a document, checked on the untyped tree.

The walk goes through every object, in the order of the document. An object describes values,
or it maps names of the author's choice to objects that do; which of the two depends on its
place (`isUserKeyed`). Each description is checked by itself, at its own pointer. Lists are not
entered: the walk takes it that they hold no descriptions, although a reader takes a list of fields
for one.
-/

namespace BindingSchema

namespace Structure

/-! ## One description -/

/-- The names in `components.schemas`. -/
def schemaNames (doc : Value) : List String :=
  match (doc.get? "components").bind (·.get? "schemas") with
  | some (.object schemas) => Keyed.keys schemas
  | _ => []

def checkName (name : String) (place : Pointer) : List Diagnostic :=
  if Identifier.isValid name then [] else [(Problem.invalidName name).located place]

/-- The type that `fields` declare, in whatever way it is spelt. -/
def typeOf (fields : List (String × Value)) : Option TypeName :=
  ((Value.present? fields "type").bind (·.asString?)).bind TypeName.ofText?

def checkType (fields : List (String × Value)) (place : Pointer) : List Diagnostic :=
  match Value.present? fields "type" with
  | none => []
  | some found =>
    if (typeOf fields).any (·.isDeclarable) then [] else [(Problem.unknownType found).located place]

def checkFormat (fields : List (String × Value)) (place : Pointer) : List Diagnostic :=
  match Value.present? fields "format" with
  | none => []
  | some found =>
    let formats := match typeOf fields with
      | some t => t.formats
      | none => []
    if (found.asString?.bind Format.ofText?).any (formats.contains ·) then []
    else [(Problem.unknownFormat found (Value.present? fields "type") formats).located place]

/-- `additionalProperties: false` says the same as leaving it out. -/
def declaresMapValues (fields : List (String × Value)) : Bool :=
  match Value.present? fields "additionalProperties" with
  | none | some (.bool false) => false
  | some _ => true

def checkRequired (fields properties : List (String × Value)) (place : Pointer) : List Diagnostic :=
  match Keyed.get? fields "required" with
  | some (.array names) =>
    names.flatMap fun found =>
      match found with
      | .string name =>
        if (Keyed.get? properties name).isSome then []
        else [(Problem.requiredUndefined found).located place]
      | _ => [(Problem.requiredUndefined found).located place]
  | _ => []

def checkProperties (fields : List (String × Value)) (place : Pointer) : List Diagnostic :=
  match Value.present? fields "properties" with
  | none | some (.object []) => []
  | some (.object properties) =>
    (if declaresMapValues fields then [Problem.propertiesAndMapValues.located place] else []) ++
      checkRequired fields properties place ++
      (Keyed.keys properties).flatMap fun name => checkName name (place.append ["properties", name])
  | some found => [(Problem.propertiesNotMap found).located (place.push "properties")]

def checkMapValues (fields : List (String × Value)) (place : Pointer) : List Diagnostic :=
  match Value.present? fields "additionalProperties" with
  | none | some (.bool _) | some (.object _) => []
  | some found => [(Problem.mapValuesNotDefinition found).located (place.push "additionalProperties")]

def checkEnum (fields : List (String × Value)) (place : Pointer) : List Diagnostic :=
  match Value.present? fields "enum" with
  | none => []
  | some (.array items) =>
    items.flatMap fun item =>
      match item with
      | .string name => checkName name (place.push "enum")
      | _ => [(Problem.enumItemNotString item).located place]
  | some found => [(Problem.enumNotList found).located (place.push "enum")]

def checkReference (schemas : List String) (fields : List (String × Value)) (place : Pointer) :
    List Diagnostic :=
  match Value.present? fields "$ref" with
  | none => []
  | some (.string path) =>
    match SchemaRef.parse path with
    | .ok name =>
      if schemas.contains name then []
      else [(Problem.missingSchema path name schemas).located (place.push "$ref")]
    | .error _ => [(Problem.malformedReference path).located (place.push "$ref")]
  | some found => [(Problem.referenceNotString found).located (place.push "$ref")]

/-- Everything wrong with the description `fields`, apart from what is below it. -/
def checkDescription (schemas : List String) (fields : List (String × Value)) (place : Pointer) :
    List Diagnostic :=
  checkType fields place ++ checkFormat fields place ++ checkProperties fields place ++
    checkMapValues fields place ++ checkEnum fields place ++ checkReference schemas fields place

/-! ## The walk -/

/-- Whether the members of `key` have names of the author's choice. `described` tells whether
`place`, where `key` was found, is a description. -/
def isUserKeyed (place : Pointer) (key : String) (described : Bool) : Bool :=
  match place.segments with
  | [] => key == "exports" || key == "imports" || key == "components"
  | ["components"] => key == "schemas"
  | _ => described && key == "properties"

mutual

def walk (schemas : List String) (place : Pointer) (described : Bool) : Value → List Diagnostic
  | .object fields =>
    (if described then checkDescription schemas fields place else []) ++
      walkMembers schemas place described fields
  | _ => []

/-- The pointer goes down to a member and is back up before the next one. -/
def walkMembers (schemas : List String) (place : Pointer) (described : Bool) :
    List (String × Value) → List Diagnostic
  | [] => []
  | (key, v) :: rest =>
    let below := place.push key
    walk schemas below (!isUserKeyed place key described) v ++
      walkMembers schemas below.pop described rest

end

/-! ## Names and content types -/

def checkContentType (place : Pointer) (entry : Value) (slot : String) : List Diagnostic :=
  match entry.get? slot with
  | none | some .null => []
  | some parameter =>
    let found := parameter.get? "contentType"
    if ((found.bind (·.asString?)).bind ContentType.ofText?).isSome then []
    else [(Problem.unknownContentType found).located (place.append [slot, "contentType"])]

def checkFunctions (doc : Value) (kind : String) : List Diagnostic :=
  match doc.get? kind with
  | some (.object entries) =>
    entries.flatMap fun (name, entry) =>
      let place : Pointer := ⟨[kind, name]⟩
      checkName name place ++ checkContentType place entry "input" ++
        checkContentType place entry "output"
  | _ => []

def checkDeclarations (doc : Value) : List Diagnostic :=
  checkFunctions doc "exports" ++ checkFunctions doc "imports" ++
    (schemaNames doc).flatMap fun name => checkName name (.schema name)

/-- Everything wrong with the structure of a document of version 1. -/
def check (doc : Value) : List Diagnostic :=
  checkDeclarations doc ++ walk (schemaNames doc) .root true doc

end Structure

/-! ## Reading a document -/

/-- What is known of a document after its structure was checked. -/
structure Reading where
  /-- Missing if the version is unknown or the types do not fit. -/
  document : Option Document
  errors : List Diagnostic
  warnings : List Diagnostic

def Reading.isValid (r : Reading) : Bool := r.document.isSome && r.errors.isEmpty

/-- A document that does not fit its types. The walk over the structure is more precise, so this
is reported only if the walk found nothing. -/
def Reading.of (document : Decode.Result Document) (errors warnings : List Diagnostic) : Reading :=
  match document with
  | .ok document => ⟨some document, errors, warnings⟩
  | .error e =>
    ⟨none, if errors.isEmpty then [(Problem.undecodable e).located .root] else errors, warnings⟩

/-- Checks a document against its version and reads it into its types. Only an unknown version
keeps the rest from being looked at. -/
def readDocument (doc : Value) : Reading :=
  let place : Pointer := ⟨["version"]⟩
  match Document.statedVersion? doc with
  | none => ⟨none, [(Problem.unknownVersion (doc.get? "version")).located place], []⟩
  | some version =>
    let warnings := if version.isDraft then [(Problem.draftVersion version.text).located place] else []
    let errors := if version = .v0 then [] else Structure.check doc
    .of (Document.read version doc) errors warnings

end BindingSchema
