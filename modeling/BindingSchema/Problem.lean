import BindingSchema.Decode
import BindingSchema.Diagnostic
import BindingSchema.Identifier
import BindingSchema.Json.Printer
import BindingSchema.Language
import BindingSchema.Pointer
import BindingSchema.Vocabulary

/-!
Everything that can be wrong with a document, with the wording of each message.
-/

namespace BindingSchema

/-- A value as messages show it: a string as it is, anything else as JSON. -/
def describe : Option Value → String
  | none => "undefined"
  | some (.string s) => s
  | some v => v.compact

inductive Problem where
  | unknownVersion (found : Option Value)
  | invalidName (name : String)
  | unknownContentType (found : Option Value)
  | unknownType (found : Value)
  /-- `type` is the type as written, `formats` what it admits. -/
  | unknownFormat (found : Value) (type : Option Value) (formats : List Format)
  | propertiesNotMap (found : Value)
  | mapValuesNotDefinition (found : Value)
  | propertiesAndMapValues
  | requiredUndefined (found : Value)
  | enumNotList (found : Value)
  | enumItemNotString (found : Value)
  | referenceNotString (found : Value)
  | malformedReference (path : String)
  /-- `schemas` are the names there are. -/
  | missingSchema (path : String) (name : String) (schemas : List String)
  | undecodable (error : DecodeError)
  | undecodableText (message : String)
  /-- The names on a circle of references; the first comes again at the end. -/
  | circularReference (names : List String)
  | reservedName (name : String) (languages : List Language)
  | draftVersion (text : String)

namespace Problem

private def inBrackets (options : List String) : String := "[" ++ ", ".intercalate options ++ "]"

private def inQuotes (s : String) : String := "\"" ++ s ++ "\""

def message : Problem → String
  | unknownVersion found => "version property not valid: " ++ describe found
  | invalidName name => Identifier.invalidMessage name
  | unknownContentType found =>
    "Invalid contentType " ++ describe found ++ ". Options are: " ++
      inBrackets (ContentType.all.map (·.text))
  | unknownType found =>
    "Invalid type '" ++ describe (some found) ++ "'. Options are: " ++
      inBrackets (TypeName.declarable.map fun t => "'" ++ t.text ++ "'")
  | unknownFormat found type formats =>
    "Invalid format " ++ describe (some found) ++ " for type " ++ describe type ++
      ". Valid formats are: " ++ inBrackets (formats.map (·.text))
  | propertiesNotMap found =>
    "properties must be a map of names to definitions, got " ++ found.compact
  | mapValuesNotDefinition found =>
    "additionalProperties must be a definition or a boolean, got " ++ found.compact
  | propertiesAndMapValues =>
    "We currently do not support objects with both fixed properties and additionalProperties"
  | requiredUndefined found =>
    "Property " ++ describe (some found) ++ " is marked as required but not defined"
  | enumNotList found => "enum must be a list of strings, got " ++ found.compact
  | enumItemNotString found => "Enum item must be a string: " ++ describe (some found)
  | referenceNotString found => "Invalid $ref " ++ found.compact
  | malformedReference path => "Invalid $ref " ++ inQuotes path
  | missingSchema path name schemas =>
    "Invalid $ref " ++ inQuotes path ++ ". Cannot find schema " ++ inQuotes name ++
      ". Options are: " ++ inBrackets schemas
  | undecodable error => error.message
  | undecodableText message => message
  | circularReference names => "Detected circular reference: " ++ " -> ".intercalate names
  | reservedName name languages =>
    "Identifier " ++ inQuotes name ++ " collides with reserved keywords in: " ++
      ", ".intercalate (languages.map (·.text))
  | draftVersion text =>
    "Version " ++ text ++ " is a draft version and may be exposed to breaking changes until the " ++
      "final version is published"

def category : Problem → Category
  | circularReference _ => .cycle
  | reservedName _ _ => .keyword
  | draftVersion _ => .draftVersion
  | _ => .structural

def located (p : Problem) (place : Pointer) : Diagnostic := ⟨p.message, place.text, p.category⟩

end Problem

end BindingSchema
