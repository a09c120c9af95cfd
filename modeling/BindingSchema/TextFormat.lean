import BindingSchema.Json.Reader
import BindingSchema.Text.Blank
import BindingSchema.Yaml

/-!
The text formats of a document, and how one is chosen.
-/

namespace BindingSchema

inductive TextFormat where
  /-- JSON if the text begins like a JSON object, YAML otherwise. -/
  | auto
  | json
  | yaml
  deriving DecidableEq

inductive TextError where
  | json (error : Json.Error)
  | yaml
  | unsupportedFormat (name : String)

def TextError.message : TextError → String
  | .json error => "JSON error: " ++ error.message
  | .yaml => "YAML error"
  | .unsupportedFormat name => "Unsupported format: " ++ name

namespace TextFormat

def text : TextFormat → String
  | auto => "auto"
  | json => "json"
  | yaml => "yaml"

def words : List (String × TextFormat) :=
  [("auto", auto), ("json", json), ("yaml", yaml), ("yml", yaml)]

/-- The case of the name does not matter. -/
def ofName (name : String) : Except TextError TextFormat :=
  match Keyed.get? words name.toLower with
  | some f => .ok f
  | none => .error (.unsupportedFormat name.toLower)

def ofExtension (extension : String) : TextFormat := (Keyed.get? words extension.toLower).getD auto

/-- The format a text is read in. -/
def resolve (f : TextFormat) (text : String) : TextFormat :=
  match f with
  | auto => if Text.firstInk? text = some '\x7b' then json else yaml
  | f => f

/-- The value a text stands for. -/
def decode (f : TextFormat) (text : String) : Except TextError Value :=
  match f.resolve text with
  | json =>
    match Json.parse text with
    | .ok v => .ok v
    | .error e => .error (.json e)
  | _ =>
    match Yaml.parse text with
    | some v => .ok v
    | none => .error .yaml

end TextFormat

end BindingSchema
