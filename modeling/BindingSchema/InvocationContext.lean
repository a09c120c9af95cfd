import BindingSchema.Interface.Encode
import BindingSchema.Json.Record
import BindingSchema.Normalization

/-!
What a host hands over for one run of a generator: a document, facts about the project and
feature flags, together in one JSON text.
-/

namespace BindingSchema

structure Project where
  name : String := ""
  description : String := ""
  appId : String := ""
  extensionPointId : String := ""
  deriving DecidableEq

structure InvocationContext where
  interface : Interface
  project : Project
  featureFlags : Keyed Value

inductive ContextError where
  | malformed (error : Json.Error)
  | rejected (rejection : Rejection)
  | badFlags (found : Value)

/-- What went wrong, and then why. -/
def ContextError.chain : ContextError → List String
  | .malformed error => ["Invocation context is not valid JSON", error.message]
  | .rejected rejection => ["Invocation context carries an invalid schema", rejection.summary]
  | .badFlags found => ["featureFlags must be a list or a map, got " ++ found.compact]

/-! ## Reading -/

namespace Project

def record : Decode.Record :=
  ⟨"struct XtpProject", ["name", "description", "appId", "extensionPointId"]⟩

def readField : Json.FieldReader Project := fun field p cur => do
  let (s, cur) ← Json.readStringField cur
  return (match field with
    | "name" => { p with name := s }
    | "description" => { p with description := s }
    | "appId" => { p with appId := s }
    | _ => { p with extensionPointId := s }, cur)

end Project

namespace InvocationContext

def record : Decode.Record := ⟨"struct RawContext", ["schema", "project", "featureFlags"]⟩

/-- The parts of a context as they are written. -/
structure Draft where
  document : Value := .null
  project : Project := {}
  featureFlags : Value := .null

def readField : Json.FieldReader Draft := fun field d cur =>
  let depth := Json.maxDepth - 1
  match field with
  | "schema" => do
    let (v, cur) ← Json.readAny depth cur
    return ({ d with document := v }, cur)
  | "project" => do
    let (p, cur) ← Json.readRecord depth Project.record Project.readField {} cur
    return ({ d with project := p }, cur)
  | _ => do
    let (v, cur) ← Json.readAny depth cur
    return ({ d with featureFlags := v }, cur)

def readDraft (text : String) : Except Json.Error Draft := do
  let (d, cur) ← Json.readRecord Json.maxDepth record readField {} (.start text)
  Json.atEnd cur
  return d

/-- A list of flags switches each of them on. -/
def flagsOf : Value → Except ContextError (Keyed Value)
  | .null => .ok []
  | .object flags => .ok flags
  | .array names => .ok (Keyed.ofList (names.map fun name => (describe (some name), .bool true)))
  | found => .error (.badFlags found)

def load (text : String) : Except ContextError InvocationContext :=
  match readDraft text with
  | .error e => .error (.malformed e)
  | .ok d =>
    match parse d.document with
    | .error r => .error (.rejected r)
    | .ok n => (flagsOf d.featureFlags).map fun flags => ⟨n.interface, d.project, flags⟩

/-- A flag is on unless it is missing, null or false. -/
def isEnabled (c : InvocationContext) (flag : String) : Bool :=
  match Keyed.get? c.featureFlags flag with
  | none | some .null | some (.bool false) => false
  | some _ => true

end InvocationContext

/-! ## Untyped form -/

def Project.encode (p : Project) : Value :=
  .object [("name", .string p.name), ("description", .string p.description),
    ("appId", .string p.appId), ("extensionPointId", .string p.extensionPointId)]

def InvocationContext.encode (c : InvocationContext) : Value :=
  .object [("schema", c.interface.encode), ("project", c.project.encode),
    ("featureFlags", .object c.featureFlags)]

end BindingSchema
