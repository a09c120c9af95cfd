import BindingSchema.InvocationContext
import BindingSchema.Path
import BindingSchema.Validation

/-!
The command line: which words mean which command, and what a command prints.

A command needs at most one file. Reading it is left to the caller, so all of this is pure.
Standard output holds nothing but JSON, or the digit that answers `has-imports`.
-/

namespace BindingSchema

/-! ## Source files -/

structure SourceFile where
  text : String
  format : TextFormat

/-- The format in which a file is read when none is given comes from its extension. -/
def formatFor (path : String) (format : TextFormat) : TextFormat :=
  match format with
  | .auto =>
    match Path.extension? path with
    | some extension => .ofExtension extension
    | none => .auto
  | format => format

/-- `content` is what the file holds, if it could be read. -/
def openSource (path : String) (format : TextFormat) (content : Option String) :
    Except String SourceFile :=
  match content with
  | some text => .ok ⟨text, formatFor path format⟩
  | none => .error ("Failed to read schema file " ++ path)

namespace CommandLine

/-! ## Commands -/

inductive Command where
  | validate (file : String)
  | hasImports (file : String)
  | interface (file : String)
  | contextFile (file : String)
  | contextText (text : String)
  deriving DecidableEq

structure Invocation where
  command : Command
  format : TextFormat
  deriving DecidableEq

/-- Why there is nothing to do. -/
inductive Stop where
  | misuse
  | help
  deriving DecidableEq

structure Outcome where
  code : Nat
  output : String
  deriving DecidableEq

def Stop.outcome : Stop → Outcome
  | misuse => ⟨2, ""⟩
  | help => ⟨0, ""⟩

/-! ## Options -/

/-- The options that every command takes. They may stand before the command and after it, at
most once in each place. -/
structure Common where
  verbose : Bool := false
  debug : Bool := false
  format : Option TextFormat := none

structure ContextOptions where
  file : Option String := none
  text : Option String := none

/-- What has been read so far, before or after the command. -/
structure Scan where
  common : Common := {}
  context : ContextOptions := {}
  /-- The only argument that is no option. -/
  argument : Option String := none

def setVerbose (s : Scan) : Except Stop Scan :=
  if s.common.verbose then .error .misuse else .ok { s with common.verbose := true }

def setDebug (s : Scan) : Except Stop Scan :=
  if s.common.debug then .error .misuse else .ok { s with common.debug := true }

def setFormat (s : Scan) (name : String) : Except Stop Scan :=
  match s.common.format, TextFormat.ofName name with
  | none, .ok f => .ok { s with common.format := some f }
  | _, _ => .error .misuse

/-- A file must have a name. -/
def setContextFile (s : Scan) (file : String) : Except Stop Scan :=
  if s.context.file.isSome || file == "" then .error .misuse
  else .ok { s with context.file := some file }

def setContextText (s : Scan) (text : String) : Except Stop Scan :=
  if s.context.text.isSome then .error .misuse else .ok { s with context.text := some text }

/-- What an option's name asks for. -/
inductive Switch where
  | flag (set : Scan → Except Stop Scan)
  | valued (set : Scan → String → Except Stop Scan)

def longOption (inContext : Bool) (name : String) : Except Stop Switch :=
  match name with
  | "verbose" => .ok (.flag setVerbose)
  | "debug" => .ok (.flag setDebug)
  | "format" => .ok (.valued setFormat)
  | "ctx" => if inContext then .ok (.valued setContextFile) else .error .misuse
  | "ctx-json" => if inContext then .ok (.valued setContextText) else .error .misuse
  | _ => .error .misuse

def shortOption (name : Char) : Except Stop Switch :=
  match name with
  | 'v' => .ok (.flag setVerbose)
  | 'd' => .ok (.flag setDebug)
  | 'f' => .ok (.valued setFormat)
  | 'h' => .error .help
  | _ => .error .misuse

def isOption (word : String) : Bool := word.startsWith "-" && word != "-"

/-- A value that stands in the next word, which must not look like an option. -/
def takeValue (set : Scan → String → Except Stop Scan) (s : Scan) :
    List String → Except Stop (Scan × List String)
  | [] => .error .misuse
  | word :: rest => if isOption word then .error .misuse else return (← set s word, rest)

/-- `--name`, `--name=value` or `--name value`, without the leading `--`. -/
def readLong (inContext : Bool) (word : List Char) (s : Scan) (rest : List String) :
    Except Stop (Scan × List String) := do
  let name := word.takeWhile (· != '=')
  let attached := word.drop name.length
  if String.ofList word == "help" then throw .help
  match ← longOption inContext (String.ofList name), attached with
  | .flag set, [] => return (← set s, rest)
  | .flag _, _ => throw .misuse
  | .valued set, [] => takeValue set s rest
  | .valued set, _ :: value => return (← set s (String.ofList value), rest)

/-- `-abc`, without the leading `-`. The first option with a value takes what is left of the word. -/
def readShort (s : Scan) (rest : List String) : List Char → Except Stop (Scan × List String)
  | [] => .ok (s, rest)
  | c :: cs => do
    match ← shortOption c with
    | .flag set => readShort (← set s) rest cs
    | .valued set =>
      match cs with
      | [] => takeValue set s rest
      | '=' :: value => return (← set s (String.ofList value), rest)
      | value => return (← set s (String.ofList value), rest)

def readOption (inContext : Bool) (word : String) (s : Scan) (rest : List String) :
    Except Stop (Scan × List String) :=
  match word.toList with
  | '-' :: '-' :: name => readLong inContext name s rest
  | _ :: names => readShort s rest names
  | [] => .error .misuse

/-! ## After the command -/

/-- Only the commands other than `context` take an argument, and they take one, with a name. -/
def setArgument (inContext : Bool) (s : Scan) (word : String) : Except Stop Scan :=
  if inContext || s.argument.isSome || word == "" then .error .misuse
  else .ok { s with argument := some word }

/-- `--` ends the options. Every step uses up a word, so the count of words bounds the steps. -/
def scanArguments (inContext : Bool) : Nat → Scan → List String → Except Stop Scan
  | 0, s, _ => .ok s
  | _, s, [] => .ok s
  | steps + 1, s, word :: rest =>
    if word = "--" then rest.foldlM (setArgument inContext) s
    else if isOption word then do
      let (s, rest) ← readOption inContext word s rest
      scanArguments inContext steps s rest
    else do scanArguments inContext steps (← setArgument inContext s word) rest

/-- The file to be read. -/
def fileOf (s : Scan) : Except Stop String :=
  match s.argument with
  | some file => .ok file
  | none => .error .misuse

/-- The environment may supply the text of the context. A context file then stands against it, as
it does against a text on the command line. -/
def contextCommand (environment : Option String) (s : Scan) : Except Stop Command :=
  match s.context.file, s.context.text.or environment with
  | some _, some _ => .error .misuse
  | some file, none => .ok (.contextFile file)
  | none, some text => .ok (.contextText text)
  | none, none => .ok (.contextText "\x7b\x7d")

def readCommand (environment : Option String) (name : String) (rest : List String) :
    Except Stop (Command × Common) := do
  let s ← scanArguments (name == "context") (rest.length + 1) {} rest
  let command ← match name with
    | "validate" => (fileOf s).map .validate
    | "has-imports" => (fileOf s).map .hasImports
    | "ir" => (fileOf s).map .interface
    | _ => contextCommand environment s
  return (command, s.common)

/-! ## The whole line -/

def commandNames : List String := ["validate", "has-imports", "ir", "context"]

/-- A format given after the command goes before one given in front of it. -/
def finish (before : Common) (command : Command) (after : Common) : Invocation :=
  ⟨command, (after.format.or before.format).getD .auto⟩

/-- What `help` can be asked about. -/
def isHelpTopic (words : List String) : Bool :=
  match words with
  | [] => true
  | [word] => word == "help" || commandNames.contains word
  | _ => false

/-- Options up to the command, and then the command with its own. -/
def scanLine (environment : Option String) : Nat → Scan → List String → Except Stop Invocation
  | 0, _, _ | _, _, [] => .error .misuse
  | steps + 1, s, word :: rest =>
    if word = "--" then .error .misuse
    else if isOption word then do
      let (s, rest) ← readOption false word s rest
      scanLine environment steps s rest
    else if commandNames.contains word then do
      let (command, after) ← readCommand environment word rest
      return finish s.common command after
    else if word = "help" ∧ isHelpTopic rest then .error .help
    else .error .misuse

def read (environment : Option String) (words : List String) : Except Stop Invocation :=
  scanLine environment (words.length + 1) {} words

/-! ## Running a command -/

/-- The file a command reads. -/
def Command.file? : Command → Option String
  | validate file | hasImports file | interface file | contextFile file => some file
  | contextText _ => none

def failure : Outcome := ⟨1, ""⟩

def print (v : Value) : String := v.pretty ++ "\n"

def codeFor (valid : Bool) : Nat := if valid then 0 else 1

def runValidate (source : SourceFile) : Outcome :=
  let v := BindingSchema.validate source.text source.format
  ⟨codeFor v.valid, print v.encode⟩

def runHasImports (source : SourceFile) : Outcome :=
  ⟨0, if BindingSchema.hasImports source.text source.format then "1\n" else ""⟩

def runInterface (source : SourceFile) : Outcome :=
  let v := BindingSchema.validate source.text source.format
  ⟨codeFor v.valid, print (match v.interface with
    | some interface => interface.encode
    | none => .array (v.errors.map (·.encode)))⟩

def runContext (text : String) : Outcome :=
  match InvocationContext.load text with
  | .ok c => ⟨0, print c.encode⟩
  | .error _ => failure

/-- `content` is what the command's file holds, if it could be read. -/
def run (i : Invocation) (content : Option String) : Outcome :=
  let withSource (path : String) (run : SourceFile → Outcome) : Outcome :=
    match openSource path i.format content with
    | .ok source => run source
    | .error _ => failure
  match i.command with
  | .validate file => withSource file runValidate
  | .hasImports file => withSource file runHasImports
  | .interface file => withSource file runInterface
  | .contextFile _ => (content.map runContext).getD failure
  | .contextText text => runContext text

end CommandLine

end BindingSchema
