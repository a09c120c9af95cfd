import BindingSchema.CommandLine

/-!
The program: reads the file its command names, prints what the command answers and exits with
its code.
-/

open BindingSchema CommandLine

/-- The content of a file, unless it cannot be read as text. -/
def contentOf? (file : String) : IO (Option String) :=
  try
    return some (← IO.FS.readFile file)
  catch _ => return none

def main (args : List String) : IO UInt32 := do
  let outcome ← match CommandLine.read (← IO.getEnv "XTP_CTX") args with
    | .error stop => pure stop.outcome
    | .ok invocation => do
      let content ← match invocation.command.file? with
        | some file => contentOf? file
        | none => pure none
      pure (run invocation content)
  IO.print outcome.output
  return outcome.code.toUInt32
