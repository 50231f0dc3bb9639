import Observing.Command

/-!
# The command line

Reads the observations that a command names and prints the answer to it.
-/

open Observing

def readObservation (file : String) : IO Observation := do
  let text ← IO.FS.readFile file
  match Observation.parse? text with
  | some o => return o
  | none => throw (.userError ("Failed to parse JSON from file: " ++ Json.quoted file))

/-- A command is answered with its output, or with what went wrong and a status that is not zero. -/
def main (words : List String) : IO UInt32 := do
  match Invocation.parse? words with
  | none =>
    IO.eprint Command.usage
    return 2
  | some invocation =>
    try
      let observations ← invocation.command.files.mapM readObservation
      match invocation.output ⟨.standard, .standard⟩ observations with
      | .ok text =>
        IO.print text
        return 0
      | .error refusal =>
        IO.eprintln ("Error: " ++ refusal.message)
        return 1
    catch e =>
      IO.eprintln ("Error: " ++ toString e)
      return 1
