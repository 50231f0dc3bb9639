import Observing.Json.Reader
import Observing.Json.Writer
import Observing.Report
import Observing.Wire.Sequence

/-!
# Commands

What is asked for in words, and the text that it is answered with.

* `Command`            the next atoms, the digest of an observation, or that of a program;
* `Invocation.parse?`  the command that words denote, and whether documents are wanted;
* `Invocation.output`  the answer for the observations that were read.

Main statement: the flag for documents may stand in front of any command (`parse?_json`).
-/

namespace Observing

/-- What is asked for.  An observation is given by the name of the file that it is read from. -/
inductive Command
  | generate (file : String) (limit : Option Nat)
  | digest (file : String)
  | program (files : List String)
deriving DecidableEq

namespace Command

def files : Command → List String
  | generate file _ => [file]
  | digest file => [file]
  | program files => files

/-- The one file and the limit among the words behind `generate`. -/
def generate? : List String → Option Command
  | [file] => some (generate file none)
  | [file, "--limit", n] | [file, "-l", n] | ["--limit", n, file] | ["-l", n, file] =>
    (Text.word? n).map fun n => generate file (some n)
  | _ => none

def parse? : List String → Option Command
  | "generate" :: words => generate? words
  | ["digest", file] => some (digest file)
  | "program" :: file :: files => some (program (file :: files))
  | _ => none

def usage : String :=
  "Usage: observing [--json] generate FILE [--limit N]\n" ++
  "       observing [--json] digest FILE\n" ++
  "       observing [--json] program FILE...\n"

end Command

/-- A command, and whether its answer is wanted as a document. -/
structure Invocation where
  command : Command
  json : Bool
deriving DecidableEq

namespace Invocation

def isJsonFlag (word : String) : Bool := word = "--json" || word = "-j"

/-- The command that words denote, and whether documents are wanted. -/
def parse? (words : List String) : Option Invocation :=
  (Command.parse? (words.filter fun w => !isJsonFlag w)).map fun command =>
    ⟨command, words.any isJsonFlag⟩

theorem parse?_json (words : List String) :
    parse? ("--json" :: words) = (parse? words).map fun i => { i with json := true } := by
  have hflag : isJsonFlag "--json" = true := by decide
  simp [parse?, hflag, Function.comp_def]

/-- An answer as a document or as a report. -/
def answer {α : Type} [Encode α] (json : Bool) (report : α → String) (a : α) : String :=
  if json then (encode a).pretty "" ++ "\n" else report a

/-- The answer for the observations that were read from the files of the command. -/
def output (e : Engine) (i : Invocation) (os : List Observation) : Except Refusal String :=
  match i.command, os with
  | .generate _ limit, o :: _ =>
    (e.generate o (.ofObservation o) limit).map (answer i.json Report.execution)
  | .digest _, o :: _ => (e.ownDigest o).map (answer i.json Report.observation)
  | .program _, os => (e.programDigest os).map (answer i.json Report.program)
  | .generate _ _, [] | .digest _, [] => .ok ""

end Invocation

def Observation.parse? (s : String) : Option Observation :=
  (Json.parse? s).bind fun j => (decode j : Decoded Observation).toOption

end Observing
