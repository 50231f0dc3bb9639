import Observing.Limits
import Observing.Text

/-!
# Settings of the service

* `Settings`            where the service listens, its name and the limits of its engine;
* `Settings.ofVariables?`  the settings that environment variables give.

A variable counts when its name starts with `SEQGEN_`.  The rest of the name, in letters of either
case, is that of the setting.  A setting must not be given twice.
-/

namespace Observing

structure Settings where
  host : String
  port : Nat
  debug : Bool
  serverName : String
  limits : Limits
deriving DecidableEq

namespace Settings

def standard : Settings where
  host := "0.0.0.0"
  port := 8084
  debug := false
  serverName := "seqgen-service"
  limits := .standard

def address (s : Settings) : String := s.host ++ ":" ++ toString s.port

/-! ## Variables -/

def variableMark : List Char := "SEQGEN_".toList

/-- A name without all marks in front of it. -/
def withoutMarks : List Char → List Char
  | 'S' :: 'E' :: 'Q' :: 'G' :: 'E' :: 'N' :: '_' :: name => withoutMarks name
  | name => name

/-- The setting that the name of a variable refers to, if it refers to one. -/
def settingName? (name : String) : Option String :=
  let cs := name.toList
  if variableMark.isPrefixOf cs then some (String.ofList ((withoutMarks cs).map Char.toLower))
  else none

def flag? (s : String) : Option Bool :=
  if s = "true" then some true else if s = "false" then some false else none

/-- The settings of variables by the names of the settings. -/
def given (environment : List (String × String)) : List (String × String) :=
  environment.filterMap fun (name, value) => (settingName? name).map fun s => (s, value)

/-- The value of a setting: the standard value where it is not given, none where it is given twice or
cannot be read. -/
def value? {α : Type} (settings : List (String × String)) (name : String) (read : String → Option α)
    (standard : α) : Option α :=
  match settings.filter fun s => s.1 = name with
  | [] => some standard
  | [(_, value)] => read value
  | _ => none

def ofVariables? (environment : List (String × String)) : Option Settings := do
  let settings := given environment
  let l := Limits.standard
  let host ← value? settings "host" some standard.host
  let port ← value? settings "port" (Text.naturalUpTo? 65535) standard.port
  let debug ← value? settings "debug" flag? standard.debug
  let serverName ← value? settings "server_name" some standard.serverName
  let atoms ← value? settings "sequence_atom_limit" Text.word? l.atoms
  let cycleMinutes ← value? settings "max_cycle_minutes" Text.word? l.cycleMinutes
  let defaultFuture ← value? settings "default_future_limit" Text.word? l.defaultFuture
  let maxFuture ← value? settings "max_future_limit" Text.word? l.maxFuture
  return {
    host, port, debug, serverName
    limits := { atoms, cycleMinutes, defaultFuture, maxFuture } }

end Settings
end Observing
