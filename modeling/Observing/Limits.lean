import Observing.Observation

/-!
# Limits and refusals

* `Limits`   how long a sequence may get and how much of it is shown;
* `Refusal`  why there is no sequence for an observation, and its wording.
-/

namespace Observing

/-- How long a sequence may get and how much of it is shown. -/
structure Limits where
  /-- The greatest number of atoms in a plan. -/
  atoms : Nat
  /-- The longest cycle of a plan, in minutes. -/
  cycleMinutes : Nat
  /-- The future atoms that are shown where no number is asked for. -/
  defaultFuture : Nat
  /-- The future atoms that are shown at most. -/
  maxFuture : Nat
deriving DecidableEq

namespace Limits

def standard : Limits where
  atoms := 1000
  cycleMinutes := 60
  defaultFuture := 25
  maxFuture := 100

instance : Inhabited Limits := ⟨standard⟩

/-- The future atoms that are shown when `requested` are asked for. -/
def future (l : Limits) (requested : Option Nat) : Nat :=
  min (requested.getD l.defaultFuture) l.maxFuture

/-- The longest cycle as a time span.  The minutes are a word of 64 bits; one whose topmost bit is
set counts as negative, so that no time is left. -/
def longestCycle (l : Limits) : TimeSpan :=
  .ofMinutes (Ticks.ofWord l.cycleMinutes).val

end Limits

/-! ## Refusals -/

/-- Why there is no sequence for an observation. -/
inductive Refusal.Cause
  /-- Something is missing that the exposure time calculator needs. -/
  | configurationIncomplete (missing : List MissingParameter)
  /-- The plan has more atoms than allowed. -/
  | sequenceTooLong (limit : Nat)
  /-- The cycle takes longer than allowed. -/
  | cycleTooLong (minutes : String) (limit : Nat)
  /-- The exposure time calculator failed. -/
  | externalService (message : String)
deriving DecidableEq

/-- A refusal names the observation it is about. -/
structure Refusal where
  observation : String
  cause : Refusal.Cause
deriving DecidableEq

namespace Refusal

def Cause.kind : Cause → String
  | .configurationIncomplete _ => "configuration_incomplete"
  | .sequenceTooLong _ => "sequence_too_long"
  | .cycleTooLong _ _ => "cycle_too_long"
  | .externalService _ => "external_service_error"

def Cause.message : Cause → String
  | .configurationIncomplete missing =>
    "observation is missing " ++ String.intercalate ", " (missing.map (·.text))
  | .sequenceTooLong limit =>
    "the generated sequence is too long (more than " ++ toString limit ++ " atoms)"
  | .cycleTooLong minutes limit =>
    "the minimum cycle takes " ++ minutes ++ " minutes, longer than the " ++ toString limit
      ++ " minute maximum"
  | .externalService message => message

def message (r : Refusal) : String :=
  "Could not generate a sequence for " ++ r.observation ++ ": " ++ r.cause.message

end Refusal
end Observing
