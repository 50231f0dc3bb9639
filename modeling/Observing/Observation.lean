import Observing.Charge

/-!
# Observations

What is asked for: a target, an observing mode, the answer of the exposure time calculator, and what
was recorded so far.

* `ObservingMode`       an instrument with the way it is used;
* `Observation`         everything a sequence is made from;
* `Observation.request` what the exposure time calculator is asked, or all that is missing for it.
-/

namespace Observing

/-! ## Targets -/

/-- Photometric bands. -/
inductive Band
  | u
  | b
  | v
  | r
  | i
  | j
  | h
  | k
deriving DecidableEq

instance : Named Band where
  values := [.u, .b, .v, .r, .i, .j, .h, .k]
  name
    | .u => "U"
    | .b => "B"
    | .v => "V"
    | .r => "R"
    | .i => "I"
    | .j => "J"
    | .h => "H"
    | .k => "K"

structure Brightness where
  band : Band
  magnitude : Rat
deriving DecidableEq

/-- A target; its radial velocity is in kilometers per second. -/
structure Target where
  name : String
  brightness : Option Brightness
  radialVelocity : Option Rat
deriving DecidableEq

/-! ## Observing modes -/

/-- The purpose of an observation that calibrates others. -/
inductive CalibrationRole
  | twilight
  | spectroPhotometric
deriving DecidableEq

instance : Named CalibrationRole where
  values := [.twilight, .spectroPhotometric]
  name
    | .twilight => "twilight"
    | .spectroPhotometric => "spectro_photometric"

/-- The settings of a GMOS detector that an observer may choose. -/
structure GmosChoices where
  xBin : Option Gmos.Binning
  yBin : Option Gmos.Binning
  ampReadMode : Option Gmos.AmpReadMode
  ampGain : Option Gmos.AmpGain
  region : Option Gmos.Region
deriving DecidableEq

structure GmosLongSlit where
  grating : Gmos.Grating
  filter : Option Gmos.Filter
  slit : Gmos.Slit
  centralWavelength : Wavelength
  choices : GmosChoices
  dithers : Option (List Dither)
  offsets : Option (List Angle)
  exposuresPerAtom : Option Nat
deriving DecidableEq

structure GmosImaging where
  filters : List Gmos.Filter
  choices : GmosChoices
  offsets : Option (List Offset)
deriving DecidableEq

structure FlamingosLongSlit where
  disperser : Flamingos.Disperser
  filter : Flamingos.Filter
  slit : Flamingos.Slit
  readMode : Option Flamingos.ReadMode
  offsets : Option (List Angle)
deriving DecidableEq

inductive ObservingMode
  | gmosNorthLongSlit (mode : GmosLongSlit)
  | gmosSouthLongSlit (mode : GmosLongSlit)
  | gmosNorthImaging (mode : GmosImaging)
  | gmosSouthImaging (mode : GmosImaging)
  | flamingos2LongSlit (mode : FlamingosLongSlit)
deriving DecidableEq

namespace ObservingMode

def instrument : ObservingMode → Instrument
  | .gmosNorthLongSlit _ | .gmosNorthImaging _ => .gmosNorth
  | .gmosSouthLongSlit _ | .gmosSouthImaging _ => .gmosSouth
  | .flamingos2LongSlit _ => .flamingos2

def text : ObservingMode → String
  | .gmosNorthLongSlit _ => "gmos_north_long_slit"
  | .gmosSouthLongSlit _ => "gmos_south_long_slit"
  | .gmosNorthImaging _ => "gmos_north_imaging"
  | .gmosSouthImaging _ => "gmos_south_imaging"
  | .flamingos2LongSlit _ => "flamingos2_long_slit"

end ObservingMode

/-! ## Observations -/

/-- How long and how often to expose. -/
structure IntegrationTime where
  exposureTime : TimeSpan
  exposureCount : Nat
deriving DecidableEq

/-- What the exposure time calculator answers. -/
structure IntegrationTimes where
  acquisition : IntegrationTime
  science : IntegrationTime
deriving DecidableEq

structure Observation where
  id : String
  target : Option Target
  mode : Option ObservingMode
  role : Option CalibrationRole
  integration : Option IntegrationTimes
  history : History
  corrections : List TimeCorrection
deriving DecidableEq

/-! ## The exposure time calculator -/

/-- What the exposure time calculator cannot do without. -/
inductive MissingParameter
  | target
  | observingMode
  | brightness
  | radialVelocity
deriving DecidableEq

instance : Named MissingParameter where
  values := [.target, .observingMode, .brightness, .radialVelocity]
  name
    | .target => "target"
    | .observingMode => "observing_mode"
    | .brightness => "brightness"
    | .radialVelocity => "radial_velocity"

def MissingParameter.text : MissingParameter → String
  | .target => "target"
  | .observingMode => "observing mode"
  | .brightness => "brightness"
  | .radialVelocity => "radial velocity"

/-- What the exposure time calculator is asked. -/
structure IntegrationRequest where
  targetName : String
  brightness : Brightness
  radialVelocity : Rat
  mode : ObservingMode
  role : Option CalibrationRole
deriving DecidableEq

/-- Why the exposure time calculator gives no answer. -/
inductive CalculatorError
  | missing (parameters : List MissingParameter)
  | service (message : String)
deriving DecidableEq

/-- A source of exposure times. -/
abbrev Calculator := IntegrationRequest → Except CalculatorError IntegrationTimes

namespace Calculator

/-- The calculator that gives the same answer to every request, or none. -/
def fixed (answer : Option IntegrationTimes) : Calculator := fun _ =>
  match answer with
  | some times => .ok times
  | none => .error (.service "exposure time calculator returned no result")

/-- The calculator that answers an observation with the times it comes with. -/
def ofObservation (o : Observation) : Calculator := fixed o.integration

end Calculator

namespace Observation

/-- All that is missing for a request.  The properties of a target that is missing itself are not
listed. -/
def missing (o : Observation) : List MissingParameter :=
  (if o.target.isNone then [.target] else [])
    ++ (if o.mode.isNone then [.observingMode] else [])
    ++ match o.target with
      | some t =>
        (if t.brightness.isNone then [.brightness] else [])
          ++ (if t.radialVelocity.isNone then [.radialVelocity] else [])
      | none => []

/-- The request for an observation, or all that is missing for it. -/
def request (o : Observation) : Except (List MissingParameter) IntegrationRequest :=
  match o.target, o.mode with
  | some ⟨name, some brightness, some velocity⟩, some mode =>
    .ok ⟨name, brightness, velocity, mode, o.role⟩
  | _, _ => .error o.missing

end Observation
end Observing
