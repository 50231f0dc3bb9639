import Observing.Angle
import Observing.Instrument.Flamingos
import Observing.Instrument.Gmos

/-!
# Steps

A step is one exposure: what the telescope does, what the instrument does, and the class that
decides who is charged for the time.

* `ObserveClass`, `ChargeClass`        the purpose of an exposure and who pays for it;
* `StepConfig`, `InstrumentConfig`     the two halves of a configuration;
* `ProtoStep`                          a planned step without an identity;
* `ProtoStep.Matches`                  a recorded configuration executes a planned step.
-/

namespace Observing

/-! ## Charging -/

/-- Who is charged for time. -/
inductive ChargeClass
  | program
  | partner
  | nonCharged
deriving DecidableEq

instance : Named ChargeClass where
  values := [.program, .partner, .nonCharged]
  name
    | .program => "program"
    | .partner => "partner"
    | .nonCharged => "non_charged"

/-- The purpose of an exposure. -/
inductive ObserveClass
  | science
  | programCal
  | partnerCal
  | acquisition
  | acquisitionCal
  | dayCal
deriving DecidableEq

instance : Named ObserveClass where
  values := [.science, .programCal, .partnerCal, .acquisition, .acquisitionCal, .dayCal]
  name
    | .science => "science"
    | .programCal => "program_cal"
    | .partnerCal => "partner_cal"
    | .acquisition => "acquisition"
    | .acquisitionCal => "acquisition_cal"
    | .dayCal => "day_cal"

namespace ObserveClass

/-- Who is charged for an exposure of this class. -/
def charge : ObserveClass → ChargeClass
  | .science | .acquisition | .programCal => .program
  | .partnerCal | .acquisitionCal => .partner
  | .dayCal => .nonCharged

/-- The rank of a class: a sequence has the class of its highest ranking step. -/
def significance : ObserveClass → Nat
  | .science => 5
  | .programCal => 4
  | .partnerCal => 3
  | .acquisition => 2
  | .acquisitionCal => 1
  | .dayCal => 0

def higher (a b : ObserveClass) : ObserveClass :=
  if a.significance ≤ b.significance then b else a

/-- The class of highest rank in a list, if the list has any. -/
def mostSignificant : List ObserveClass → Option ObserveClass
  | [] => none
  | c :: cs => some (cs.foldl higher c)

end ObserveClass

/-! ## The telescope's half -/

/-- Whether operators should pause in front of a step. -/
inductive Breakpoint
  | enabled
  | disabled
deriving DecidableEq

instance : Named Breakpoint where
  values := [.enabled, .disabled]
  name
    | .enabled => "enabled"
    | .disabled => "disabled"

inductive Guiding
  | enabled
  | disabled
deriving DecidableEq

instance : Named Guiding where
  values := [.enabled, .disabled]
  name
    | .enabled => "enabled"
    | .disabled => "disabled"

namespace Gcal

/-- The lamps of the calibration unit. -/
inductive Lamp
  | cuAr
  | thAr
  | xe
  | ar
  | quartzHalogen
  | irGreyBodyHigh
  | irGreyBodyLow
deriving DecidableEq

def Lamp.isArc : Lamp → Bool
  | .cuAr | .thAr | .xe | .ar => true
  | .quartzHalogen | .irGreyBodyHigh | .irGreyBodyLow => false

instance : Named Lamp where
  values := [.cuAr, .thAr, .xe, .ar, .quartzHalogen, .irGreyBodyHigh, .irGreyBodyLow]
  name
    | .cuAr => "cu_ar"
    | .thAr => "th_ar"
    | .xe => "xe"
    | .ar => "ar"
    | .quartzHalogen => "quartz_halogen"
    | .irGreyBodyHigh => "ir_grey_body_high"
    | .irGreyBodyLow => "ir_grey_body_low"

inductive Filter
  | none
  | gmos
  | nd10
  | nd20
deriving DecidableEq

instance : Named Filter where
  values := [.none, .gmos, .nd10, .nd20]
  name
    | .none => "none"
    | .gmos => "gmos"
    | .nd10 => "nd10"
    | .nd20 => "nd20"

inductive Diffuser
  | ir
  | visible
deriving DecidableEq

instance : Named Diffuser where
  values := [.ir, .visible]
  name
    | .ir => "ir"
    | .visible => "visible"

inductive Shutter
  | opened
  | closed
deriving DecidableEq

instance : Named Shutter where
  values := [.opened, .closed]
  name
    | .opened => "open"
    | .closed => "closed"

/-- The calibration unit's setting for a lamp exposure. -/
structure Config where
  lamp : Lamp
  filter : Filter
  diffuser : Diffuser
  shutter : Shutter
deriving DecidableEq

end Gcal

/-- What the telescope does during a step. -/
inductive StepConfig
  | bias
  | dark
  | gcal (config : Gcal.Config)
  | science (offset : Offset) (guiding : Guiding)
deriving DecidableEq

def StepConfig.onSky (offset : Offset) : StepConfig := .science offset .enabled

/-- Where the telescope points during an exposure on the sky. -/
def StepConfig.offset? : StepConfig → Option Offset
  | .science offset _ => some offset
  | .bias | .dark | .gcal _ => none

/-! ## The instrument's half -/

inductive Instrument
  | gmosNorth
  | gmosSouth
  | flamingos2
deriving DecidableEq

instance : Named Instrument where
  values := [.gmosNorth, .gmosSouth, .flamingos2]
  name
    | .gmosNorth => "gmos_north"
    | .gmosSouth => "gmos_south"
    | .flamingos2 => "flamingos2"

def Instrument.text : Instrument → String
  | .gmosNorth => "GMOS-N"
  | .gmosSouth => "GMOS-S"
  | .flamingos2 => "Flamingos 2"

/-- What the instrument does during a step. -/
inductive InstrumentConfig
  | gmosNorth (config : Gmos.Config)
  | gmosSouth (config : Gmos.Config)
  | flamingos2 (config : Flamingos.Config)
deriving DecidableEq

namespace InstrumentConfig

def instrument : InstrumentConfig → Instrument
  | .gmosNorth _ => .gmosNorth
  | .gmosSouth _ => .gmosSouth
  | .flamingos2 _ => .flamingos2

def exposure : InstrumentConfig → TimeSpan
  | .gmosNorth g | .gmosSouth g => g.exposure
  | .flamingos2 f => f.exposure

/-- The configuration with another exposure time.  The read mode of Flamingos 2 goes with it. -/
def withExposure (exposure : TimeSpan) : InstrumentConfig → InstrumentConfig
  | .gmosNorth g => .gmosNorth { g with exposure }
  | .gmosSouth g => .gmosSouth { g with exposure }
  | .flamingos2 f => .flamingos2 { f with exposure, readMode := .ofExposure exposure }

def dithered (d : Dither) : InstrumentConfig → InstrumentConfig
  | .gmosNorth g => .gmosNorth (g.dithered d)
  | .gmosSouth g => .gmosSouth (g.dithered d)
  | .flamingos2 f => .flamingos2 f

end InstrumentConfig

/-! ## Planned steps -/

/-- A planned step. -/
structure ProtoStep where
  instrumentConfig : InstrumentConfig
  stepConfig : StepConfig
  observeClass : ObserveClass
  breakpoint : Breakpoint
deriving DecidableEq

namespace ProtoStep

/-- Whether a recorded configuration executes a planned step.  Breakpoints are hints to operators
and take no part in this. -/
def Matches (s : ProtoStep) (instrumentConfig : InstrumentConfig) (stepConfig : StepConfig)
    (observeClass : ObserveClass) : Prop :=
  s.observeClass = observeClass ∧ s.stepConfig = stepConfig ∧ s.instrumentConfig = instrumentConfig

instance (s : ProtoStep) (i : InstrumentConfig) (c : StepConfig) (o : ObserveClass) :
    Decidable (s.Matches i c o) :=
  inferInstanceAs (Decidable (_ ∧ _ ∧ _))

end ProtoStep
end Observing
