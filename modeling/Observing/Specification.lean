import Observing.Limits
import Observing.Plan.Imaging
import Observing.Plan.Nod

/-!
# Specifications

What an observation amounts to: how its target is acquired, which exposures are planned, and how they
are calibrated.

* `SciencePlan`               the three kinds of plan;
* `Specification`             all that is planned for an observation;
* `Specification.build`       the specification of an observation, or why there is none;
* `Specification.projectedAtoms`  the number of atoms that a sequence can come to.
-/

namespace Observing

/-! ## Plans -/

inductive SciencePlan
  | longSlit (plan : LongSlitPlan)
  | imaging (plan : ImagingPlan)
  | nod (plan : NodPlan)
deriving DecidableEq

namespace SciencePlan

def atomCount : SciencePlan → Nat
  | longSlit s => s.atomCount
  | imaging s => s.atomCount
  | nod s => s.cycles

def exposureCount : SciencePlan → Nat
  | longSlit s => s.exposureCount
  | imaging s => s.filters.length * s.exposureCount
  | nod s => s.cycles * s.offsets.length

/-- The number of runs of atoms that are calibrated together. -/
def groupCount : SciencePlan → Nat
  | longSlit s => s.groupCount
  | imaging s => s.groupCount
  | nod s => s.groupCount

def atoms : SciencePlan → List PlannedAtom
  | longSlit s => s.atoms
  | imaging s => s.atoms
  | nod s => s.atoms

def firstAtoms : SciencePlan → Nat → List PlannedAtom
  | longSlit s, n => s.firstAtoms n
  | imaging s, n => s.firstAtoms n
  | nod s, n => s.firstAtoms n

theorem firstAtoms_eq_take (s : SciencePlan) (n : Nat) : s.firstAtoms n = s.atoms.take n := by
  cases s with
  | longSlit s => exact s.firstAtoms_eq_take n
  | imaging s => exact s.firstAtoms_eq_take n
  | nod s => exact s.firstAtoms_eq_take n

end SciencePlan

/-- A first atom, and a step that is repeated as long as needed. -/
structure AcquisitionPlan where
  first : List ProtoStep
  onward : ProtoStep
deriving DecidableEq

namespace AcquisitionPlan

def firstAtom (a : AcquisitionPlan) : ProtoAtom :=
  ⟨some "Initial Acquisition", .acquisition, a.first⟩

def onwardAtom (a : AcquisitionPlan) : ProtoAtom :=
  ⟨some "Fine Adjustments", .acquisition, [a.onward]⟩

end AcquisitionPlan

/-- The time it takes to get at a target, for the first time and once more. -/
structure SetupTime where
  full : TimeSpan
  reacquisition : TimeSpan
deriving DecidableEq

/-- All that is planned for an observation. -/
structure Specification where
  observation : String
  instrument : Instrument
  mode : String
  setup : SetupTime
  rules : CalibrationRules
  acquisition : Option AcquisitionPlan
  science : SciencePlan
deriving DecidableEq

namespace Specification

/-- The number of atoms that a sequence can come to: those that are planned, and never less than one
for each exposure, because every exposure can be repeated in an atom of its own. -/
def projectedAtoms (s : Specification) : Nat :=
  let calibrations := if s.rules.arcsAndFlats.isSome then s.science.groupCount else 0
  max (s.science.atomCount + calibrations) s.science.exposureCount

/-- The steps that have to be executed without a break, where there are such. -/
def cycle (s : Specification) : Option (List ProtoStep) :=
  match s.science with
  | .nod plan => some plan.cycle
  | .longSlit _ | .imaging _ => none

/-- The planned atoms of the main sequence. -/
def scienceAtoms (s : Specification) : List ProtoAtom :=
  injectCalibrations s.rules.arcsAndFlats s.science.atoms

end Specification

/-! ## Building a specification -/

/-- The chosen values, unless there are none of them. -/
def chosenOr {α : Type} (chosen : Option (List α)) (standard : List α) : List α :=
  match chosen with
  | some (a :: l) => a :: l
  | some [] | none => standard

namespace Specification

/-- A configuration of the GMOS at the site of an instrument. -/
def gmosConfig (instrument : Instrument) (c : Gmos.Config) : InstrumentConfig :=
  match instrument with
  | .gmosSouth => .gmosSouth c
  | .gmosNorth | .flamingos2 => .gmosNorth c

/-- The nanometers of the standard dither: enough for 67 pixels to cover the gap between the chips,
and five at least. -/
def standardDither (g : Gmos.Grating) : Nat :=
  max 5 ((g.dispersion * 67 + 999) / 1000)

/-- The filter through which the field of a wavelength is imaged. -/
def acquisitionFilter (w : Wavelength) : Gmos.Filter :=
  let nanometers := w.picometers / 1000
  if nanometers < 540 then .gPrime
  else if nanometers < 700 then .rPrime
  else if nanometers < 850 then .iPrime
  else .zPrime

/-- An acquisition exposure at an offset. -/
def acquisitionStep (c : InstrumentConfig) (o : Offset) (b : Breakpoint) : ProtoStep :=
  ⟨c, .onSky o, .acquisition, b⟩

/-- The acquisition with GMOS: the field, the field ten arcseconds off, and the target through the
slit. -/
def gmosAcquisition (instrument : Instrument) (mode : GmosLongSlit) (exposure : TimeSpan) :
    AcquisitionPlan :=
  let filter := some (acquisitionFilter mode.centralWavelength)
  let image := gmosConfig instrument
    ⟨exposure, ⟨.two, .two, .low, .fast⟩, .ccd2, none, filter, none⟩
  let slit := gmosConfig instrument
    ⟨exposure.times 3, ⟨.one, .one, .low, .fast⟩, .centralStamp, none, filter, some mode.slit⟩
  let slitStep := acquisitionStep slit 0 .enabled
  { first :=
      [acquisitionStep image 0 .disabled,
        acquisitionStep image ⟨.ofArcseconds 10, 0⟩ .disabled, slitStep]
    onward := slitStep }

/-- The acquisition with Flamingos 2: the field, and the target through the slit. -/
def flamingosAcquisition (mode : FlamingosLongSlit) (exposure : TimeSpan) : AcquisitionPlan :=
  let image (slit : Option Flamingos.Slit) : InstrumentConfig :=
    .flamingos2 ⟨exposure, none, mode.filter, .ofExposure exposure, slit⟩
  { first :=
      [acquisitionStep (image none) 0 .disabled,
        acquisitionStep (image (some mode.slit)) 0 .enabled]
    onward := acquisitionStep (image (some mode.slit)) 0 .disabled }

def gmosLongSlitPlan (instrument : Instrument) (mode : GmosLongSlit) (times : IntegrationTimes)
    (rules : CalibrationRules) : LongSlitPlan :=
  let readout : Gmos.CcdMode :=
    { xBin := mode.choices.xBin.getD .one
      yBin := mode.choices.yBin.getD .two
      ampGain := mode.choices.ampGain.getD .low
      ampReadMode := (rules.readMode.or mode.choices.ampReadMode).getD .slow }
  let delta := Dither.ofNanometers (standardDither mode.grating)
  { template := gmosConfig instrument
      { exposure := times.science.exposureTime
        readout
        region := (rules.region.or mode.choices.region).getD .fullFrame
        grating := some ⟨mode.grating, mode.centralWavelength⟩
        filter := mode.filter
        slit := some mode.slit }
    dithers := chosenOr mode.dithers [0, delta, delta.opposite]
    offsets := Cycle.reduce (chosenOr mode.offsets [0, .ofArcseconds 15])
    exposureCount := times.science.exposureCount
    exposuresPerAtom :=
      match mode.exposuresPerAtom with
      | some (n + 1) => n + 1
      | some 0 | none => 3
    observeClass := rules.scienceClass }

def gmosImagingPlan (instrument : Instrument) (mode : GmosImaging) (times : IntegrationTimes)
    (rules : CalibrationRules) : ImagingPlan :=
  let readout : Gmos.CcdMode :=
    { xBin := mode.choices.xBin.getD .two
      yBin := mode.choices.yBin.getD .two
      ampGain := mode.choices.ampGain.getD .low
      ampReadMode := mode.choices.ampReadMode.getD .slow }
  let config (filter : Gmos.Filter) : InstrumentConfig :=
    gmosConfig instrument
      { exposure := times.science.exposureTime
        readout
        region := mode.choices.region.getD .fullFrame
        grating := none
        filter := some filter
        slit := none }
  { filters := mode.filters.map fun filter => (filter, config filter)
    offsets := chosenOr mode.offsets [0]
    exposureCount := times.science.exposureCount
    observeClass := rules.scienceClass }

/-- The plan of spectroscopy with Flamingos 2. -/
def flamingosPlan (mode : FlamingosLongSlit) (times : IntegrationTimes)
    (rules : CalibrationRules) : NodPlan :=
  let exposure := times.science.exposureTime
  let offsets := chosenOr mode.offsets ([15, -15, -15, 15].map Angle.ofArcseconds)
  { template := .flamingos2
      ⟨exposure, some mode.disperser, mode.filter, mode.readMode.getD (.ofExposure exposure),
        some mode.slit⟩
    offsets
    cycles := ceilDiv times.science.exposureCount offsets.length
    observeClass := rules.scienceClass }

/-- What a mode amounts to with the given exposure times. -/
def ofMode (observation : String) (role : Option CalibrationRole) (times : IntegrationTimes)
    (mode : ObservingMode) : Specification :=
  let exposure := times.acquisition.exposureTime
  let longSlit (instrument : Instrument) (m : GmosLongSlit) : Specification :=
    let rules := CalibrationRules.longSlit instrument role
    { observation, instrument, mode := mode.text, rules
      setup := ⟨.ofMinutes 16, .ofMinutes 5⟩
      acquisition := if rules.acquisition then some (gmosAcquisition instrument m exposure) else none
      science := .longSlit (gmosLongSlitPlan instrument m times rules) }
  let imaging (instrument : Instrument) (m : GmosImaging) : Specification :=
    let rules := CalibrationRules.imaging role
    { observation, instrument, mode := mode.text, rules
      setup := ⟨.ofMinutes 6, .ofMinutes 0⟩
      acquisition := none
      science := .imaging (gmosImagingPlan instrument m times rules) }
  match mode with
  | .gmosNorthLongSlit m => longSlit .gmosNorth m
  | .gmosSouthLongSlit m => longSlit .gmosSouth m
  | .gmosNorthImaging m => imaging .gmosNorth m
  | .gmosSouthImaging m => imaging .gmosSouth m
  | .flamingos2LongSlit m =>
    let rules := CalibrationRules.longSlit .flamingos2 role
    { observation, instrument := .flamingos2, mode := mode.text, rules
      setup := ⟨.ofMinutes 15, .ofMinutes 10⟩
      acquisition := if rules.acquisition then some (flamingosAcquisition m exposure) else none
      science := .nod (flamingosPlan m times rules) }

/-- The specification of an observation, its exposure times taken from a calculator. -/
def build (o : Observation) (calculator : Calculator) : Except Refusal.Cause Specification :=
  match o.request with
  | .error missing => .error (.configurationIncomplete missing)
  | .ok request =>
    match calculator request with
    | .error (.missing parameters) => .error (.configurationIncomplete parameters)
    | .error (.service message) => .error (.externalService message)
    | .ok times => .ok (ofMode o.id o.role times request.mode)

end Specification
end Observing
