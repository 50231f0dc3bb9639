import Observing.Atom
import Observing.Observation

/-!
# Arcs and flats

Science is calibrated by the exposure of an arc lamp and of a flat lamp, taken in front of every run
of science atoms that share a configuration.

* `CalibrationRules`      what goes with an instrument and a role;
* `PlannedAtom`           a science atom with the group and the configuration it is calibrated by;
* `injectCalibrations`    the atoms with their calibrations in between.

Main statement: without arcs and flats the atoms stay as they are (`inject_none`).
-/

namespace Observing

/-- One exposure of a lamp. -/
structure LampExposure where
  gcal : Gcal.Config
  exposure : TimeSpan
deriving DecidableEq

/-- An arc and a flat taken together. -/
structure ArcAndFlat where
  arc : LampExposure
  flat : LampExposure
  observeClass : ObserveClass
deriving DecidableEq

namespace ArcAndFlat

def gmos : ArcAndFlat where
  arc := ⟨⟨.cuAr, .none, .visible, .closed⟩, .ofSeconds 1⟩
  flat := ⟨⟨.quartzHalogen, .gmos, .visible, .opened⟩, .ofSeconds 1⟩
  observeClass := .partnerCal

def flamingos : ArcAndFlat where
  arc := ⟨⟨.ar, .none, .ir, .closed⟩, .ofSeconds 30⟩
  flat := ⟨⟨.irGreyBodyHigh, .nd20, .ir, .opened⟩, .ofSeconds 15⟩
  observeClass := .partnerCal

def ofInstrument : Instrument → ArcAndFlat
  | .gmosNorth | .gmosSouth => gmos
  | .flamingos2 => flamingos

/-- The exposure of a lamp with the configuration it calibrates. -/
def lampStep (c : ArcAndFlat) (base : InstrumentConfig) (lamp : LampExposure) : ProtoStep :=
  ⟨base.withExposure lamp.exposure, .gcal lamp.gcal, c.observeClass, .disabled⟩

def atom (c : ArcAndFlat) (base : InstrumentConfig) : ProtoAtom :=
  ⟨some "Arc and flat", .calibration, [c.lampStep base c.arc, c.lampStep base c.flat]⟩

end ArcAndFlat

/-! ## Rules -/

/-- What goes with an instrument and a role. -/
structure CalibrationRules where
  /-- The class of the exposures of the main sequence. -/
  scienceClass : ObserveClass
  /-- The target is acquired first. -/
  acquisition : Bool
  arcsAndFlats : Option ArcAndFlat
  /-- The region that is read out, whatever the observer chose. -/
  region : Option Gmos.Region
  /-- The read mode, whatever the observer chose. -/
  readMode : Option Gmos.AmpReadMode
deriving DecidableEq

namespace CalibrationRules

/-- The class of the exposures of an observation with the given role. -/
def scienceClassOf : Option CalibrationRole → ObserveClass
  | none => .science
  | some .twilight => .dayCal
  | some .spectroPhotometric => .partnerCal

/-- The rules for spectroscopy.  Observations that calibrate others are neither acquired nor
calibrated, and GMOS reads them out fast and in part. -/
def longSlit (instrument : Instrument) (role : Option CalibrationRole) : CalibrationRules :=
  match role, instrument with
  | none, _ => ⟨.science, true, some (.ofInstrument instrument), none, none⟩
  | some r, .flamingos2 => ⟨scienceClassOf (some r), false, none, none, none⟩
  | some r, .gmosNorth => ⟨scienceClassOf (some r), false, none, some .centralSpectrum, some .fast⟩
  | some r, .gmosSouth => ⟨scienceClassOf (some r), false, none, some .centralSpectrum, some .fast⟩

/-- The rules for imaging, which is neither acquired nor calibrated. -/
def imaging (role : Option CalibrationRole) : CalibrationRules :=
  ⟨scienceClassOf role, false, none, none, none⟩

end CalibrationRules

/-! ## Calibrations between science atoms -/

/-- A planned science atom.  Atoms of one group in a row share their calibrations. -/
structure PlannedAtom where
  group : Nat
  /-- The configuration that is calibrated. -/
  base : InstrumentConfig
  atom : ProtoAtom
deriving DecidableEq

/-- The atoms behind an atom of the given group, with a calibration in front of each that is of
another group than the one before it. -/
def ArcAndFlat.injectAfter (c : ArcAndFlat) :
    (previous : Option Nat) → List PlannedAtom → List ProtoAtom
  | _, [] => []
  | previous, a :: rest =>
    if previous = some a.group then a.atom :: c.injectAfter (some a.group) rest
    else c.atom a.base :: a.atom :: c.injectAfter (some a.group) rest

/-- The science atoms with their calibrations, if they have any. -/
def injectCalibrations : Option ArcAndFlat → List PlannedAtom → List ProtoAtom
  | none, science => science.map (·.atom)
  | some c, science => c.injectAfter none science

theorem inject_none (science : List PlannedAtom) :
    injectCalibrations none science = science.map (·.atom) := rfl

end Observing
