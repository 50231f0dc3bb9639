import Observing.Observation
import Observing.Wire.History

/-!
# Observations in documents

An observing mode is an object that says which mode it is beside its fields, or a list that starts
with the mode.
-/

namespace Observing

/-! ## Targets -/

instance : Decode Brightness where
  decode := Reading.record do
    let band ← .field "band"
    let magnitude ← .field "magnitude"
    return { band, magnitude }

instance : Decode Target where
  decode := Reading.record do
    let name ← .field "name"
    let brightness ← .maybe "brightness"
    let radialVelocity ← .maybe "radial_velocity"
    return { name, brightness, radialVelocity }

/-! ## Observing modes -/

/-- The fields of the choices that an observer has. -/
def encodeChoices (c : GmosChoices) : List (String × Json) := [
  ("explicit_x_bin", encode c.xBin),
  ("explicit_y_bin", encode c.yBin),
  ("explicit_amp_read_mode", encode c.ampReadMode),
  ("explicit_amp_gain", encode c.ampGain),
  ("explicit_roi", encode c.region)]

def readChoices : Reading GmosChoices := do
  let xBin ← .maybe "explicit_x_bin"
  let yBin ← .maybe "explicit_y_bin"
  let ampReadMode ← .maybe "explicit_amp_read_mode"
  let ampGain ← .maybe "explicit_amp_gain"
  let region ← .maybe "explicit_roi"
  return { xBin, yBin, ampReadMode, ampGain, region }

def encodeGmosLongSlit (m : GmosLongSlit) : List (String × Json) := [
    ("grating", encode m.grating),
    ("filter", encode m.filter),
    ("fpu", encode m.slit),
    ("central_wavelength", encode m.centralWavelength)]
  ++ encodeChoices m.choices ++ [
    ("explicit_wavelength_dithers", encode m.dithers),
    ("explicit_spatial_offsets", encode m.offsets),
    ("explicit_exposures_per_atom", encode m.exposuresPerAtom)]

def readGmosLongSlit : Reading GmosLongSlit := do
  let grating ← .field "grating"
  let filter ← .maybe "filter"
  let slit ← .field "fpu"
  let centralWavelength ← .field "central_wavelength"
  let choices ← readChoices
  let dithers ← .maybe "explicit_wavelength_dithers"
  let offsets ← .maybe "explicit_spatial_offsets"
  let exposuresPerAtom ← .maybeBy decodeHalfWord "explicit_exposures_per_atom"
  return { grating, filter, slit, centralWavelength, choices, dithers, offsets, exposuresPerAtom }

def encodeGmosImaging (m : GmosImaging) : List (String × Json) :=
  [("filters", encode m.filters)] ++ encodeChoices m.choices
    ++ [("explicit_spatial_offsets", encode m.offsets)]

def readGmosImaging : Reading GmosImaging := do
  let filters ← .field "filters"
  let choices ← readChoices
  let offsets ← .maybe "explicit_spatial_offsets"
  return { filters, choices, offsets }

def encodeFlamingosLongSlit (m : FlamingosLongSlit) : List (String × Json) := [
  ("disperser", encode m.disperser),
  ("filter", encode m.filter),
  ("fpu", encode m.slit),
  ("explicit_read_mode", encode m.readMode),
  ("explicit_spatial_offsets", encode m.offsets)]

def readFlamingosLongSlit : Reading FlamingosLongSlit := do
  let disperser ← .field "disperser"
  let filter ← .field "filter"
  let slit ← .field "fpu"
  let readMode ← .maybe "explicit_read_mode"
  let offsets ← .maybe "explicit_spatial_offsets"
  return { disperser, filter, slit, readMode, offsets }

instance : Encode ObservingMode where
  encode m := object (("mode", .text m.text) ::
    match m with
    | .gmosNorthLongSlit m | .gmosSouthLongSlit m => encodeGmosLongSlit m
    | .gmosNorthImaging m | .gmosSouthImaging m => encodeGmosImaging m
    | .flamingos2LongSlit m => encodeFlamingosLongSlit m)

def readMode (name : String) : Reading ObservingMode :=
  match name with
  | "gmos_north_long_slit" => .gmosNorthLongSlit <$> readGmosLongSlit
  | "gmos_south_long_slit" => .gmosSouthLongSlit <$> readGmosLongSlit
  | "gmos_north_imaging" => .gmosNorthImaging <$> readGmosImaging
  | "gmos_south_imaging" => .gmosSouthImaging <$> readGmosImaging
  | "flamingos2_long_slit" => .flamingos2LongSlit <$> readFlamingosLongSlit
  | _ => throw .shape

instance : Decode ObservingMode where
  decode := Reading.whole do readMode (← .field "mode")

/-! ## Observations -/

instance : Decode IntegrationTime where
  decode := Reading.record do
    let exposureTime ← .field "exposure_time"
    let exposureCount ← .fieldBy decodeHalfWord "exposure_count"
    let _ : Option Rat ← .maybe "signal_to_noise"
    return { exposureTime, exposureCount }

instance : Decode IntegrationTimes where
  decode := Reading.record do
    let acquisition ← .field "acquisition"
    let science ← .field "science"
    return { acquisition, science }

instance : Decode Observation where
  decode := Reading.record do
    let id ← .field "observation_id"
    let _ : Option String ← .maybe "program_id"
    let target ← .maybe "target"
    let mode ← .maybe "observing_mode"
    let role ← .maybe "calibration_role"
    let integration ← .maybe "itc"
    let history ← .fieldOr "history" default
    let corrections ← .fieldOr "corrections" []
    return { id, target, mode, role, integration, history, corrections }

end Observing
