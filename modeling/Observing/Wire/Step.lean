import Observing.Atom
import Observing.Wire.Quantity

/-!
# Steps and atoms in documents

Configurations of instruments and of the telescope, planned and generated steps and atoms.
-/

namespace Observing

/-! ## Identities -/

instance : Encode AtomId := ⟨fun i => encode i.uuid⟩

instance : Decode AtomId := ⟨fun j => (decode j).map AtomId.mk⟩

instance : Encode StepId := ⟨fun i => encode i.uuid⟩

instance : Decode StepId := ⟨fun j => (decode j).map StepId.mk⟩

/-! ## Instruments -/

instance : Encode Gmos.CcdMode where
  encode m := object [
    ("x_bin", encode m.xBin),
    ("y_bin", encode m.yBin),
    ("amp_gain", encode m.ampGain),
    ("amp_read_mode", encode m.ampReadMode)]

instance : Decode Gmos.CcdMode where
  decode := Reading.record do
    let xBin ← .field "x_bin"
    let yBin ← .field "y_bin"
    let ampGain ← .field "amp_gain"
    let ampReadMode ← .field "amp_read_mode"
    return { xBin, yBin, ampGain, ampReadMode }

instance : Encode Gmos.GratingSetting where
  encode g := object [("grating", encode g.grating), ("wavelength", encode g.wavelength)]

instance : Decode Gmos.GratingSetting where
  decode := Reading.record do
    let grating ← .field "grating"
    let wavelength ← .field "wavelength"
    return { grating, wavelength }

instance : Encode Gmos.Config where
  encode c := object [
    ("exposure", encode c.exposure),
    ("readout", encode c.readout),
    ("roi", encode c.region),
    ("grating", encode c.grating),
    ("filter", encode c.filter),
    ("fpu", encode c.slit)]

instance : Decode Gmos.Config where
  decode := Reading.record do
    let exposure ← .field "exposure"
    let readout ← .field "readout"
    let region ← .fieldOr "roi" .fullFrame
    let grating ← .maybe "grating"
    let filter ← .maybe "filter"
    let slit ← .maybe "fpu"
    return { exposure, readout, region, grating, filter, slit }

instance : Encode Flamingos.Config where
  encode c := object [
    ("exposure", encode c.exposure),
    ("disperser", encode c.disperser),
    ("filter", encode c.filter),
    ("read_mode", encode c.readMode),
    ("fpu", encode c.slit)]

instance : Decode Flamingos.Config where
  decode := Reading.record do
    let exposure ← .field "exposure"
    let disperser ← .maybe "disperser"
    let filter ← .field "filter"
    let readMode ← .field "read_mode"
    let slit ← .maybe "fpu"
    return { exposure, disperser, filter, readMode, slit }

instance : Encode InstrumentConfig where
  encode
    | .gmosNorth c => object [("gmos_north", encode c)]
    | .gmosSouth c => object [("gmos_south", encode c)]
    | .flamingos2 c => object [("flamingos2", encode c)]

instance : Decode InstrumentConfig where
  decode j :=
    match variant? j with
    | some ("gmos_north", some j) => (decode j).map .gmosNorth
    | some ("gmos_south", some j) => (decode j).map .gmosSouth
    | some ("flamingos2", some j) => (decode j).map .flamingos2
    | _ => .error .shape

/-! ## The telescope -/

instance : Encode Gcal.Config where
  encode c := object [
    ("lamp", encode c.lamp),
    ("filter", encode c.filter),
    ("diffuser", encode c.diffuser),
    ("shutter", encode c.shutter)]

instance : Decode Gcal.Config where
  decode := Reading.record do
    let lamp ← .field "lamp"
    let filter ← .field "filter"
    let diffuser ← .field "diffuser"
    let shutter ← .field "shutter"
    return { lamp, filter, diffuser, shutter }

instance : Encode StepConfig where
  encode
    | .bias => .text "bias"
    | .dark => .text "dark"
    | .gcal c => object [("gcal", encode c)]
    | .science offset guiding =>
      object [("science", object [("offset", encode offset), ("guiding", encode guiding)])]

/-- The telescope's half of an exposure on the sky. -/
def decodeOnSky : Json → Decoded StepConfig :=
  Reading.record do
    let offset ← .field "offset"
    let guiding ← .fieldOr "guiding" .enabled
    return .science offset guiding

instance : Decode StepConfig where
  decode j :=
    match variant? j with
    | some ("bias", none) | some ("bias", some .null) => .ok .bias
    | some ("dark", none) | some ("dark", some .null) => .ok .dark
    | some ("gcal", some j) => (decode j).map .gcal
    | some ("science", some j) => decodeOnSky j
    | _ => .error .shape

/-! ## Planned steps and atoms -/

instance : Encode ProtoStep where
  encode s := object [
    ("instrument_config", encode s.instrumentConfig),
    ("step_config", encode s.stepConfig),
    ("observe_class", encode s.observeClass),
    ("breakpoint", encode s.breakpoint)]

instance : Decode ProtoStep where
  decode := Reading.record do
    let instrumentConfig ← .field "instrument_config"
    let stepConfig ← .field "step_config"
    let observeClass ← .field "observe_class"
    let breakpoint ← .fieldOr "breakpoint" .disabled
    return { instrumentConfig, stepConfig, observeClass, breakpoint }

instance : Encode ProtoAtom where
  encode a := object (present "description" a.description ++ [
    ("kind", encode a.kind),
    ("steps", encode a.steps)])

instance : Decode ProtoAtom where
  decode := Reading.record do
    let description ← .nullable "description"
    let kind ← .field "kind"
    let steps ← .field "steps"
    return { description, kind, steps }

/-! ## Estimates -/

instance : Encode ConfigChangeItem where
  encode i := object [("name", encode i.name), ("estimate", encode i.estimate)]

instance : Decode ConfigChangeItem where
  decode := Reading.record do
    let name ← .field "name"
    let estimate ← .field "estimate"
    return { name, estimate }

instance : Encode ConfigChange where
  encode c := object [("items", encode c.items), ("estimate", encode c.estimate)]

instance : Decode ConfigChange where
  decode := Reading.record do
    let items ← .field "items"
    let estimate ← .field "estimate"
    return { items, estimate }

instance : Encode DetectorEstimate where
  encode d := object [
    ("exposure", encode d.exposure),
    ("readout", encode d.readout),
    ("write", encode d.write),
    ("total", encode d.total)]

instance : Decode DetectorEstimate where
  decode := Reading.record do
    let exposure ← .field "exposure"
    let readout ← .field "readout"
    let write ← .field "write"
    let total ← .field "total"
    return { exposure, readout, write, total }

instance : Encode StepEstimate where
  encode e := object [
    ("config_change", encode e.configChange),
    ("detector", encode e.detector),
    ("total", encode e.total)]

instance : Decode StepEstimate where
  decode := Reading.record do
    let configChange ← .field "config_change"
    let detector ← .field "detector"
    let total ← .field "total"
    return { configChange, detector, total }

/-! ## Generated steps and atoms -/

instance : Encode Step where
  encode s := object [
    ("id", encode s.id),
    ("instrument_config", encode s.instrumentConfig),
    ("step_config", encode s.stepConfig),
    ("observe_class", encode s.observeClass),
    ("breakpoint", encode s.breakpoint),
    ("estimate", encode s.estimate)]

instance : Decode Step where
  decode := Reading.record do
    let id ← .field "id"
    let instrumentConfig ← .field "instrument_config"
    let stepConfig ← .field "step_config"
    let observeClass ← .field "observe_class"
    let breakpoint ← .field "breakpoint"
    let estimate ← .field "estimate"
    return { id, instrumentConfig, stepConfig, observeClass, breakpoint, estimate }

instance : Encode Atom where
  encode a := object ([("id", encode a.id)] ++ present "description" a.description ++ [
    ("kind", encode a.kind),
    ("steps", encode a.steps),
    ("total", encode a.total)])

instance : Decode Atom where
  decode := Reading.record do
    let id ← .field "id"
    let description ← .nullable "description"
    let kind ← .field "kind"
    let steps ← .field "steps"
    let total ← .field "total"
    return { id, description, kind, steps, total }

end Observing
