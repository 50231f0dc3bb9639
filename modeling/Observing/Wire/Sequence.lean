import Observing.Engine
import Observing.Wire.Observation

/-!
# Sequences and digests in documents
-/

namespace Observing

/-! ## Sequences -/

instance : Encode GeneratedSequence where
  encode g := object [
    ("next_atom", encode g.nextAtom),
    ("possible_future", encode g.possibleFuture),
    ("has_more", encode g.hasMore),
    ("state", encode g.state)]

instance : Decode GeneratedSequence where
  decode := Reading.record do
    let nextAtom ← .nullable "next_atom"
    let possibleFuture ← .field "possible_future"
    let hasMore ← .field "has_more"
    let state ← .field "state"
    return { nextAtom, possibleFuture, hasMore, state }

instance : Encode ExecutionConfig where
  encode c := object [("acquisition", encode c.acquisition), ("science", encode c.science)]

instance : Decode ExecutionConfig where
  decode := Reading.record do
    let acquisition ← .nullable "acquisition"
    let science ← .field "science"
    return { acquisition, science }

/-! ## Digests -/

instance : Encode SetupTime where
  encode s := object [("full", encode s.full), ("reacquisition", encode s.reacquisition)]

instance : Decode SetupTime where
  decode := Reading.record do
    let full ← .field "full"
    let reacquisition ← .field "reacquisition"
    return { full, reacquisition }

instance : Encode SequenceDigest where
  encode d := object [
    ("observe_class", encode d.observeClass),
    ("time_estimate", encode d.timeEstimate),
    ("offsets", encode d.offsets),
    ("atom_count", encode d.atomCount)]

instance : Decode SequenceDigest where
  decode := Reading.record do
    let observeClass ← .nullable "observe_class"
    let timeEstimate ← .field "time_estimate"
    let offsets ← .field "offsets"
    let atomCount ← .fieldBy decodeWord "atom_count"
    return { observeClass, timeEstimate, offsets, atomCount }

instance : Encode ExecutionDigest where
  encode d := object [
    ("setup", encode d.setup),
    ("acquisition", encode d.acquisition),
    ("science", encode d.science)]

instance : Decode ExecutionDigest where
  decode := Reading.record do
    let setup ← .field "setup"
    let acquisition ← .nullable "acquisition"
    let science ← .field "science"
    return { setup, acquisition, science }

instance : Encode Invoice where
  encode i := object [
    ("execution", encode i.execution),
    ("corrections", encode i.corrections),
    ("final_charge", encode i.finalCharge)]

instance : Decode Invoice where
  decode := Reading.record do
    let execution ← .field "execution"
    let corrections ← .field "corrections"
    let finalCharge ← .field "final_charge"
    return { execution, corrections, finalCharge }

instance : Encode ObservationDigest where
  encode d := object [
    ("observation_id", encode d.observation),
    ("execution", encode d.execution),
    ("invoice", encode d.invoice),
    ("remaining", encode d.remaining)]

instance : Decode ObservationDigest where
  decode := Reading.record do
    let observation ← .field "observation_id"
    let execution ← .field "execution"
    let invoice ← .field "invoice"
    let remaining ← .field "remaining"
    return { observation, execution, invoice, remaining }

instance : Encode ProgramDigest where
  encode d := object [
    ("observations", encode d.observations),
    ("final_charge", encode d.finalCharge),
    ("remaining", encode d.remaining)]

instance : Decode ProgramDigest where
  decode := Reading.record do
    let observations ← .field "observations"
    let finalCharge ← .field "final_charge"
    let remaining ← .field "remaining"
    return { observations, finalCharge, remaining }

/-! ## Calibrations -/

instance : Encode LampExposure where
  encode l := object [("gcal", encode l.gcal), ("exposure", encode l.exposure)]

instance : Decode LampExposure where
  decode := Reading.record do
    let gcal ← .field "gcal"
    let exposure ← .field "exposure"
    return { gcal, exposure }

instance : Encode ArcAndFlat where
  encode c := object [
    ("arc", encode c.arc),
    ("flat", encode c.flat),
    ("observe_class", encode c.observeClass)]

instance : Decode ArcAndFlat where
  decode := Reading.record do
    let arc ← .field "arc"
    let flat ← .field "flat"
    let observeClass ← .field "observe_class"
    return { arc, flat, observeClass }

instance : Encode CalibrationRules where
  encode r := object ([
      ("science_class", encode r.scienceClass),
      ("acquisition", encode r.acquisition)]
    ++ present "arcs_and_flats" r.arcsAndFlats
    ++ present "roi_override" r.region
    ++ present "read_mode_override" r.readMode)

instance : Decode CalibrationRules where
  decode := Reading.record do
    let scienceClass ← .field "science_class"
    let acquisition ← .field "acquisition"
    let arcsAndFlats ← .nullable "arcs_and_flats"
    let region ← .nullable "roi_override"
    let readMode ← .nullable "read_mode_override"
    return { scienceClass, acquisition, arcsAndFlats, region, readMode }

end Observing
