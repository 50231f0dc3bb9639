import Observing.Charge
import Observing.Wire.Step

/-!
# Records and charged time in documents
-/

namespace Observing

/-! ## Records -/

instance : Encode StepEvent where
  encode e := object [("stage", encode e.stage), ("timestamp", encode e.timestamp)]

instance : Decode StepEvent where
  decode := Reading.record do
    let stage ← .field "stage"
    let timestamp ← .field "timestamp"
    return { stage, timestamp }

instance : Encode DatasetRecord where
  encode d := object [("id", encode d.id), ("qa_state", encode d.qaState)]

instance : Decode DatasetRecord where
  decode := Reading.record do
    let id ← .field "id"
    let qaState ← .maybe "qa_state"
    return { id, qaState }

instance : Encode StepRecord where
  encode r := object [
    ("id", encode r.id),
    ("instrument_config", encode r.instrumentConfig),
    ("step_config", encode r.stepConfig),
    ("observe_class", encode r.observeClass),
    ("events", encode r.events),
    ("datasets", encode r.datasets)]

instance : Decode StepRecord where
  decode := Reading.record do
    let id ← .field "id"
    let instrumentConfig ← .field "instrument_config"
    let stepConfig ← .field "step_config"
    let observeClass ← .field "observe_class"
    let events ← .fieldOr "events" []
    let datasets ← .fieldOr "datasets" []
    return { id, instrumentConfig, stepConfig, observeClass, events, datasets }

instance : Encode AtomRecord where
  encode a := object [
    ("id", encode a.id),
    ("visit_id", encode a.visitId),
    ("sequence_type", encode a.sequenceType),
    ("steps", encode a.steps)]

instance : Decode AtomRecord where
  decode := Reading.record do
    let id ← .field "id"
    let visitId ← .field "visit_id"
    let sequenceType ← .field "sequence_type"
    let steps ← .fieldOr "steps" []
    return { id, visitId, sequenceType, steps }

instance : Encode History where
  encode h := object [("atoms", encode h.atoms)]

instance : Decode History where
  decode := Reading.record do
    let atoms ← .fieldOr "atoms" []
    return { atoms }

/-! ## Charged time -/

instance : Encode CategorizedTime where
  encode t := object [
    ("program", encode t.program),
    ("partner", encode t.partner),
    ("non_charged", encode t.nonCharged),
    ("total", encode t.total)]

instance : Decode CategorizedTime where
  decode := Reading.record do
    let program ← .fieldOr "program" 0
    let partner ← .fieldOr "partner" 0
    let nonCharged ← .fieldOr "non_charged" 0
    return { program, partner, nonCharged }

instance : Encode TimeCorrection where
  encode c := object ([
    ("visit_id", encode c.visitId),
    ("charge_class", encode c.chargeClass),
    ("op", encode c.op),
    ("amount", encode c.amount)] ++ present "comment" c.comment)

instance : Decode TimeCorrection where
  decode := Reading.record do
    let visitId ← .maybe "visit_id"
    let chargeClass ← .field "charge_class"
    let op ← .field "op"
    let amount ← .field "amount"
    let comment ← .maybe "comment"
    return { visitId, chargeClass, op, amount, comment }

end Observing
