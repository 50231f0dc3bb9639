import Observing.Engine

/-!
# Reports

Sequences and digests as lines of text for a reader.

* `Report.execution`     the next atoms of both sequences, step by step;
* `Report.observation`   the times of an observation;
* `Report.program`       the times of a program.
-/

namespace Observing
namespace Report

def text (lines : List String) : String :=
  String.join (lines.map (· ++ "\n"))

def label (s : String) : String := Text.padRight 12 s

/-! ## Sequences -/

def stepKind : StepConfig → String
  | .bias => "bias"
  | .dark => "dark"
  | .gcal _ => "gcal"
  | .science offset _ => "science " ++ offset.text

def stepLine (s : Step) : String :=
  "      " ++ label (Named.name s.observeClass) ++ " " ++ Text.padRight 28 (stepKind s.stepConfig)
    ++ " exp " ++ s.instrumentConfig.exposure.text ++ " s  total " ++ s.estimate.total.text ++ " s"

def atomLines (title : String) (a : Atom) : List String :=
  ("  " ++ title ++ " " ++ a.id.text ++ " " ++ a.description.getD "-" ++ " (" ++ a.total.text
    ++ " s)") :: a.steps.map stepLine

/-- A sequence and the atoms that are shown of it. -/
def sequenceLines (title : String) (g : GeneratedSequence) : List String :=
  (title ++ " [" ++ Named.name g.state ++ "]")
    :: (match g.nextAtom with
        | some a => atomLines "next  " a
        | none => ["  complete"])
    ++ g.possibleFuture.flatMap (atomLines "future")
    ++ (if g.hasMore then ["  ..."] else [])

def execution (c : ExecutionConfig) : String :=
  text ((match c.acquisition with
      | some a => sequenceLines "Acquisition" a
      | none => [])
    ++ sequenceLines "Science" c.science)

/-! ## Digests -/

def timeLine (title : String) (t : CategorizedTime) : String :=
  label title ++ " program " ++ t.program.text ++ " s  partner " ++ t.partner.text
    ++ " s  non-charged " ++ t.nonCharged.text ++ " s  total " ++ t.total.text ++ " s"

def sequenceDigestLines (title : String) (d : SequenceDigest) : List String :=
  let className :=
    match d.observeClass with
    | some c => Named.name c
    | none => "-"
  [label title ++ " " ++ toString d.atomCount ++ " atoms, class " ++ className ++ ", "
      ++ toString d.offsets.length ++ " offsets",
    timeLine "" d.timeEstimate]

def observation (d : ObservationDigest) : String :=
  let setup := d.execution.setup
  text (["Observation " ++ d.observation,
      label "Setup" ++ " full " ++ setup.full.text ++ " s, reacquisition "
        ++ setup.reacquisition.text ++ " s"]
    ++ (match d.execution.acquisition with
        | some a => sequenceDigestLines "Acquisition" a
        | none => [])
    ++ sequenceDigestLines "Science" d.execution.science
    ++ [timeLine "Charged" d.invoice.finalCharge, timeLine "Remaining" d.remaining])

def program (d : ProgramDigest) : String :=
  text ["Observations " ++ String.intercalate ", " d.observations,
    timeLine "Charged" d.finalCharge, timeLine "Remaining" d.remaining]

end Report
end Observing
