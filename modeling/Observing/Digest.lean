import Observing.Generation
import Observing.Specification

/-!
# Digests

Times rolled up: of the atoms of a sequence, of what was executed, and of the observations of a
program.

* `SequenceDigest.ofAtoms`   the time of atoms by charge class;
* `Invoice.ofHistory`        what is charged for executed steps, with corrections;
* `ObservationDigest`, `ProgramDigest.ofDigests`   the digests of an observation and of a program.

Main statement: the digest of atoms counts each of them (`atomCount_ofAtoms`).
-/

namespace Observing

/-- The digest of a generated sequence. -/
structure SequenceDigest where
  observeClass : Option ObserveClass
  timeEstimate : CategorizedTime
  /-- The offsets on the sky, in the order in which they come up. -/
  offsets : List Offset
  atomCount : Nat
deriving DecidableEq

namespace SequenceDigest

/-- The values of a list, each where it comes up first. -/
def distinct {α : Type} [DecidableEq α] (l : List α) : List α :=
  l.foldl (fun seen a => if a ∈ seen then seen else seen ++ [a]) []

def timeOf (steps : List Step) : CategorizedTime :=
  steps.foldl (fun t s => t.add s.observeClass.charge s.estimate.total) 0

def ofAtoms (atoms : List Atom) : SequenceDigest :=
  let steps := atoms.flatMap (·.steps)
  { observeClass := ObserveClass.mostSignificant (steps.map (·.observeClass))
    timeEstimate := timeOf steps
    offsets := distinct (steps.filterMap fun s => s.stepConfig.offset?)
    atomCount := atoms.length }

theorem atomCount_ofAtoms (atoms : List Atom) : (ofAtoms atoms).atomCount = atoms.length := rfl

end SequenceDigest

/-- What is charged for an observation. -/
structure Invoice where
  /-- The time of all that was executed. -/
  execution : CategorizedTime
  corrections : List TimeCorrection
  finalCharge : CategorizedTime
deriving DecidableEq

namespace Invoice

/-- The time of executed steps by charge class, each priced behind the one before it. -/
def executionTime (m : CostModel) (h : History) : CategorizedTime :=
  let records := h.executedSteps.map (·.2)
  let estimates := (m.estimateAll .initial (records.map (·.proto))).1
  (records.zip estimates).foldl (fun t (r, e) => t.add r.observeClass.charge e.total) 0

def ofHistory (m : CostModel) (h : History) (corrections : List TimeCorrection) : Invoice :=
  let execution := executionTime m h
  ⟨execution, corrections, execution.corrected corrections⟩

end Invoice

structure ExecutionDigest where
  setup : SetupTime
  acquisition : Option SequenceDigest
  science : SequenceDigest
deriving DecidableEq

namespace ExecutionDigest

/-- The time still needed.  The setup is charged to the program as long as science remains. -/
def remaining (d : ExecutionDigest) : CategorizedTime :=
  if d.science.atomCount = 0 then d.science.timeEstimate
  else d.science.timeEstimate.add .program d.setup.full

end ExecutionDigest

structure ObservationDigest where
  observation : String
  execution : ExecutionDigest
  invoice : Invoice
  remaining : CategorizedTime
deriving DecidableEq

structure ProgramDigest where
  observations : List String
  finalCharge : CategorizedTime
  remaining : CategorizedTime
deriving DecidableEq

namespace ProgramDigest

def ofDigests (ds : List ObservationDigest) : ProgramDigest where
  observations := ds.map (·.observation)
  finalCharge := CategorizedTime.sum (ds.map (·.invoice.finalCharge))
  remaining := CategorizedTime.sum (ds.map (·.remaining))

end ProgramDigest
end Observing
