import Observing.Identity
import Observing.Step

/-!
# Atoms

An atom is a group of steps that is executed as a whole.

* `ProtoAtom`      a planned atom;
* `StepEstimate`   the time of a step, split into what it is spent on;
* `Step`, `Atom`   the same with identities and times, ready to be executed.
-/

namespace Observing

instance : Named SequenceType where
  values := [.acquisition, .science]
  name := SequenceType.text

/-- What an atom is for. -/
inductive AtomKind
  | acquisition
  | science
  | calibration
deriving DecidableEq

instance : Named AtomKind where
  values := [.acquisition, .science, .calibration]
  name
    | .acquisition => "acquisition"
    | .science => "science"
    | .calibration => "calibration"

structure ProtoAtom where
  description : Option String
  kind : AtomKind
  steps : List ProtoStep
deriving DecidableEq

/-! ## The time of a step -/

/-- One thing that has to be changed in front of a step. -/
structure ConfigChangeItem where
  name : String
  estimate : TimeSpan
deriving DecidableEq

/-- All that has to be changed in front of a step.  The changes are made at the same time, so that
the longest of them counts. -/
structure ConfigChange where
  items : List ConfigChangeItem
  estimate : TimeSpan
deriving DecidableEq

def ConfigChange.ofItems (items : List ConfigChangeItem) : ConfigChange :=
  ⟨items, (TimeSpan.longest? (items.map (·.estimate))).getD 0⟩

/-- The time the detector is busy. -/
structure DetectorEstimate where
  exposure : TimeSpan
  readout : TimeSpan
  write : TimeSpan
  total : TimeSpan
deriving DecidableEq

structure StepEstimate where
  configChange : ConfigChange
  detector : DetectorEstimate
  total : TimeSpan
deriving DecidableEq

/-! ## Generated steps and atoms -/

structure Step where
  id : StepId
  instrumentConfig : InstrumentConfig
  stepConfig : StepConfig
  observeClass : ObserveClass
  breakpoint : Breakpoint
  estimate : StepEstimate
deriving DecidableEq

/-- A planned step with its identity and its time. -/
def Step.ofProto (id : StepId) (estimate : StepEstimate) (s : ProtoStep) : Step :=
  ⟨id, s.instrumentConfig, s.stepConfig, s.observeClass, s.breakpoint, estimate⟩

structure Atom where
  id : AtomId
  description : Option String
  kind : AtomKind
  steps : List Step
  total : TimeSpan
deriving DecidableEq

namespace Atom

/-- The atom of the given steps.  Its time is the sum of theirs. -/
def ofSteps (id : AtomId) (description : Option String) (kind : AtomKind) (steps : List Step) :
    Atom :=
  ⟨id, description, kind, steps, TimeSpan.sum (steps.map (·.estimate.total))⟩

def observeClass (a : Atom) : Option ObserveClass :=
  ObserveClass.mostSignificant (a.steps.map (·.observeClass))

end Atom
end Observing
