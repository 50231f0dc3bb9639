import Observing.Atom
import Observing.Timestamp

/-!
# Recorded history

What was done for an observation: atoms in recording order, each with its steps, each step with the
events and the datasets that were reported for it.

* `ExecutionState.ofEvents`   the state that the events of a step imply;
* `History.executedSteps`     the steps that produced data, in recording order;
* `VisitScope`                which visits count for a sequence.
-/

namespace Observing

/-! ## Events -/

/-- The stages of a step that are reported. -/
inductive StepStage
  | startStep
  | endConfigure
  | startObserve
  | endObserve
  | endStep
  | abort
  | stop
deriving DecidableEq

instance : Named StepStage where
  values := [.startStep, .endConfigure, .startObserve, .endObserve, .endStep, .abort, .stop]
  name
    | .startStep => "start_step"
    | .endConfigure => "end_configure"
    | .startObserve => "start_observe"
    | .endObserve => "end_observe"
    | .endStep => "end_step"
    | .abort => "abort"
    | .stop => "stop"

structure StepEvent where
  stage : StepStage
  timestamp : Timestamp
deriving DecidableEq

inductive ExecutionState
  | notStarted
  | ongoing
  | completed
  | aborted
  | stopped
deriving DecidableEq

instance : Named ExecutionState where
  values := [.notStarted, .ongoing, .completed, .aborted, .stopped]
  name
    | .notStarted => "not_started"
    | .ongoing => "ongoing"
    | .completed => "completed"
    | .aborted => "aborted"
    | .stopped => "stopped"

/-- The state in which a stage leaves its step, if it ends the step. -/
def StepStage.terminal? : StepStage → Option ExecutionState
  | .endStep => some .completed
  | .abort => some .aborted
  | .stop => some .stopped
  | .startStep | .endConfigure | .startObserve | .endObserve => none

namespace ExecutionState

def isExecuted : ExecutionState → Bool
  | .completed | .stopped => true
  | .notStarted | .ongoing | .aborted => false

/-- The later of two ends of a step; of two at the same moment the one recorded last. -/
def later (latest : Option (Timestamp × ExecutionState)) (next : Timestamp × ExecutionState) :
    Option (Timestamp × ExecutionState) :=
  match latest with
  | some known => if known.1 ≤ next.1 then some next else some known
  | none => some next

def ends (events : List StepEvent) : List (Timestamp × ExecutionState) :=
  events.filterMap fun e => e.stage.terminal?.map fun state => (e.timestamp, state)

/-- The state that the events of a step imply: the latest end decides, in whatever order the events
were recorded. -/
def ofEvents (events : List StepEvent) : ExecutionState :=
  if events.isEmpty then .notStarted
  else
    match (ends events).foldl later none with
    | some (_, state) => state
    | none => .ongoing

end ExecutionState

/-! ## Records -/

/-- The verdict on a dataset. -/
inductive QaState
  | pass
  | usable
  | fail
deriving DecidableEq

instance : Named QaState where
  values := [.pass, .usable, .fail]
  name
    | .pass => "pass"
    | .usable => "usable"
    | .fail => "fail"

structure DatasetRecord where
  id : String
  qaState : Option QaState
deriving DecidableEq

structure StepRecord where
  id : StepId
  instrumentConfig : InstrumentConfig
  stepConfig : StepConfig
  observeClass : ObserveClass
  events : List StepEvent
  datasets : List DatasetRecord
deriving DecidableEq

namespace StepRecord

def executionState (r : StepRecord) : ExecutionState :=
  .ofEvents r.events

def isExecuted (r : StepRecord) : Bool :=
  r.executionState.isExecuted

/-- Some dataset of the step was judged a failure. -/
def hasFailedDataset (r : StepRecord) : Bool :=
  r.datasets.any fun d => d.qaState = some .fail

def proto (r : StepRecord) : ProtoStep :=
  ⟨r.instrumentConfig, r.stepConfig, r.observeClass, .disabled⟩

end StepRecord

structure AtomRecord where
  id : AtomId
  visitId : String
  sequenceType : SequenceType
  steps : List StepRecord
deriving DecidableEq

/-- All that was recorded for an observation, in recording order. -/
structure History where
  atoms : List AtomRecord
deriving DecidableEq

namespace History

instance : Inhabited History := ⟨⟨[]⟩⟩

def latestVisit (h : History) : Option String :=
  h.atoms.getLast?.map (·.visitId)

/-- A record belongs to the given visit, or to any visit where none is given. -/
def inVisit (visit : Option String) (a : AtomRecord) : Bool :=
  match visit with
  | some v => a.visitId = v
  | none => true

/-- The recorded atoms of a sequence, in one visit or in all. -/
def atomsOf (h : History) (sequence : SequenceType) (visit : Option String) : List AtomRecord :=
  h.atoms.filter fun a => a.sequenceType = sequence && inVisit visit a

/-- The executed steps of either sequence with their atoms, in recording order. -/
def executedSteps (h : History) : List (AtomRecord × StepRecord) :=
  h.atoms.flatMap fun a => (a.steps.filter (·.isExecuted)).map fun s => (a, s)

end History

/-! ## Visits -/

/-- The visits that count. -/
inductive VisitScope
  | allVisits
  | latestVisit
deriving DecidableEq

instance : Named VisitScope where
  values := [.allVisits, .latestVisit]
  name
    | .allVisits => "all_visits"
    | .latestVisit => "latest_visit"

namespace VisitScope

/-- Acquisition starts again with each visit, science goes on. -/
def ofSequence : SequenceType → VisitScope
  | .acquisition => .latestVisit
  | .science => .allVisits

/-- The one visit that counts, or none where all do. -/
def visit (scope : VisitScope) (h : History) : Option String :=
  match scope with
  | .allVisits => none
  | .latestVisit => h.latestVisit

end VisitScope
end Observing
