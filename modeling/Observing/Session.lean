import Observing.Engine

/-!
# Sessions

An observation that is worked on: atoms are executed and recorded, records are judged and amended,
and what was asked for is changed.

* `Run`             steps of the next atom that are executed and recorded;
* `History.record`  the history after an atom was recorded;
* `Session.Op`      one thing that is done to an observation;
* `Session.apply`   the observation afterwards, and what went wrong.

Main statement: recording executed steps adds them behind all others (`executedRecords_record`).
-/

namespace Observing

/-! ## Recording -/

namespace AtomRecord

/-- Two records are of the same atom in the same visit. -/
def continues (a b : AtomRecord) : Bool :=
  a.id = b.id && a.visitId = b.visitId && a.sequenceType = b.sequenceType

end AtomRecord

namespace History

/-- Atoms behind which an atom is recorded: the last of them goes on when it is the same. -/
def recordIn (a : AtomRecord) : List AtomRecord → List AtomRecord
  | [] => [a]
  | [last] => if last.continues a then [{ last with steps := last.steps ++ a.steps }] else [last, a]
  | first :: rest => first :: recordIn a rest

/-- The history after an atom was recorded. -/
def record (h : History) (a : AtomRecord) : History := ⟨recordIn a h.atoms⟩

/-- The history with one step record changed, if it is there. -/
def amend? (h : History) (atom step : Nat) (change : StepRecord → StepRecord) : Option History :=
  match h.atoms[atom]? with
  | none => none
  | some a =>
    match a.steps[step]? with
    | none => none
    | some s => some ⟨h.atoms.set atom { a with steps := a.steps.set step (change s) }⟩

/-- The steps that produced data, in recording order. -/
def executedRecords (h : History) : List StepRecord := h.executedSteps.map (·.2)

theorem executedRecords_eq (h : History) :
    h.executedRecords = h.atoms.flatMap fun a => a.steps.filter (·.isExecuted) := by
  simp [executedRecords, executedSteps, List.map_flatMap, Function.comp_def]

theorem executedRecords_record (h : History) (a : AtomRecord) :
    (h.record a).executedRecords = h.executedRecords ++ a.steps.filter (·.isExecuted) := by
  simp only [executedRecords_eq, record]
  induction h.atoms with
  | nil => simp [recordIn]
  | cons b rest ih =>
    cases rest with
    | nil =>
      unfold recordIn
      split <;> simp
    | cons c rest =>
      rw [recordIn, List.flatMap_cons, ih]
      · simp
      · simp

end History

/-! ## Operations -/

/-- How steps of the next atom of a sequence are executed. -/
structure Run where
  sequence : SequenceType
  visit : String
  /-- The steps that are executed, by their index in the atom; all where none are named. -/
  pick : Option (List Nat)
  events : List StepEvent
  /-- The verdicts on the datasets, in the order in which steps are executed. -/
  verdicts : List (Option QaState)
  /-- The class under which steps are recorded, if it is not their own. -/
  observeClass : Option ObserveClass
  /-- How many atoms are executed in this way. -/
  times : Nat

namespace Run

/-- The steps of an atom that are executed, in their order. -/
def kept (r : Run) (steps : List Step) : List Step :=
  match r.pick with
  | none => steps
  | some indices => indices.filterMap fun i => steps[i]?

/-- The record of an executed step. -/
def stepRecord (r : Run) (s : Step) (k : Nat) : StepRecord where
  id := s.id
  instrumentConfig := s.instrumentConfig
  stepConfig := s.stepConfig
  observeClass := r.observeClass.getD s.observeClass
  events := r.events
  datasets := [⟨"d", (r.verdicts[k]?).join⟩]

/-- The record of an executed atom. -/
def atomRecord (r : Run) (a : Atom) : AtomRecord where
  id := a.id
  visitId := r.visit
  sequenceType := r.sequence
  steps := (r.kept a.steps).zipIdx.map fun (s, k) => r.stepRecord s k

end Run

namespace Session

/-- One thing that is done to an observation. -/
inductive Op
  | run (run : Run)
  | setVerdict (atom step : Nat) (verdict : Option QaState)
  | addEvent (atom step : Nat) (event : StepEvent)
  | addDataset (atom step : Nat) (dataset : DatasetRecord)
  | correct (correction : TimeCorrection)
  | setMode (mode : Option ObservingMode)
  | setIntegration (times : Option IntegrationTimes)
  | setRole (role : Option CalibrationRole)
  | look

/-- What goes wrong. -/
inductive Problem
  | refused (refusal : Refusal)
  | noNextAtom
  | noSuchRecord
deriving DecidableEq

/-- The next atom is executed `times` times.  What was recorded before something went wrong stays. -/
def runAtoms (e : Engine) (r : Run) : (times : Nat) → Observation → Observation × Option Problem
  | 0, o => (o, none)
  | times + 1, o =>
    match e.nextAtom o (.ofObservation o) r.sequence with
    | .error refusal => (o, some (.refused refusal))
    | .ok none => (o, some .noNextAtom)
    | .ok (some a) => runAtoms e r times { o with history := o.history.record (r.atomRecord a) }

/-- A step record is changed, if it is there. -/
def amend (o : Observation) (atom step : Nat) (change : StepRecord → StepRecord) :
    Observation × Option Problem :=
  match o.history.amend? atom step change with
  | some history => ({ o with history }, none)
  | none => (o, some .noSuchRecord)

/-- The observation after an operation, and what went wrong. -/
def apply (e : Engine) (o : Observation) : Op → Observation × Option Problem
  | .run r => runAtoms e r r.times o
  | .setVerdict atom step verdict =>
    amend o atom step fun s =>
      { s with datasets := s.datasets.map fun d => { d with qaState := verdict } }
  | .addEvent atom step event => amend o atom step fun s => { s with events := s.events ++ [event] }
  | .addDataset atom step dataset =>
    amend o atom step fun s => { s with datasets := s.datasets ++ [dataset] }
  | .correct correction => ({ o with corrections := o.corrections ++ [correction] }, none)
  | .setMode mode => ({ o with mode }, none)
  | .setIntegration integration => ({ o with integration }, none)
  | .setRole role => ({ o with role }, none)
  | .look => (o, none)

end Session
end Observing
