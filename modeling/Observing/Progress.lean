import Observing.History

/-!
# Progress

How the planned atoms of a sequence stand against its history.

* `Progress`             the executed steps of every recorded atom;
* `Progress.ofHistory`   gathers them, for the visits that count;
* `Tally`                planned steps not met yet and failed steps to be repeated;
* `Progress.resolve`     how one planned atom stands.

Main statements: executed steps are counted one after another (`Tally.takeAll_append`), and an atom
that was never recorded is fresh and no other is (`resolve_eq_fresh_iff`).
-/

namespace Observing

/-- What counts about an executed step. -/
structure ExecutedStep where
  id : StepId
  instrumentConfig : InstrumentConfig
  stepConfig : StepConfig
  observeClass : ObserveClass
  failed : Bool
deriving DecidableEq

namespace ExecutedStep

def ofRecord (r : StepRecord) : ExecutedStep :=
  ⟨r.id, r.instrumentConfig, r.stepConfig, r.observeClass, r.hasFailedDataset⟩

/-- The step was executed with the configuration of a planned one. -/
def executes (e : ExecutedStep) (p : ProtoStep) : Bool :=
  p.Matches e.instrumentConfig e.stepConfig e.observeClass

end ExecutedStep

/-- A step to be repeated because its data failed. -/
structure Redo where
  failedStep : StepId
  step : ProtoStep
deriving DecidableEq

/-- How a planned atom stands. -/
inductive Resolution
  /-- It was never recorded. -/
  | fresh
  /-- Every step was executed, with data that did not fail. -/
  | satisfied
  /-- Some steps, given by their index and configuration, were not executed yet. -/
  | inProgress (remaining : List (Nat × ProtoStep)) (redo : List Redo)
  /-- Every step was executed, but some data failed. -/
  | closedWithRedo (redo : List Redo)
deriving DecidableEq

/-! ## Counting executed steps -/

/-- The planned steps not met yet, with their indices, and the steps to be repeated. -/
structure Tally where
  unmet : List (Nat × ProtoStep)
  redo : List Redo
deriving DecidableEq

namespace Tally

def start (planned : List ProtoStep) : Tally :=
  ⟨planned.zipIdx.map fun (p, i) => (i, p), []⟩

/-- The repetition of a planned step that an executed one asks for. -/
def again (e : ExecutedStep) (p : ProtoStep) : List Redo :=
  if e.failed then [⟨e.id, p⟩] else []

/-- One executed step.  It meets the first planned step of its configuration that is not met yet;
where there is none, it makes up for the first failed step of its configuration; otherwise it is
left aside.  Where its data failed, it is to be repeated in turn. -/
def take (t : Tally) (e : ExecutedStep) : Tally :=
  match t.unmet.find? (fun u => e.executes u.2) with
  | some (_, p) => ⟨t.unmet.eraseP fun u => e.executes u.2, t.redo ++ again e p⟩
  | none =>
    match t.redo.find? (fun r => e.executes r.step) with
    | some r => ⟨t.unmet, t.redo.eraseP (fun r => e.executes r.step) ++ again e r.step⟩
    | none => t

def takeAll (t : Tally) (es : List ExecutedStep) : Tally := es.foldl take t

theorem takeAll_append (t : Tally) (es fs : List ExecutedStep) :
    t.takeAll (es ++ fs) = (t.takeAll es).takeAll fs :=
  List.foldl_append ..

/-- How the atom stands after the executed steps were counted. -/
def resolution (t : Tally) : Resolution :=
  if t.unmet.isEmpty then
    if t.redo.isEmpty then .satisfied else .closedWithRedo t.redo
  else .inProgress t.unmet t.redo

end Tally

/-! ## Recorded atoms -/

/-- The executed steps of recorded atoms, one entry for each record. -/
structure Progress where
  records : List (AtomId × List ExecutedStep)
deriving DecidableEq

namespace Progress

-- Sums are those of the core library, also where an algebraic one is at hand.
attribute [local instance (high)] Zero.ofOfNat0

/-- The progress of a sequence in the visits that count. -/
def ofHistory (h : History) (sequence : SequenceType) (scope : VisitScope) : Progress :=
  ⟨(h.atomsOf sequence (scope.visit h)).map fun a =>
    (a.id, (a.steps.filter (·.isExecuted)).map .ofRecord)⟩

def isEmpty (p : Progress) : Bool := p.records.isEmpty

def atomIds (p : Progress) : List AtomId :=
  (p.records.map (·.1)).eraseDups

/-- The executed steps of an atom in recording order, if the atom was recorded. -/
def executed? (p : Progress) (id : AtomId) : Option (List ExecutedStep) :=
  match p.records.filter fun r => r.1 = id with
  | [] => none
  | r :: rs => some ((r :: rs).flatMap (·.2))

/-- The number of executed steps of all atoms. -/
def executedCount (p : Progress) : Nat :=
  (p.records.map fun r => r.2.length).sum

/-- How the atom with the given identity and planned steps stands. -/
def resolve (p : Progress) (id : AtomId) (planned : List ProtoStep) : Resolution :=
  match p.executed? id with
  | none => .fresh
  | some executed => ((Tally.start planned).takeAll executed).resolution

theorem resolve_eq_fresh_iff (p : Progress) (id : AtomId) (planned : List ProtoStep) :
    p.resolve id planned = .fresh ↔ p.executed? id = none := by
  unfold resolve
  cases p.executed? id with
  | none => simp
  | some es =>
    simp only [reduceCtorEq, iff_false]
    unfold Tally.resolution
    split
    · split <;> simp
    · simp

end Progress
end Observing
