import Observing.Digest

/-!
# The engine

Everything that is asked about an observation, as a function of the observation alone.

* `Engine.specification`  the specification within the limits, or a refusal;
* `Engine.generate`       the next atoms of both sequences;
* `Engine.nextAtom`       the next atom of one sequence;
* `Engine.digest`, `Engine.programDigest`   the times of an observation and of a program.
-/

namespace Observing

/-- The next atoms of both sequences; an observation need not have an acquisition. -/
structure ExecutionConfig where
  acquisition : Option GeneratedSequence
  science : GeneratedSequence
deriving DecidableEq

/-- The plans of both sequences. -/
structure Plans where
  acquisition : Option AtomPlan
  science : AtomPlan
deriving DecidableEq

namespace Plans

def ofSpecification (s : Specification) : Plans where
  acquisition := s.acquisition.map fun a => .repeating [a.firstAtom] a.onwardAtom
  science := .finite s.scienceAtoms

def get? (p : Plans) : SequenceType → Option AtomPlan
  | .acquisition => p.acquisition
  | .science => some p.science

end Plans

/-- Limits and costs. -/
structure Engine where
  limits : Limits
  costs : CostModel
deriving DecidableEq

namespace Engine

instance : Inhabited Engine := ⟨⟨.standard, .standard⟩⟩

/-! ## Specifications within the limits -/

/-- The time that steps take from the beginning of a night. -/
def duration (e : Engine) (steps : List ProtoStep) : TimeSpan :=
  TimeSpan.sum ((e.costs.estimateAll .initial steps).1.map (·.total))

/-- Why a specification is not accepted, if it is not. -/
def overLimit? (e : Engine) (s : Specification) : Option Refusal.Cause :=
  if e.limits.atoms < s.projectedAtoms then some (.sequenceTooLong e.limits.atoms)
  else
    match s.cycle with
    | none => none
    | some cycle =>
      let duration := e.duration cycle
      if e.limits.longestCycle < duration then
        some (.cycleTooLong duration.minutes e.limits.cycleMinutes)
      else none

/-- The specification of an observation within the limits. -/
def specification (e : Engine) (o : Observation) (calculator : Calculator) :
    Except Refusal Specification :=
  match Specification.build o calculator with
  | .error cause => .error ⟨o.id, cause⟩
  | .ok s =>
    match e.overLimit? s with
    | some cause => .error ⟨o.id, cause⟩
    | none => .ok s

/-! ## Sequences -/

/-- The generator of a sequence of an observation. -/
def generator (e : Engine) (o : Observation) (sequence : SequenceType) (plan : AtomPlan) :
    Generator where
  observation := o.id
  sequence
  plan
  progress := .ofHistory o.history sequence (.ofSequence sequence)
  costs := e.costs

/-- The state in which the telescope is for a sequence of an observation. -/
def telescope (o : Observation) (sequence : SequenceType) : TelescopeState :=
  .ofHistory o.history (.ofSequence sequence)

/-- The next atom of a sequence and at most `limit` of those behind it. -/
def generateType (e : Engine) (o : Observation) (plans : Plans) (sequence : SequenceType)
    (limit : Nat) : Option GeneratedSequence :=
  (plans.get? sequence).map fun plan =>
    (e.generator o sequence plan).window (telescope o sequence) limit

/-- The next atoms of both sequences. -/
def generate (e : Engine) (o : Observation) (calculator : Calculator) (limit : Option Nat) :
    Except Refusal ExecutionConfig := do
  let plans := Plans.ofSpecification (← e.specification o calculator)
  let limit := e.limits.future limit
  return {
    acquisition := e.generateType o plans .acquisition limit
    science := (e.generateType o plans .science limit).getD .exhausted }

/-- The next atom of a sequence, if there is one. -/
def nextAtom (e : Engine) (o : Observation) (calculator : Calculator) (sequence : SequenceType) :
    Except Refusal (Option Atom) := do
  let plans := Plans.ofSpecification (← e.specification o calculator)
  return (e.generateType o plans sequence 0).bind (·.nextAtom)

/-! ## Digests -/

/-- The digest of what remains of a plan. -/
def sequenceDigest (e : Engine) (o : Observation) (sequence : SequenceType) (plan : AtomPlan) :
    SequenceDigest :=
  .ofAtoms ((e.generator o sequence plan).remaining (telescope o sequence))

/-- What was and what is still to be charged for an observation. -/
def digest (e : Engine) (o : Observation) (calculator : Calculator) :
    Except Refusal ObservationDigest := do
  let s ← e.specification o calculator
  let plans := Plans.ofSpecification s
  let execution : ExecutionDigest :=
    { setup := s.setup
      acquisition := plans.acquisition.map (e.sequenceDigest o .acquisition)
      science := e.sequenceDigest o .science plans.science }
  return {
    observation := o.id
    execution
    invoice := .ofHistory e.costs o.history o.corrections
    remaining := execution.remaining }

/-- The digest of an observation with the exposure times it comes with. -/
def ownDigest (e : Engine) (o : Observation) : Except Refusal ObservationDigest :=
  e.digest o (.ofObservation o)

/-- The digests of observations, or the refusal of the first that has none. -/
def ownDigests (e : Engine) : List Observation → Except Refusal (List ObservationDigest)
  | [] => .ok []
  | o :: os => do
    let d ← e.ownDigest o
    let ds ← e.ownDigests os
    return d :: ds

def programDigest (e : Engine) (os : List Observation) : Except Refusal ProgramDigest := do
  return .ofDigests (← e.ownDigests os)

end Engine
end Observing
