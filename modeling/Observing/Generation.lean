import Observing.Cost
import Observing.Progress

/-!
# Generation

The atoms of a plan that are still to be executed, one after another.  Generation is a transition on
a `Continuation`: it looks at the next planned atom, passes over what is done, and yields what is
not, together with the continuation behind it.  Failed steps of atoms that are closed wait in a
queue until all planned atoms are yielded, and are repeated in atoms of one step each.

* `AtomPlan`             planned atoms, with or without an end;
* `Generator.step`       one turn: an atom is yielded, something is passed over, or nothing is left;
* `Generator.advance`    turns until an atom is yielded;
* `Generator.window`     the next atom and a number of those behind it;
* `Generator.remaining`  all atoms of a plan with an end.

Main statement: more turns than needed change nothing (`turns_mono`).
-/

namespace Observing

/-! ## Plans -/

/-- Planned atoms, and the atom that goes on behind them where the plan has no end. -/
structure AtomPlan where
  atoms : List ProtoAtom
  onward : Option ProtoAtom
deriving DecidableEq

namespace AtomPlan

/-- The plan that ends with its last atom. -/
def finite (atoms : List ProtoAtom) : AtomPlan := ⟨atoms, none⟩

/-- The plan that goes on with the same atom for ever. -/
def repeating (atoms : List ProtoAtom) (onward : ProtoAtom) : AtomPlan := ⟨atoms, some onward⟩

/-- The atom planned at a position. -/
def get? (p : AtomPlan) (position : Nat) : Option ProtoAtom :=
  match p.atoms[position]? with
  | some a => some a
  | none => p.onward

def isUnbounded (p : AtomPlan) : Bool := p.onward.isSome

/-- The number of planned atoms, if the plan has an end. -/
def length? (p : AtomPlan) : Option Nat :=
  if p.isUnbounded then none else some p.atoms.length

def isEmpty (p : AtomPlan) : Bool := p.atoms.isEmpty && !p.isUnbounded

end AtomPlan

/-! ## Where generation stands -/

/-- Where generation stands, as it is reported. -/
inductive GeneratorState
  /-- Nothing was recorded yet. -/
  | unconsumed
  /-- The next atom was begun. -/
  | resuming
  /-- Something was recorded, and the next atom is a new one. -/
  | producing
  /-- The plan is done. -/
  | exhausted
deriving DecidableEq

instance : Named GeneratorState where
  values := [.unconsumed, .resuming, .producing, .exhausted]
  name
    | .unconsumed => "unconsumed"
    | .resuming => "resuming"
    | .producing => "producing"
    | .exhausted => "exhausted"

/-- A failed step that waits for its repetition. -/
structure Pending where
  redo : Redo
  kind : AtomKind
deriving DecidableEq

/-- Where generation goes on. -/
structure Continuation where
  position : Nat
  pending : List Pending
  telescope : TelescopeState
deriving DecidableEq

def Continuation.start (telescope : TelescopeState) : Continuation := ⟨0, [], telescope⟩

/-- A generated atom. -/
structure Emission where
  atom : Atom
  /-- The atom was begun before. -/
  resumed : Bool
deriving DecidableEq

/-- The next atom, some of those behind it, and whether there are more. -/
structure GeneratedSequence where
  nextAtom : Option Atom
  possibleFuture : List Atom
  hasMore : Bool
  state : GeneratorState
deriving DecidableEq

/-- The sequence of a plan that is done. -/
def GeneratedSequence.exhausted : GeneratedSequence := ⟨none, [], false, .exhausted⟩

/-- What one turn of generation comes to. -/
inductive Turn
  | yield (emission : Emission) (next : Continuation)
  | pass (next : Continuation)
  | done
deriving DecidableEq

/-- A plan with the progress that was made on it. -/
structure Generator where
  observation : String
  sequence : SequenceType
  plan : AtomPlan
  progress : Progress
  costs : CostModel
deriving DecidableEq

namespace Generator

/-! ## Yielding an atom -/

/-- The identity of the atom planned at a position. -/
def atomId (g : Generator) (position : Nat) : AtomId :=
  (AtomKey.planned g.observation g.sequence position).id

/-- The identity of the atom that repeats a failed step. -/
def redoAtomId (g : Generator) (failed : StepId) : AtomId :=
  (AtomKey.repeated g.observation g.sequence failed).id

/-- The atom that repeats a failed step. -/
def redoAtom (p : Pending) : ProtoAtom :=
  ⟨some "Repeat failed step", p.kind, [p.redo.step]⟩

/-- The failed steps of a closed atom, waiting. -/
def waiting (kind : AtomKind) (redo : List Redo) : List Pending :=
  redo.map fun r => ⟨r, kind⟩

/-- The steps of an atom that are to be executed, with their identities: of an atom that was begun,
those not met yet and behind them the repetitions; of any other, all. -/
def stepsToDo (id : AtomId) (planned : ProtoAtom) : Resolution → List (StepId × ProtoStep)
  | .inProgress remaining redo =>
    (remaining.map fun (i, p) => ((StepKey.planned id i).id, p))
      ++ redo.map fun r => ((StepKey.repeated id r.failedStep).id, r.step)
  | .fresh | .satisfied | .closedWithRedo _ =>
    planned.steps.zipIdx.map fun (p, i) => ((StepKey.planned id i).id, p)

def isBegun : Resolution → Bool
  | .inProgress _ _ => true
  | .fresh | .satisfied | .closedWithRedo _ => false

/-- An atom is yielded, its steps priced from the state in which the telescope is. -/
def emit (g : Generator) (id : AtomId) (planned : ProtoAtom) (resolution : Resolution)
    (next : Continuation) : Turn :=
  let todo := stepsToDo id planned resolution
  let (estimates, telescope) := g.costs.estimateAll next.telescope (todo.map (·.2))
  let steps := (todo.zip estimates).map fun ((sid, p), estimate) => Step.ofProto sid estimate p
  .yield ⟨.ofSteps id planned.description planned.kind steps, isBegun resolution⟩
    { next with telescope }

/-! ## Turns -/

/-- The turn of an atom: it is passed over when nothing is to be done on it, its failed steps join
the queue when it is closed, and it is yielded otherwise. -/
def turn (g : Generator) (id : AtomId) (planned : ProtoAtom) (next : Continuation) : Turn :=
  match g.progress.resolve id planned.steps with
  | .satisfied => .pass next
  | .closedWithRedo redo => .pass { next with pending := next.pending ++ waiting planned.kind redo }
  | .fresh => g.emit id planned .fresh next
  | .inProgress remaining redo => g.emit id planned (.inProgress remaining redo) next

/-- The queue of failed steps has its turn: the plan has no end, or its end is reached. -/
def queueFirst (g : Generator) (c : Continuation) : Bool :=
  g.plan.isUnbounded || decide (g.plan.atoms.length ≤ c.position)

/-- The turn of the planned atom at the position reached. -/
def plannedTurn (g : Generator) (c : Continuation) : Turn :=
  match g.plan.get? c.position with
  | none => .done
  | some planned => g.turn (g.atomId c.position) planned { c with position := c.position + 1 }

def step (g : Generator) (c : Continuation) : Turn :=
  match c.pending with
  | [] => g.plannedTurn c
  | p :: waiting =>
    if g.queueFirst c then
      g.turn (g.redoAtomId p.redo.failedStep) (redoAtom p) { c with pending := waiting }
    else g.plannedTurn c

/-- A search that goes on for ever.  Nothing comes of it. -/
def forever (g : Generator) (c : Continuation) : Option (Emission × Continuation) :=
  g.forever c
partial_fixpoint

/-- Turns until an atom is yielded.  A search that is not over after `n` of them goes on for ever. -/
def turns (g : Generator) : (n : Nat) → Continuation → Option (Emission × Continuation)
  | 0, c => g.forever c
  | n + 1, c =>
    match g.step c with
    | .yield e next => some (e, next)
    | .pass next => g.turns n next
    | .done => none

/-- The planned atoms that can be passed over: those up to the end of the plan, or no more than were
recorded. -/
def positionsLeft (g : Generator) (c : Continuation) : Nat :=
  if g.plan.isUnbounded then g.progress.records.length + g.plan.atoms.length + 1
  else g.plan.atoms.length - c.position

/-- A number of turns that is enough.  Every planned atom has one, and every failed step as many as
there are executed steps to repeat it.  Where its repetitions go in a circle and nothing else is open,
no number is, and the search does go on for ever. -/
def enough (g : Generator) (c : Continuation) : Nat :=
  let executed := g.progress.executedCount
  let positions := g.positionsLeft c
  positions + (c.pending.length + positions * executed) * (executed + 2) + 1

/-- The next atom behind a continuation, and the continuation behind that atom. -/
def advance (g : Generator) (c : Continuation) : Option (Emission × Continuation) :=
  g.turns (g.enough c) c

/-- At most `n` atoms behind a continuation, and the continuation behind them. -/
def take (g : Generator) : (n : Nat) → Continuation → List Emission × Continuation
  | 0, c => ([], c)
  | n + 1, c =>
    match g.advance c with
    | some (e, next) =>
      let (rest, last) := g.take n next
      (e :: rest, last)
    | none => ([], c)

/-! ## Windows -/

/-- The state to report for a first atom. -/
def reported (g : Generator) (first : Emission) : GeneratorState :=
  if first.resumed then .resuming
  else if g.progress.isEmpty then .unconsumed
  else .producing

/-- The next atom, at most `limit` of those behind it, and whether there are more. -/
def window (g : Generator) (telescope : TelescopeState) (limit : Nat) : GeneratedSequence :=
  match g.advance (.start telescope) with
  | none => .exhausted
  | some (first, c) =>
    let (future, last) := g.take limit c
    ⟨some first.atom, future.map (·.atom), (g.advance last).isSome, g.reported first⟩

/-- All atoms of a plan with an end.  Of a plan without end, as many as come before the atom that
goes on for ever, one at least. -/
def remaining (g : Generator) (telescope : TelescopeState) : List Atom :=
  let start := Continuation.start telescope
  let bound := if g.plan.isUnbounded then max g.plan.atoms.length 1 else g.enough start
  (g.take bound start).1.map (·.atom)

/-! ## More turns than needed -/

theorem forever_eq_none (g : Generator) (c : Continuation) : g.forever c = none := by
  rw [Option.eq_none_iff_forall_ne_some]
  intro r hr
  exact forever.partial_correctness g c (fun _ => False) (fun _ h => h) r hr

theorem turns_zero (g : Generator) (c : Continuation) : g.turns 0 c = none := g.forever_eq_none c

theorem turns_mono {g : Generator} {n m : Nat} {c : Continuation} {r : Emission × Continuation}
    (h : g.turns n c = some r) (hnm : n ≤ m) : g.turns m c = some r := by
  induction n generalizing m c with
  | zero =>
    rw [turns_zero] at h
    cases h
  | succ n ih =>
    obtain ⟨m, rfl⟩ : ∃ k, m = k + 1 := ⟨m - 1, by omega⟩
    unfold turns at h ⊢
    split at h
    · exact h
    · exact ih h (by omega)
    · cases h

end Generator
end Observing
