import Observing.Generation
import Observing.Proofs.Failures

/-!
# Generation as a walk

What generation looks at does not depend on the telescope: from each place in the plan it looks at one
atom and moves on to the next place.  An atom that is open is yielded, any other is passed over.

* `Generator.ahead`   the atom that is next at a place;
* `Generator.look`    the same, with the failed steps that the atom leaves behind;
* `step_at`           a turn of generation is a look;
* `Generator.Path`    looks one after another.
-/

namespace Observing

/-- A place in a plan: the planned atom that is next and the failed steps that wait. -/
structure Place where
  position : Nat
  pending : List Pending
deriving DecidableEq

/-- An atom that generation looks at. -/
structure Visit where
  key : AtomKey
  planned : ProtoAtom
deriving DecidableEq

/-- The continuation at a place, with the telescope in the given state. -/
def Place.at (s : Place) (t : TelescopeState) : Continuation := ⟨s.position, s.pending, t⟩

namespace Generator

variable {g : Generator}

/-! ## One visit -/

/-- How the atom of a visit stands. -/
def resolution (g : Generator) (v : Visit) : Resolution :=
  g.progress.resolve v.key.id v.planned.steps

/-- The atom of a visit is to be yielded. -/
def opened (g : Generator) (v : Visit) : Bool := (g.resolution v).isOpen

/-- The failed steps that the atom of a visit leaves behind. -/
def left (g : Generator) (v : Visit) : List Pending :=
  waiting v.planned.kind (g.resolution v).left

/-- The visit of the atom planned at a position. -/
def plannedVisit? (g : Generator) (position : Nat) : Option Visit :=
  (g.plan.get? position).map fun a => ⟨.planned g.observation g.sequence position, a⟩

/-- The visit of the atom that repeats a failed step. -/
def repeatVisit (g : Generator) (p : Pending) : Visit :=
  ⟨.repeated g.observation g.sequence p.redo.failedStep, redoAtom p⟩

/-- The steps of a visited atom that are to be executed. -/
def todo (g : Generator) (v : Visit) : List (StepId × ProtoStep) :=
  stepsToDo v.key.id v.planned (g.resolution v)

/-- The times of the steps of a visited atom, and the state in which they leave the telescope. -/
def estimates (g : Generator) (t : TelescopeState) (v : Visit) : List StepEstimate × TelescopeState :=
  g.costs.estimateAll t ((g.todo v).map (·.2))

/-- The steps of a visited atom, priced. -/
def stepsOf (g : Generator) (t : TelescopeState) (v : Visit) : List Step :=
  ((g.todo v).zip (g.estimates t v).1).map fun ((sid, p), estimate) => Step.ofProto sid estimate p

/-- What a visit yields. -/
def emission (g : Generator) (t : TelescopeState) (v : Visit) : Emission :=
  ⟨.ofSteps v.key.id v.planned.description v.planned.kind (g.stepsOf t v), isBegun (g.resolution v)⟩

theorem left_of_opened {v : Visit} (h : g.opened v = true) : g.left v = [] := by
  unfold opened at h
  unfold left
  cases hr : g.resolution v with
  | fresh => rfl
  | satisfied => rfl
  | inProgress _ _ => rfl
  | closedWithRedo _ =>
    rw [hr] at h
    cases h

theorem turn_at (v : Visit) (s : Place) (t : TelescopeState) :
    g.turn v.key.id v.planned (s.at t) =
      if g.opened v then .yield (g.emission t v) (s.at (g.estimates t v).2)
      else .pass (Place.at ⟨s.position, s.pending ++ g.left v⟩ t) := by
  have hres : g.progress.resolve v.key.id v.planned.steps = g.resolution v := rfl
  unfold turn emit emission stepsOf estimates todo opened left
  rw [hres]
  cases g.resolution v with
  | fresh => rfl
  | inProgress _ _ => rfl
  | satisfied => simp [Resolution.isOpen, Resolution.left, waiting, Place.at]
  | closedWithRedo _ => rfl

/-! ## Looks -/

/-- Failed steps have their turn at a position. -/
def queueTurn (g : Generator) (position : Nat) : Bool :=
  g.plan.isUnbounded || decide (g.plan.atoms.length ≤ position)

/-- The atom that is next at a place, and the place behind it.  This is a matter of the plan alone. -/
def ahead (g : Generator) (s : Place) : Option (Visit × Place) :=
  let planned := (g.plannedVisit? s.position).map fun v => (v, ⟨s.position + 1, s.pending⟩)
  match s.pending with
  | [] => planned
  | p :: rest =>
    if g.queueTurn s.position then some (g.repeatVisit p, ⟨s.position, rest⟩) else planned

/-- The atom that is looked at from a place, and the place behind it, where its failed steps wait. -/
def look (g : Generator) (s : Place) : Option (Visit × Place) :=
  (g.ahead s).map fun (v, next) => (v, ⟨next.position, next.pending ++ g.left v⟩)

/-- The planned atom at the position of a place, and the place behind it. -/
def lookPlanned (g : Generator) (s : Place) : Option (Visit × Place) :=
  (g.plannedVisit? s.position).map fun v => (v, ⟨s.position + 1, s.pending ++ g.left v⟩)

theorem look_nil (position : Nat) : g.look ⟨position, []⟩ = g.lookPlanned ⟨position, []⟩ := by
  rw [look, ahead, Option.map_map]
  rfl

theorem look_cons_of_queueTurn {position : Nat} (h : g.queueTurn position = true) (p : Pending)
    (rest : List Pending) : g.look ⟨position, p :: rest⟩ =
      some (g.repeatVisit p, ⟨position, rest ++ g.left (g.repeatVisit p)⟩) := by
  rw [look, ahead]
  dsimp only
  rw [if_pos h]
  rfl

theorem look_of_not_queueTurn {position : Nat} (h : g.queueTurn position = false)
    (pending : List Pending) :
    g.look ⟨position, pending⟩ = g.lookPlanned ⟨position, pending⟩ := by
  cases pending with
  | nil => exact look_nil position
  | cons p rest =>
    rw [look, ahead]
    dsimp only
    rw [if_neg (by simp [h]), Option.map_map]
    rfl

/-- The turn that a look comes to: its atom is yielded or passed over. -/
def turnOf (g : Generator) (t : TelescopeState) : Option (Visit × Place) → Turn
  | none => .done
  | some (v, s) => if g.opened v then .yield (g.emission t v) (s.at (g.estimates t v).2) else .pass (s.at t)

theorem turn_eq_turnOf (v : Visit) (s : Place) (t : TelescopeState) :
    g.turn v.key.id v.planned (s.at t) =
      g.turnOf t (some (v, ⟨s.position, s.pending ++ g.left v⟩)) := by
  rw [turn_at, turnOf]
  by_cases h : g.opened v = true
  · rw [if_pos h, if_pos h, left_of_opened h, List.append_nil]
  · rw [if_neg h, if_neg h]

theorem plannedTurn_at (s : Place) (t : TelescopeState) :
    g.plannedTurn (s.at t) = g.turnOf t (g.lookPlanned s) := by
  have hposition : (s.at t).position = s.position := rfl
  unfold plannedTurn lookPlanned plannedVisit?
  rw [hposition]
  cases g.plan.get? s.position with
  | none => rfl
  | some a =>
    exact turn_eq_turnOf ⟨.planned g.observation g.sequence s.position, a⟩
      ⟨s.position + 1, s.pending⟩ t

/-- A turn of generation is a look. -/
theorem step_at (s : Place) (t : TelescopeState) : g.step (s.at t) = g.turnOf t (g.look s) := by
  obtain ⟨position, pending⟩ := s
  cases pending with
  | nil =>
    rw [look_nil]
    exact plannedTurn_at ⟨position, []⟩ t
  | cons p rest =>
    show (if g.queueTurn position = true then
      g.turn (g.redoAtomId p.redo.failedStep) (redoAtom p) (Place.at ⟨position, rest⟩ t)
      else g.plannedTurn (Place.at ⟨position, p :: rest⟩ t)) = _
    by_cases hq : g.queueTurn position = true
    · rw [if_pos hq, look_cons_of_queueTurn hq]
      exact turn_eq_turnOf (g.repeatVisit p) ⟨position, rest⟩ t
    · rw [if_neg hq, look_of_not_queueTurn (by simpa using hq)]
      exact plannedTurn_at ⟨position, p :: rest⟩ t

/-! ## Paths -/

/-- Looks one after another: the visits made on the way from one place to another. -/
inductive Path (g : Generator) : Place → List Visit → Place → Prop
  | nil (s : Place) : Path g s [] s
  | cons {s s' s'' : Place} {v : Visit} {vs : List Visit} :
    g.look s = some (v, s') → Path g s' vs s'' → Path g s (v :: vs) s''

theorem Path.append {s s' s'' : Place} {us vs : List Visit} (h : g.Path s us s')
    (h' : g.Path s' vs s'') : g.Path s (us ++ vs) s'' := by
  induction h with
  | nil => exact h'
  | cons hl _ ih => exact .cons hl (ih h')

theorem Path.single {s s' : Place} {v : Visit} (h : g.look s = some (v, s')) : g.Path s [v] s' :=
  .cons h (.nil s')

theorem Path.split {s s'' : Place} {us vs : List Visit} (h : g.Path s (us ++ vs) s'') :
    ∃ s', g.Path s us s' ∧ g.Path s' vs s'' := by
  induction us generalizing s with
  | nil => exact ⟨s, .nil s, h⟩
  | cons u us ih =>
    cases h with
    | cons hl hp =>
      obtain ⟨s', h₁, h₂⟩ := ih hp
      exact ⟨s', .cons hl h₁, h₂⟩

/-- Of two paths from one place the longer goes on from the end of the shorter. -/
theorem Path.extends {s s' s'' : Place} {us vs : List Visit} (h : g.Path s us s')
    (h' : g.Path s vs s'') (hlen : us.length ≤ vs.length) :
    ∃ ws, vs = us ++ ws ∧ g.Path s' ws s'' := by
  induction h generalizing vs with
  | nil => exact ⟨vs, rfl, h'⟩
  | cons hl _ ih =>
    cases h' with
    | nil => cases hlen
    | cons hl' hp' =>
      rw [hl] at hl'
      cases hl'
      obtain ⟨ws, hws, hp⟩ := ih hp' (Nat.le_of_succ_le_succ hlen)
      exact ⟨ws, by rw [hws, List.cons_append], hp⟩

end Generator
end Observing
