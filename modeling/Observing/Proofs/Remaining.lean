import Observing.Proofs.Recording
import Observing.Proofs.Waves

/-!
# What remains of a plan

The atoms that remain of a plan with an end, said without a queue: first the planned atoms that are
open, then one atom of one step for each failed step that a closed atom left behind, unless a
repetition of it succeeded.

* `Atom.due`               an atom without its price;
* `Generator.duePlanned`   the open planned atoms, in plan order;
* `Generator.chain?`       the failures of a step and of its repetitions, one after another;
* `Generator.dueRepeated`  the repetitions that are due, those of shorter chains first;
* `remaining_eq`           these are the atoms that remain, and no others.
-/

namespace Observing

/-- An atom that is due: what it is, and its steps with their identities. -/
structure Due where
  id : AtomId
  description : Option String
  kind : AtomKind
  steps : List (StepId × ProtoStep)
deriving DecidableEq

/-- What a step is, without its price. -/
def Step.proto (x : Step) : ProtoStep :=
  ⟨x.instrumentConfig, x.stepConfig, x.observeClass, x.breakpoint⟩

/-- What an atom is, without its price. -/
def Atom.due (a : Atom) : Due :=
  ⟨a.id, a.description, a.kind, a.steps.map fun x => (x.id, x.proto)⟩

theorem Atom.due_ofSteps {id : AtomId} {description : Option String} {kind : AtomKind}
    {todo : List (StepId × ProtoStep)} {estimates : List StepEstimate}
    (h : todo.length ≤ estimates.length) :
    (ofSteps id description kind ((todo.zip estimates).map fun ((sid, p), estimate) =>
      Step.ofProto sid estimate p)).due = ⟨id, description, kind, todo⟩ := by
  refine congrArg (Due.mk id description kind) ?_
  show (List.map _ (todo.zip estimates)).map _ = todo
  rw [List.map_map]
  exact List.map_fst_zip h

/-- Atoms that are executed one after another, each priced behind the one before it. -/
def CostModel.atoms (m : CostModel) : TelescopeState → List Due → List Atom
  | _, [] => []
  | t, d :: ds =>
    let (estimates, next) := m.estimateAll t (d.steps.map (·.2))
    let steps := (d.steps.zip estimates).map fun ((sid, p), estimate) => Step.ofProto sid estimate p
    .ofSteps d.id d.description d.kind steps :: m.atoms next ds

/-- At whatever price, the atoms are those that are due. -/
theorem CostModel.map_due_atoms (m : CostModel) (t : TelescopeState) (ds : List Due) :
    (m.atoms t ds).map Atom.due = ds := by
  induction ds generalizing t with
  | nil => rfl
  | cons d ds ih =>
    have hlen : d.steps.length ≤ (m.estimateAll t (d.steps.map (·.2))).1.length := by
      rw [length_estimateAll, List.length_map]
    rw [atoms, List.map_cons, Atom.due_ofSteps hlen]
    exact congrArg _ (ih _)

namespace Generator

variable {g : Generator}

/-! ## Planned atoms -/

/-- The atom planned at a position, as far as it is open: all its steps if it was never recorded,
those not met yet and behind them the repetitions if it was begun. -/
def duePlanned? (g : Generator) (a : ProtoAtom) (position : Nat) : Option Due :=
  let id := g.atomId position
  match g.progress.resolve id a.steps with
  | .fresh =>
    some ⟨id, a.description, a.kind, a.steps.zipIdx.map fun (p, i) => ((StepKey.planned id i).id, p)⟩
  | .inProgress unmet redo =>
    some ⟨id, a.description, a.kind,
      (unmet.map fun (i, p) => ((StepKey.planned id i).id, p))
        ++ redo.map fun r => ((StepKey.repeated id r.failedStep).id, r.step)⟩
  | .satisfied | .closedWithRedo _ => none

/-- The open planned atoms, in plan order. -/
def duePlanned (g : Generator) : List Due :=
  g.plan.atoms.zipIdx.filterMap fun (a, position) => g.duePlanned? a position

/-! ## Chains of repetitions -/

/-- The failed steps that closed planned atoms leave behind, in plan order, those of one atom in
recording order. -/
def leftBehind (g : Generator) : List Pending :=
  g.plan.atoms.zipIdx.flatMap fun (a, position) =>
    match g.progress.resolve (g.atomId position) a.steps with
    | .closedWithRedo redo => redo.map fun r => ⟨r, a.kind⟩
    | .fresh | .satisfied | .inProgress _ _ => []

/-- The failure with which the atom that repeats a failed step is closed, if it is. -/
def nextFailure? (g : Generator) (step : ProtoStep) (failed : StepId) : Option StepId :=
  match g.progress.resolve (g.redoAtomId failed) [step] with
  | .closedWithRedo [r] => some r.failedStep
  | .closedWithRedo _ | .fresh | .satisfied | .inProgress _ _ => none

/-- A failed step, and behind it the failures of its first `k` repetitions: the last of them. -/
def chain? (g : Generator) (p : Pending) : (k : Nat) → Option StepId
  | 0 => some p.redo.failedStep
  | k + 1 => (g.chain? p k).bind (g.nextFailure? p.redo.step)

/-- The atom that repeats a failed step after `k` failed repetitions of it, as far as it is open. -/
def dueRepeat? (g : Generator) (k : Nat) (p : Pending) : Option Due :=
  (g.chain? p k).bind fun failed =>
    let id := g.redoAtomId failed
    match g.progress.resolve id [p.redo.step] with
    | .fresh | .inProgress _ _ =>
      some ⟨id, some "Repeat failed step", p.kind, [((StepKey.planned id 0).id, p.redo.step)]⟩
    | .satisfied | .closedWithRedo _ => none

/-- The open repetitions: those of shorter chains first, then in the order of the failed steps that
closed planned atoms leave behind. -/
def dueRepeated (g : Generator) : List Due :=
  (List.range g.progress.executedCount).flatMap fun k => g.leftBehind.filterMap (g.dueRepeat? k)

/-! ## The atom of a visit -/

/-- What a visit yields, without its price. -/
def due (g : Generator) (v : Visit) : Due :=
  ⟨v.key.id, v.planned.description, v.planned.kind, g.todo v⟩

theorem map_atom_price (t : TelescopeState) (vs : List Visit) :
    (g.price t vs).map (·.atom) = g.costs.atoms t (vs.map g.due) := by
  induction vs generalizing t with
  | nil => rfl
  | cons v vs ih =>
    rw [price, List.map_cons, ih, List.map_cons]
    rfl

/-- The visited atom, if it is open. -/
def dueOf? (g : Generator) (v : Visit) : Option Due :=
  if g.opened v then some (g.due v) else none

theorem map_due_filter (vs : List Visit) :
    (vs.filter g.opened).map g.due = vs.filterMap g.dueOf? := by
  rw [← List.filterMap_eq_map, List.filterMap_filter]
  rfl

theorem dueOf?_planned (a : ProtoAtom) (i : Nat) :
    g.dueOf? ⟨.planned g.observation g.sequence i, a⟩ = g.duePlanned? a i := by
  show (if (g.progress.resolve (g.atomId i) a.steps).isOpen = true then
    some (⟨g.atomId i, a.description, a.kind,
      stepsToDo (g.atomId i) a (g.progress.resolve (g.atomId i) a.steps)⟩ : Due) else none) = _
  simp only [duePlanned?]
  cases g.progress.resolve (g.atomId i) a.steps with
  | fresh => rfl
  | satisfied => rfl
  | inProgress unmet redo => rfl
  | closedWithRedo redo => rfl

theorem filterMap_plannedVisits : g.plannedVisits.filterMap g.dueOf? = g.duePlanned := by
  rw [plannedVisits, List.filterMap_map, duePlanned]
  refine List.filterMap_congr fun x _ => ?_
  exact dueOf?_planned x.1 x.2

theorem flatMap_plannedVisits : g.plannedVisits.flatMap g.left = g.leftBehind := by
  rw [plannedVisits, List.flatMap_map, leftBehind]
  refine List.flatMap_congr fun x _ => ?_
  obtain ⟨a, i⟩ := x
  show waiting a.kind (g.progress.resolve (g.atomId i) a.steps).left = _
  dsimp only
  cases g.progress.resolve (g.atomId i) a.steps with
  | fresh => rfl
  | satisfied => rfl
  | inProgress unmet redo => rfl
  | closedWithRedo redo => rfl

/-! ## Waves are chains of one length -/

/-- What waits at the end of a chain of `k` repetitions. -/
def after? (g : Generator) (k : Nat) (p : Pending) : Option Pending :=
  (g.chain? p k).map fun failed => ⟨⟨failed, p.redo.step⟩, p.kind⟩

theorem left_repeatVisit (q : Pending) : g.left (g.repeatVisit q) =
    ((g.nextFailure? q.redo.step q.redo.failedStep).map
      fun failed => (⟨⟨failed, q.redo.step⟩, q.kind⟩ : Pending)).toList := by
  have hlen := length_left_repeat_le g q
  have hsame : ∀ p ∈ g.left (g.repeatVisit q), p.redo.step = q.redo.step :=
    fun p hp => (repeats_same hp).1
  have hleft : g.left (g.repeatVisit q) = waiting q.kind
      (g.progress.resolve (g.redoAtomId q.redo.failedStep) [q.redo.step]).left := rfl
  rw [hleft] at hlen hsame ⊢
  unfold nextFailure?
  generalize g.progress.resolve (g.redoAtomId q.redo.failedStep) [q.redo.step] = r at hlen hsame ⊢
  cases r with
  | fresh => rfl
  | satisfied => rfl
  | inProgress unmet redo => rfl
  | closedWithRedo redo =>
    match redo with
    | [] => rfl
    | [r] =>
      have hstep : r.step = q.redo.step := hsame ⟨r, q.kind⟩ (List.mem_singleton_self _)
      show [(⟨r, q.kind⟩ : Pending)] = [⟨⟨r.failedStep, q.redo.step⟩, q.kind⟩]
      rw [← hstep]
    | r :: s :: rest => exact absurd (Nat.le_of_succ_le_succ hlen) (Nat.not_succ_le_zero _)

theorem repeats_after (k : Nat) (q : List Pending) :
    g.repeats (q.filterMap (g.after? k)) = q.filterMap (g.after? (k + 1)) := by
  rw [repeats, List.filterMap_eq_flatMap_toList, List.filterMap_eq_flatMap_toList,
    List.flatMap_assoc]
  refine List.flatMap_congr fun p _ => ?_
  unfold after?
  rw [chain?]
  cases g.chain? p k with
  | none => rfl
  | some failed =>
    show (g.left _ ++ []) = _
    rw [List.append_nil, left_repeatVisit]
    rfl

/-- The `k`-th wave waits at the end of chains of `k` repetitions. -/
theorem iterate_repeats (k : Nat) (q : List Pending) :
    g.repeats^[k] q = q.filterMap (g.after? k) := by
  induction k with
  | zero =>
    have hafter : g.after? 0 = some := funext fun p => rfl
    rw [hafter, List.filterMap_some]
    rfl
  | succ k ih => rw [Function.iterate_succ_apply', ih, repeats_after]

theorem waves_eq_flatMap (k : Nat) (q : List Pending) :
    g.waves k q = (List.range k).flatMap fun i => g.repeats^[i] q := by
  induction k generalizing q with
  | zero => rfl
  | succ k ih =>
    rw [waves, ih, List.range_succ_eq_map, List.flatMap_cons, List.flatMap_map]
    rfl

theorem dueOf?_repeatVisit (p : Pending) : g.dueOf? (g.repeatVisit p) =
    match g.progress.resolve (g.redoAtomId p.redo.failedStep) [p.redo.step] with
    | .fresh | .inProgress _ _ =>
      some ⟨g.redoAtomId p.redo.failedStep, some "Repeat failed step", p.kind,
        [((StepKey.planned (g.redoAtomId p.redo.failedStep) 0).id, p.redo.step)]⟩
    | .satisfied | .closedWithRedo _ => none := by
  show (if (g.progress.resolve (g.redoAtomId p.redo.failedStep) [p.redo.step]).isOpen = true then
    some (⟨g.redoAtomId p.redo.failedStep, some "Repeat failed step", p.kind,
      stepsToDo (g.redoAtomId p.redo.failedStep) (redoAtom p)
        (g.progress.resolve (g.redoAtomId p.redo.failedStep) [p.redo.step])⟩ : Due) else none) = _
  cases h : g.progress.resolve (g.redoAtomId p.redo.failedStep) [p.redo.step] with
  | fresh => rfl
  | satisfied => rfl
  | inProgress unmet redo =>
    obtain ⟨rfl, rfl⟩ := Progress.inProgress_singleton h
    rfl
  | closedWithRedo redo => rfl

theorem filterMap_waves (k : Nat) (q : List Pending) :
    ((g.waves k q).map g.repeatVisit).filterMap g.dueOf? =
      (List.range k).flatMap fun i => q.filterMap (g.dueRepeat? i) := by
  rw [List.filterMap_map, waves_eq_flatMap, List.filterMap_flatMap]
  refine List.flatMap_congr fun i _ => ?_
  rw [iterate_repeats, List.filterMap_filterMap]
  refine List.filterMap_congr fun p _ => ?_
  unfold after? dueRepeat?
  cases g.chain? p i with
  | none => rfl
  | some failed => exact dueOf?_repeatVisit ⟨⟨failed, p.redo.step⟩, p.kind⟩

/-! ## All that remains -/

theorem awaits_of_mem_leftBehind (hend : g.plan.onward = none) {p : Pending}
    (hp : p ∈ g.leftBehind) : g.Awaits g.plan.atoms.length [] p := by
  rw [← flatMap_plannedVisits] at hp
  have hdrop : p ∈ (g.plannedVisits.drop 0).flatMap g.left := hp
  exact mem_flatMap_left hend hdrop

theorem chain_ends (hend : g.plan.onward = none) (hs : g.Sound g.plan.atoms.length) {p : Pending}
    (hp : p ∈ g.leftBehind) : ∃ k < g.progress.executedCount, ∃ failed,
      g.chain? p k = some failed ∧ g.nextFailure? p.redo.step failed = none := by
  have hfirst : ∀ n, g.chain? p n = none → ∃ k < n, ∃ failed,
      g.chain? p k = some failed ∧ g.nextFailure? p.redo.step failed = none := by
    intro n
    induction n with
    | zero => intro h; cases h
    | succ n ih =>
      intro h
      cases hn : g.chain? p n with
      | none =>
        obtain ⟨k, hk, hfailed⟩ := ih hn
        exact ⟨k, Nat.lt_succ_of_lt hk, hfailed⟩
      | some failed =>
        rw [chain?, hn] at h
        exact ⟨n, Nat.lt_succ_self n, failed, hn, h⟩
  refine hfirst _ ?_
  have hnil := iterate_repeats_eq_nil hs fun q hq => ⟨[], awaits_of_mem_leftBehind hend hq⟩
  rw [iterate_repeats, List.filterMap_eq_nil_iff] at hnil
  exact Option.map_eq_none_iff.1 (hnil p hp)

theorem recorded_of_mem_leftBehind {h : History} {sequence : SequenceType} {scope : VisitScope}
    (hprogress : g.progress = .ofHistory h sequence scope) {p : Pending} (hp : p ∈ g.leftBehind) :
    ∃ x ∈ h.executedSteps, x.2.id = p.redo.failedStep ∧ x.2.hasFailedDataset = true ∧
      p.redo.step.Matches x.2.instrumentConfig x.2.stepConfig x.2.observeClass := by
  rw [← flatMap_plannedVisits] at hp
  obtain ⟨v, -, hpv⟩ := List.mem_flatMap.1 hp
  have hr := (mem_left hpv).1
  obtain ⟨es, hes, -, hleft⟩ := Progress.left_resolve hr
  have hmem : p.redo ∈ ((Tally.start v.planned.steps).takeAll es).redo := hleft ▸ hr
  rcases Tally.executed_of_mem_redo hmem with h | ⟨e, he, hfailed, hid, hmatches⟩
  · cases h
  · rw [hprogress] at hes
    obtain ⟨x, hx, rfl⟩ := Progress.recorded_of_executed? hes he
    exact ⟨x, hx, hid, hfailed, of_decide_eq_true hmatches⟩

/-- The open atoms on the whole way are those that are due. -/
theorem filterMap_way : (g.way ⟨0, []⟩).filterMap g.dueOf? = g.duePlanned ++ g.dueRepeated := by
  rw [way, List.drop_zero, List.nil_append, List.filterMap_append, flatMap_plannedVisits,
    filterMap_plannedVisits, filterMap_waves, dueRepeated]

/-- The open atoms on the whole way are yielded one after another. -/
theorem take_way (hend : g.plan.onward = none) (hs : g.Sound g.plan.atoms.length) (n : Nat)
    (t : TelescopeState) :
    (g.take n (.start t)).1 = (g.price t ((g.way ⟨0, []⟩).filter g.opened)).take n := by
  have hway := path_way hend hs (s := ⟨0, []⟩) (Nat.zero_le _)
    fun p hp => absurd hp List.not_mem_nil
  exact take_path hway (fun us r hr _ => hr.prompt hend hs) (.inl (look_end hend)) t

/-- All that is yielded remains, if generation goes on for long enough. -/
theorem remaining_of_take (hend : g.plan.onward = none) {vs : List Visit} {t : TelescopeState}
    (htake : ∀ n, (g.take n (.start t)).1 = (g.price t vs).take n)
    (hlen : vs.length ≤ g.enough (.start t)) : g.remaining t = (g.price t vs).map (·.atom) := by
  have hremaining : g.remaining t = (g.take (g.enough (.start t)) (.start t)).1.map (·.atom) := by
    simp [remaining, AtomPlan.isUnbounded, hend]
  rw [hremaining, htake, List.take_of_length_le (by rwa [length_price])]

theorem remaining_eq_price (hend : g.plan.onward = none) (hs : g.Sound g.plan.atoms.length)
    (t : TelescopeState) :
    g.remaining t = (g.price t ((g.way ⟨0, []⟩).filter g.opened)).map (·.atom) :=
  remaining_of_take hend (fun n => take_way hend hs n t)
    ((List.length_filter_le _ _).trans (length_way_lt hend ⟨0, []⟩ t).le)

theorem remaining_of_sound (hend : g.plan.onward = none) (hs : g.Sound g.plan.atoms.length)
    (t : TelescopeState) :
    g.remaining t = g.costs.atoms t (g.duePlanned ++ g.dueRepeated) := by
  rw [remaining_eq_price hend hs, map_atom_price, map_due_filter, filterMap_way]

/-- What remains of a plan with an end, for a history in which failed steps have identities of their
own: the open planned atoms, and one repetition for each failed step that a closed atom left behind,
unless one succeeded.  Steps not met yet are in plan order, failed steps in recording order, every
chain of repetitions ends, and a failed step is repeated as it was executed. -/
theorem remaining_eq (g : Generator) (h : History) (sequence : SequenceType) (scope : VisitScope)
    (t : TelescopeState) (hend : g.plan.onward = none)
    (hprogress : g.progress = .ofHistory h sequence scope) (hdistinct : h.DistinctFailures)
    (hapart : AtomKey.Apart (g.atomKeys g.plan.atoms.length)) :
    g.remaining t = g.costs.atoms t (g.duePlanned ++ g.dueRepeated) ∧
    (g.remaining t).map Atom.due = g.duePlanned ++ g.dueRepeated ∧
    (∀ a i unmet redo, (a, i) ∈ g.plan.atoms.zipIdx →
      g.progress.resolve (g.atomId i) a.steps = .inProgress unmet redo →
      unmet.Sublist (a.steps.zipIdx.map Prod.swap)) ∧
    (∀ a i redo, (a, i) ∈ g.plan.atoms.zipIdx →
      g.progress.resolve (g.atomId i) a.steps = .closedWithRedo redo →
      (redo.map (·.failedStep)).Sublist g.progress.failedIds) ∧
    (∀ p ∈ g.leftBehind, ∃ k < g.progress.executedCount, ∃ failed,
      g.chain? p k = some failed ∧ g.nextFailure? p.redo.step failed = none) ∧
    (∀ p ∈ g.leftBehind, ∃ x ∈ h.executedSteps,
      x.2.id = p.redo.failedStep ∧ x.2.hasFailedDataset = true ∧
      p.redo.step.Matches x.2.instrumentConfig x.2.stepConfig x.2.observeClass) := by
  have hs : g.Sound g.plan.atoms.length := by
    refine ⟨hapart, ?_⟩
    rw [hprogress]
    exact Progress.singleOwner_of_nodup (Progress.nodup_failedIds hdistinct sequence scope)
  have hremaining := remaining_of_sound hend hs t
  refine ⟨hremaining, ?_, ?_, ?_, ?_, ?_⟩
  · rw [hremaining, CostModel.map_due_atoms]
  · intro a i unmet redo _ hres
    exact Progress.unmet_sublist hres
  · intro a i redo _ hres
    exact Progress.redo_sublist hres
  · intro p hp
    exact chain_ends hend hs hp
  · intro p hp
    exact recorded_of_mem_leftBehind hprogress hp

/-! ## A plan with a step that failed twice -/

/-- An exposure at an offset along the slit. -/
def sampleStep (arcseconds : Int) : ProtoStep :=
  ⟨.flamingos2 ⟨.ofSeconds 30, none, .h, .medium, none⟩, .onSky (.alongSlit (.ofArcseconds arcseconds)),
    .science, .disabled⟩

/-- The record of a finished step with a dataset. -/
def sampleRecord (id : StepId) (p : ProtoStep) (verdict : QaState) : StepRecord :=
  ⟨id, p.instrumentConfig, p.stepConfig, p.observeClass, [⟨.endStep, ⟨0, 0⟩⟩],
    [⟨"dataset", some verdict⟩]⟩

/-- The first of two planned atoms was executed, its first step failed, and so did its repetition. -/
def sampleHistory : History :=
  let first := (AtomKey.planned "o" .science 0).id
  let failed := (StepKey.planned first 0).id
  let repetition := (AtomKey.repeated "o" .science failed).id
  ⟨[⟨first, "visit", .science,
      [sampleRecord failed (sampleStep 0) .fail,
        sampleRecord (StepKey.planned first 1).id (sampleStep 15) .pass]⟩,
    ⟨repetition, "visit", .science,
      [sampleRecord (StepKey.planned repetition 0).id (sampleStep 0) .fail]⟩]⟩

def sampleGenerator : Generator where
  observation := "o"
  sequence := .science
  plan := .finite [⟨none, .science, [sampleStep 0, sampleStep 15]⟩, ⟨none, .science, [sampleStep 0]⟩]
  progress := .ofHistory sampleHistory .science .allVisits
  costs := .standard

/-- The repetition of the first planned step. -/
def sampleRepetition : AtomId :=
  sampleGenerator.redoAtomId (StepKey.planned (sampleGenerator.atomId 0) 0).id

/-- The second planned atom remains, and behind it the repetition of the failed repetition, each with
the identities and the configurations of its steps. -/
theorem remaining_after_two_failures :
    sampleGenerator.remaining .initial =
      sampleGenerator.costs.atoms .initial
        (sampleGenerator.duePlanned ++ sampleGenerator.dueRepeated) ∧
    (sampleGenerator.remaining .initial).map Atom.due =
      [⟨sampleGenerator.atomId 1, none, .science,
          [((StepKey.planned (sampleGenerator.atomId 1) 0).id, sampleStep 0)]⟩,
        ⟨sampleGenerator.redoAtomId (StepKey.planned sampleRepetition 0).id,
          some "Repeat failed step", .science,
          [((StepKey.planned (sampleGenerator.redoAtomId
            (StepKey.planned sampleRepetition 0).id) 0).id, sampleStep 0)]⟩] := by
  obtain ⟨hremaining, hdue, -⟩ := remaining_eq sampleGenerator sampleHistory .science .allVisits
    .initial rfl rfl (by decide +kernel) (by decide +kernel)
  refine ⟨hremaining, ?_⟩
  rw [hdue]
  decide +kernel

end Generator
end Observing
