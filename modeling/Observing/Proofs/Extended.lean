import Observing.Engine
import Observing.Proofs.First

/-!
# Observations with one more record

What the engine makes of an observation when steps of the atom that it returned are recorded as they
were handed out.

* `StepRecord.Carries`          a step was executed as it was handed out, and its data did not fail;
* `Observation.push`            the observation with one more record;
* `Engine.generator_push`, `Engine.telescope_push`   its generator and the state of the telescope;
* `Engine.does_of_carries`, `Engine.behind_of_carries`   what the record amounts to.
-/

namespace Observing

/-- A step was executed as it was handed out, and its data did not fail. -/
structure StepRecord.Carries (r : StepRecord) (s : Step) : Prop where
  id : r.id = s.id
  instrumentConfig : r.instrumentConfig = s.instrumentConfig
  stepConfig : r.stepConfig = s.stepConfig
  observeClass : r.observeClass = s.observeClass
  executed : r.isExecuted = true
  passed : r.hasFailedDataset = false

instance (r : StepRecord) (s : Step) : Decidable (r.Carries s) :=
  decidable_of_iff (r.id = s.id ∧ r.instrumentConfig = s.instrumentConfig ∧
    r.stepConfig = s.stepConfig ∧ r.observeClass = s.observeClass ∧ r.isExecuted = true ∧
    r.hasFailedDataset = false)
    ⟨fun ⟨h₁, h₂, h₃, h₄, h₅, h₆⟩ => ⟨h₁, h₂, h₃, h₄, h₅, h₆⟩,
      fun ⟨h₁, h₂, h₃, h₄, h₅, h₆⟩ => ⟨h₁, h₂, h₃, h₄, h₅, h₆⟩⟩

/-- The observation with one more record. -/
def Observation.push (o : Observation) (r : AtomRecord) : Observation :=
  { o with history := o.history.push r }

/-! ## Steps that were carried out -/

theorem executed_of_carries {rs : List StepRecord} {ss : List Step}
    (h : List.Forall₂ StepRecord.Carries rs ss) : rs.filter (·.isExecuted) = rs := by
  induction h with
  | nil => rfl
  | cons hr _ ih => rw [List.filter_cons_of_pos hr.executed, ih]

theorem TelescopeState.behind_eq (m : CostModel) {rs : List StepRecord} {ps : List ProtoStep}
    (h : List.Forall₂ (fun r p => r.instrumentConfig = p.instrumentConfig ∧
      r.stepConfig = p.stepConfig) rs ps) (t : TelescopeState) :
    t.behind rs = (m.estimateAll t ps).2 := by
  induction h generalizing t with
  | nil => rfl
  | @cons r p rs ps hr _ ih =>
    rw [CostModel.estimateAll, ← ih, ← hr.1, ← hr.2]
    rfl

namespace Generator

variable {g : Generator} {v : Visit} {rs : List StepRecord} {k : Nat}

theorem map_id_stepsOf (t : TelescopeState) (v : Visit) :
    (g.stepsOf t v).map (·.id) = (g.todo v).map (·.1) := by
  have hlen : (g.todo v).length ≤ (g.estimates t v).1.length := by
    rw [estimates, CostModel.length_estimateAll, List.length_map]
  rw [stepsOf, List.map_map]
  show ((g.todo v).zip (g.estimates t v).1).map (Prod.fst ∘ Prod.fst) = _
  rw [← List.map_map, List.map_fst_zip hlen]

theorem carries_stepsOf {t : TelescopeState}
    (h : List.Forall₂ StepRecord.Carries rs ((g.stepsOf t v).take k)) :
    List.Forall₂ (fun r x => ExecutedStep.Does (.ofRecord r) x.2 ∧
      r.instrumentConfig = x.2.instrumentConfig ∧ r.stepConfig = x.2.stepConfig)
      rs ((g.todo v).take k) := by
  have hlen : (g.todo v).length ≤ (g.estimates t v).1.length := by
    rw [estimates, CostModel.length_estimateAll, List.length_map]
  have htodo : (g.todo v).take k = (((g.todo v).zip (g.estimates t v).1).take k).map Prod.fst := by
    rw [List.map_take, List.map_fst_zip hlen]
  rw [stepsOf, ← List.map_take, List.forall₂_map_right_iff] at h
  rw [htodo, List.forall₂_map_right_iff]
  refine h.imp fun r x hr => ⟨⟨?_, hr.passed⟩, hr.instrumentConfig, hr.stepConfig⟩
  rw [ExecutedStep.executes, decide_eq_true_eq]
  exact ⟨hr.observeClass.symm, hr.stepConfig.symm, hr.instrumentConfig.symm⟩

theorem does_of_carries {t : TelescopeState}
    (h : List.Forall₂ StepRecord.Carries rs ((g.stepsOf t v).take k)) :
    List.Forall₂ (fun e x => ExecutedStep.Does e x.2) (rs.map .ofRecord) ((g.todo v).take k) := by
  rw [List.forall₂_map_left_iff]
  exact (carries_stepsOf h).imp fun r x hr => hr.1

theorem behind_of_carries {t : TelescopeState}
    (h : List.Forall₂ StepRecord.Carries rs ((g.stepsOf t v).take k)) :
    t.behind rs = (g.costs.estimateAll t (((g.todo v).take k).map (·.2))).2 := by
  refine TelescopeState.behind_eq g.costs ?_ t
  rw [List.forall₂_map_right_iff]
  exact (carries_stepsOf h).imp fun r x hr => hr.2

theorem take_length_stepsOf (t : TelescopeState) (v : Visit) :
    (g.todo v).take (g.stepsOf t v).length = g.todo v := by
  have hlen := congrArg List.length (map_id_stepsOf (g := g) t v)
  rw [List.length_map, List.length_map] at hlen
  rw [hlen, List.take_length]

theorem does_of_carries_all {t : TelescopeState}
    (h : List.Forall₂ StepRecord.Carries rs (g.stepsOf t v)) :
    List.Forall₂ (fun e x => ExecutedStep.Does e x.2) (rs.map .ofRecord) (g.todo v) ∧
      t.behind rs = (g.estimates t v).2 := by
  rw [← List.take_length (l := g.stepsOf t v)] at h
  have hdoes := does_of_carries h
  have hbehind := behind_of_carries h
  rw [take_length_stepsOf] at hdoes hbehind
  exact ⟨hdoes, hbehind⟩

end Generator

/-! ## The engine -/

namespace Engine

/-- The places of the atoms that arise for a sequence of an observation, up to more than `m` open
ones. -/
def atomKeys (e : Engine) (o : Observation) (s : Specification) (sequence : SequenceType) (m : Nat) :
    List AtomKey :=
  match (Plans.ofSpecification s).get? sequence with
  | none => []
  | some plan => (e.generator o sequence plan).atomKeys ((e.generator o sequence plan).reach m)

variable {e : Engine} {o : Observation} {sequence : SequenceType} {plan : AtomPlan}

theorem generator_push {id : AtomId} {visit : String} {rs : List StepRecord}
    (hr : AtomRecord.Counts ⟨id, visit, sequence, rs⟩ o.history (.ofSequence sequence))
    (hrs : rs.filter (·.isExecuted) = rs) :
    e.generator (o.push ⟨id, visit, sequence, rs⟩) sequence plan =
      (e.generator o sequence plan).recorded id (rs.map .ofRecord) := by
  have hrecords := Progress.records_push hr
  have hprogress : Progress.ofHistory (o.history.push ⟨id, visit, sequence, rs⟩) sequence
      (.ofSequence sequence) = ⟨(Progress.ofHistory o.history sequence (.ofSequence sequence)).records ++
        [(id, rs.map .ofRecord)]⟩ := by
    rw [Progress.entry, hrs] at hrecords
    exact congrArg Progress.mk hrecords
  unfold generator Generator.recorded Observation.push
  dsimp only
  rw [hprogress]

theorem telescope_push {id : AtomId} {visit : String} {rs : List StepRecord}
    (hr : AtomRecord.Counts ⟨id, visit, sequence, rs⟩ o.history (.ofSequence sequence))
    (hrs : rs.filter (·.isExecuted) = rs) :
    telescope (o.push ⟨id, visit, sequence, rs⟩) sequence = (telescope o sequence).behind rs := by
  have htelescope := TelescopeState.telescope_push hr
  rw [hrs] at htelescope
  exact htelescope

theorem nodup_failedIds (hd : o.history.DistinctFailures) :
    (e.generator o sequence plan).progress.failedIds.Nodup :=
  Progress.nodup_failedIds hd sequence (.ofSequence sequence)

theorem sound {s : Specification} {m : Nat}
    (hplan : (Plans.ofSpecification s).get? sequence = some plan)
    (hd : o.history.DistinctFailures) (hapart : AtomKey.Apart (e.atomKeys o s sequence m)) :
    (e.generator o sequence plan).Sound ((e.generator o sequence plan).reach m) := by
  rw [atomKeys, hplan] at hapart
  exact ⟨hapart, Progress.singleOwner_of_nodup (nodup_failedIds hd)⟩

/-- Of a plan without end one atom at most comes before the one that goes on for ever. -/
theorem length_atoms_le {s : Specification}
    (hplan : (Plans.ofSpecification s).get? sequence = some plan) (hend : plan.isUnbounded = true) :
    plan.atoms.length ≤ 1 := by
  cases sequence with
  | acquisition =>
    obtain ⟨a, -, rfl⟩ := Option.map_eq_some_iff.1 hplan
    exact Nat.le_refl 1
  | science =>
    cases hplan
    cases hend

theorem nextAtom_eq {calculator : Calculator} {s : Specification}
    (hs : e.specification o calculator = .ok s)
    (hplan : (Plans.ofSpecification s).get? sequence = some plan) :
    e.nextAtom o calculator sequence =
      .ok (((e.generator o sequence plan).advance (.start (telescope o sequence))).map (·.1.atom)) := by
  unfold nextAtom generateType
  rw [hs]
  show Except.ok (((Plans.ofSpecification s).get? sequence |>.map _).bind _) = _
  rw [hplan, Option.map_some, Option.bind_some, Generator.window]
  cases (e.generator o sequence plan).advance (.start (telescope o sequence)) with
  | none => rfl
  | some r => rfl

end Engine

/-! ## A short observation -/

/-- The record of a finished step, with the verdict on its data. -/
def Step.finished (s : Step) (verdict : QaState) : StepRecord :=
  ⟨s.id, s.instrumentConfig, s.stepConfig, s.observeClass, [⟨.endStep, ⟨0, 0⟩⟩],
    [⟨"d", some verdict⟩]⟩

theorem carries_finished (ss : List Step) :
    List.Forall₂ StepRecord.Carries (ss.map (·.finished .pass)) ss := by
  induction ss with
  | nil => exact .nil
  | cons s ss ih => exact .cons ⟨rfl, rfl, rfl, rfl, rfl, rfl⟩ ih

namespace Short

/-- Two exposures through one filter, at two offsets. -/
def observation (history : History) : Observation where
  id := "o"
  target := some ⟨"M 51", some ⟨.v, 14⟩, some 0⟩
  mode := some (.gmosNorthImaging
    ⟨[.rPrime], ⟨none, none, none, none, none⟩, some [0, .alongSlit (.ofArcseconds 10)]⟩)
  role := none
  integration := some ⟨⟨.ofSeconds 10, 1⟩, ⟨.ofSeconds 60, 2⟩⟩
  history
  corrections := []

def calculator : Calculator := .ofObservation (observation ⟨[]⟩)

/-- The next atom behind a history. -/
def next? (history : History) : Option Atom :=
  match (default : Engine).nextAtom (observation history) calculator .science with
  | .ok x => x
  | .error _ => none

def specification : Specification :=
  .ofMode "o" none ⟨⟨.ofSeconds 10, 1⟩, ⟨.ofSeconds 60, 2⟩⟩ (.gmosNorthImaging
    ⟨[.rPrime], ⟨none, none, none, none, none⟩, some [0, .alongSlit (.ofArcseconds 10)]⟩)

/-- The first atom of the observation. -/
def first : Atom := (next? ⟨[]⟩).get (by decide +kernel)

/-- The first step was executed, and its data failed. -/
def failed : History := ⟨[⟨first.id, "v", .science, (first.steps.take 1).map (·.finished .fail)⟩]⟩

/-- The same atom behind that: the other step, and the repetition of the first. -/
def resumed : Atom := (next? failed).get (by decide +kernel)

end Short
end Observing
