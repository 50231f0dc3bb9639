import Mathlib.Data.List.Perm.Subperm
import Observing.Proofs.Accounting
import Observing.Proofs.Remaining

/-!
# What is missing of an atom

However executed steps of several configurations are mixed, what is still to be done in each of them is
the difference of two numbers: the planned steps, less those executed with data that did not fail.  Which
planned step an executed one met, and which failed step it made up for, makes no difference to that.

* `Tally.due_takeAll`      what is due in a configuration, and the planned steps not met in it;
* `Resolution.indices`, `Resolution.repeats`   what a recorded atom is said to need;
* `Tally.resolution_eq_satisfied_iff`   how an atom stands, told from these numbers;
* `Progress.resolve_deficit`            the same for every recorded atom.
-/

namespace Observing

/-- The number of executed steps of a configuration. -/
def executedIn (c : Configuration) (es : List ExecutedStep) : Nat :=
  es.countP fun e => e.configuration = c

theorem executedIn_append (c : Configuration) (es fs : List ExecutedStep) :
    executedIn c (es ++ fs) = executedIn c es + executedIn c fs := List.countP_append

theorem executedIn_of_ne {e : ExecutedStep} {c : Configuration} (h : e.configuration ≠ c) :
    executedIn c [e] = 0 := by
  rw [executedIn, List.countP_eq_zero]
  simpa using h

theorem acceptedIn_of_ne {e : ExecutedStep} {c : Configuration} (h : e.configuration ≠ c) :
    acceptedIn c [e] = 0 := by
  rw [acceptedIn, List.countP_eq_zero]
  simpa using fun _ => h

theorem acceptedIn_le_of_subperm {es fs : List ExecutedStep} (h : es.Subperm fs)
    (c : Configuration) : acceptedIn c es ≤ acceptedIn c fs := h.countP_le _

/-- Of steps none of which an executed step can be, none is counted in its configuration. -/
theorem plannedIn_map_eq_zero {ι : Type} {e : ExecutedStep} {f : ι → ProtoStep} {l : List ι}
    (h : ∀ u ∈ l, e.executes (f u) = false) : plannedIn e.configuration (l.map f) = 0 := by
  rw [plannedIn, List.countP_eq_zero]
  intro p hp hc
  obtain ⟨u, hu, rfl⟩ := List.mem_map.1 hp
  have hnot := h u hu
  rw [ExecutedStep.executes_iff.2 (of_decide_eq_true hc)] at hnot
  cases hnot

/-- No step is planned when none is in any configuration. -/
theorem eq_nil_iff_plannedIn {ps : List ProtoStep} : ps = [] ↔ ∀ c, plannedIn c ps = 0 := by
  constructor
  · rintro rfl c
    rfl
  · intro h
    rw [List.eq_nil_iff_forall_not_mem]
    intro p hp
    have hzero := List.countP_eq_zero.1 (h p.configuration) p hp
    simp at hzero

namespace Tally

/-! ## One executed step -/

/-- An executed step whose data did not fail leaves one less due in its configuration, if any was. -/
theorem due_take_eq (t : Tally) (e : ExecutedStep) (c : Configuration) :
    (t.take e).due c = t.due c - acceptedIn c [e] := by
  by_cases hcounts : (∃ u ∈ t.unmet, e.executes u.2 = true) ∨ ∃ q ∈ t.redo, e.executes q.step = true
  · have htake := due_take hcounts c
    omega
  · rw [not_or, not_exists, not_exists] at hcounts
    obtain ⟨hunmet, hredo⟩ := hcounts
    have hu : ∀ u ∈ t.unmet, e.executes u.2 = false := by simpa using hunmet
    have hr : ∀ q ∈ t.redo, e.executes q.step = false := by simpa using hredo
    have hsame : t.take e = t := by
      rcases take_cases t e with ⟨l, i, p, r, hl, hp, -⟩ | ⟨l, q, r, -, hl, hq, -⟩ | ⟨-, -, ht⟩
      · rw [hu (i, p) (by simp [hl])] at hp
        cases hp
      · rw [hr q (by simp [hl])] at hq
        cases hq
      · exact ht
    -- the step is left aside: nothing is due in its configuration, and in others it does not count
    rw [hsame]
    by_cases hc : e.configuration = c
    · rw [← hc, due, plannedIn_map_eq_zero hu, plannedIn_map_eq_zero hr, Nat.zero_sub]
    · rw [acceptedIn_of_ne hc, Nat.sub_zero]

/-- An executed step meets one planned step of its configuration, if any is unmet. -/
theorem unmet_take_eq (t : Tally) (e : ExecutedStep) (c : Configuration) :
    plannedIn c ((t.take e).unmet.map (·.2)) =
      plannedIn c (t.unmet.map (·.2)) - executedIn c [e] := by
  have hrest : (∀ u ∈ t.unmet, e.executes u.2 = false) →
      plannedIn c (t.unmet.map (·.2)) = plannedIn c (t.unmet.map (·.2)) - executedIn c [e] := by
    intro hu
    by_cases hc : e.configuration = c
    · rw [← hc, plannedIn_map_eq_zero hu, Nat.zero_sub]
    · rw [executedIn_of_ne hc, Nat.sub_zero]
  rcases take_cases t e with ⟨l, i, p, r, hl, hp, ht⟩ | ⟨l, q, r, hu, -, -, ht⟩ | ⟨hu, -, ht⟩
  · have hone : plannedIn c [p] = executedIn c [e] := by
      simp [plannedIn, executedIn, ExecutedStep.executes_iff.1 hp]
    rw [ht, hl]
    simp only [List.map_append, List.map_cons, plannedIn_append]
    rw [plannedIn_cons c p, hone]
    omega
  · rw [ht]
    exact hrest hu
  · rw [ht]
    exact hrest hu

/-! ## All executed steps -/

/-- What is due in a configuration is what was, less the executed steps whose data did not fail. -/
theorem due_takeAll (t : Tally) (es : List ExecutedStep) (c : Configuration) :
    (t.takeAll es).due c = t.due c - acceptedIn c es := by
  induction es generalizing t with
  | nil => rfl
  | cons e es ih =>
    have hsplit : acceptedIn c (e :: es) = acceptedIn c [e] + acceptedIn c es :=
      acceptedIn_append c [e] es
    rw [takeAll_cons, ih, due_take_eq, hsplit, Nat.sub_sub]

theorem unmet_takeAll (t : Tally) (es : List ExecutedStep) (c : Configuration) :
    plannedIn c ((t.takeAll es).unmet.map (·.2)) =
      plannedIn c (t.unmet.map (·.2)) - executedIn c es := by
  induction es generalizing t with
  | nil => rfl
  | cons e es ih =>
    have hsplit : executedIn c (e :: es) = executedIn c [e] + executedIn c es :=
      executedIn_append c [e] es
    rw [takeAll_cons, ih, unmet_take_eq, hsplit, Nat.sub_sub]

end Tally

/-! ## How an atom stands -/

/-- The indices of the planned steps that an atom still needs. -/
def Resolution.indices : Resolution → List Nat
  | .inProgress unmet _ => unmet.map (·.1)
  | .fresh | .satisfied | .closedWithRedo _ => []

/-- The repetitions that an atom still needs. -/
def Resolution.repeats : Resolution → List Redo
  | .inProgress _ redo | .closedWithRedo redo => redo
  | .fresh | .satisfied => []

namespace Tally

variable {t : Tally}

theorem unmet_eq_nil_iff : t.unmet = [] ↔ ∀ c, plannedIn c (t.unmet.map (·.2)) = 0 := by
  rw [← eq_nil_iff_plannedIn, List.map_eq_nil_iff]

theorem redo_eq_nil_iff : t.redo = [] ↔ ∀ c, plannedIn c (t.redo.map (·.step)) = 0 := by
  rw [← eq_nil_iff_plannedIn, List.map_eq_nil_iff]

theorem indices_resolution (t : Tally) : t.resolution.indices = t.unmet.map (·.1) := by
  rcases t.resolution_cases with ⟨hunmet, -, ht⟩ | ⟨hunmet, -, ht⟩ | ⟨-, ht⟩ <;> rw [ht]
  · rw [hunmet]
    rfl
  · rw [hunmet]
    rfl
  · rfl

theorem repeats_resolution (t : Tally) : t.resolution.repeats = t.redo := by
  rcases t.resolution_cases with ⟨-, hredo, ht⟩ | ⟨-, -, ht⟩ | ⟨-, ht⟩ <;> rw [ht]
  · exact hredo.symm
  · rfl
  · rfl

/-- An atom is done when nothing is due in any configuration. -/
theorem resolution_eq_satisfied_iff : t.resolution = .satisfied ↔ ∀ c, t.due c = 0 := by
  have hboth : (∀ c, t.due c = 0) ↔ t.unmet = [] ∧ t.redo = [] := by
    rw [unmet_eq_nil_iff, redo_eq_nil_iff, ← forall_and]
    exact forall_congr' fun c => Nat.add_eq_zero_iff
  rw [hboth]
  rcases t.resolution_cases with ⟨hunmet, hredo, ht⟩ | ⟨-, hredo, ht⟩ | ⟨hunmet, ht⟩ <;>
    simp [*]

theorem resolution_closed_iff : (∃ redo, t.resolution = .closedWithRedo redo) ↔
    t.resolution ≠ .satisfied ∧ ∀ c, plannedIn c (t.unmet.map (·.2)) = 0 := by
  rw [← unmet_eq_nil_iff]
  rcases t.resolution_cases with ⟨hunmet, -, ht⟩ | ⟨hunmet, -, ht⟩ | ⟨hunmet, ht⟩ <;> simp [*]

theorem resolution_inProgress_iff : (∃ unmet redo, t.resolution = .inProgress unmet redo) ↔
    t.resolution ≠ .satisfied ∧ ¬∃ redo, t.resolution = .closedWithRedo redo := by
  rcases t.resolution_cases with ⟨-, -, ht⟩ | ⟨-, -, ht⟩ | ⟨-, ht⟩ <;> simp [ht]

/-- The steps of a configuration among planned ones, and their indices. -/
theorem filter_indices {planned : List ProtoStep} {us : List (Nat × ProtoStep)}
    (h : us.Sublist (start planned).unmet) (c : Configuration) :
    (us.map (·.1)).filter (fun i => (planned[i]?).map (·.configuration) = some c) =
      (us.filter fun u => u.2.configuration = c).map (·.1) := by
  rw [List.filter_map]
  congr 1
  refine List.filter_congr fun u hu => ?_
  obtain ⟨⟨p, i⟩, hp, rfl⟩ := List.mem_map.1 (h.subset hu)
  have hget : planned[i]? = some p := List.mem_zipIdx_iff_getElem?.1 hp
  simp [hget]

/-- The steps at the indices that are left are those not met. -/
theorem countP_indices (planned : List ProtoStep) (es : List ExecutedStep) (c : Configuration) :
    (((start planned).takeAll es).unmet.map (·.1)).countP
        (fun i => (planned[i]?).map (·.configuration) = some c) =
      plannedIn c (((start planned).takeAll es).unmet.map (·.2)) := by
  rw [List.countP_eq_length_filter, filter_indices (unmet_takeAll_sublist _ es), List.length_map,
    ← List.countP_eq_length_filter, plannedIn, List.countP_map]
  rfl

end Tally

namespace Progress

variable {p : Progress} {id : AtomId} {planned : List ProtoStep} {executed : List ExecutedStep}

theorem resolve_eq_satisfied_iff (h : p.executed? id = some executed) :
    p.resolve id planned = .satisfied ↔ ∀ c, plannedIn c planned ≤ acceptedIn c executed := by
  rw [resolve_of_executed? h, Tally.resolution_eq_satisfied_iff]
  refine forall_congr' fun c => ?_
  rw [Tally.due_takeAll, Tally.due_start, Nat.sub_eq_zero_iff_le]

/-- Further executed steps, wherever they come in, leave an atom done. -/
theorem satisfied_of_subperm {q : Progress} {other : AtomId} {executed' : List ExecutedStep}
    (h : p.executed? id = some executed) (h' : q.executed? other = some executed')
    (hsub : executed.Subperm executed') (hdone : p.resolve id planned = .satisfied) :
    q.resolve other planned = .satisfied := by
  rw [resolve_eq_satisfied_iff h] at hdone
  rw [resolve_eq_satisfied_iff h']
  exact fun c => (hdone c).trans (acceptedIn_le_of_subperm hsub c)

theorem resolve_closed_iff (h : p.executed? id = some executed) :
    (∃ redo, p.resolve id planned = .closedWithRedo redo) ↔
      p.resolve id planned ≠ .satisfied ∧ ∀ c, plannedIn c planned ≤ executedIn c executed := by
  rw [resolve_of_executed? h, Tally.resolution_closed_iff]
  refine and_congr_right fun _ => forall_congr' fun c => ?_
  rw [Tally.unmet_takeAll, Tally.map_snd_unmet_start, Nat.sub_eq_zero_iff_le]

theorem resolve_inProgress_iff (h : p.executed? id = some executed) :
    (∃ unmet redo, p.resolve id planned = .inProgress unmet redo) ↔
      p.resolve id planned ≠ .satisfied ∧ ∃ c, executedIn c executed < plannedIn c planned := by
  have hopen : (∃ unmet redo, p.resolve id planned = .inProgress unmet redo) ↔
      p.resolve id planned ≠ .satisfied ∧ ¬∃ redo, p.resolve id planned = .closedWithRedo redo := by
    rw [resolve_of_executed? h, Tally.resolution_inProgress_iff]
  rw [hopen, resolve_closed_iff h]
  refine and_congr_right fun hdone => ?_
  rw [not_and, forall_prop_of_true hdone, not_forall]
  exact exists_congr fun c => Nat.not_le

/-- What a recorded atom needs.  In each configuration, the planned steps and the repetitions that are
left are as many as the planned steps exceed the steps executed with data that did not fail.  So the
atom is done when that is none in each configuration; it is closed, with steps to be repeated, when it is
not done and as many steps were executed in each configuration as are planned; and otherwise it is in
progress.  Whether it is done does not depend on the order of the executed steps, and further steps,
wherever they come in, leave it done. -/
theorem resolve_deficit (p : Progress) (id : AtomId) (planned : List ProtoStep)
    (executed : List ExecutedStep) (h : p.executed? id = some executed) :
    (∀ c, (p.resolve id planned).indices.countP
          (fun i => (planned[i]?).map (·.configuration) = some c) +
        plannedIn c ((p.resolve id planned).repeats.map (·.step)) =
      plannedIn c planned - acceptedIn c executed) ∧
    (p.resolve id planned = .satisfied ↔ ∀ c, plannedIn c planned ≤ acceptedIn c executed) ∧
    ((∃ redo, p.resolve id planned = .closedWithRedo redo) ↔
      p.resolve id planned ≠ .satisfied ∧ ∀ c, plannedIn c planned ≤ executedIn c executed) ∧
    ((∃ unmet redo, p.resolve id planned = .inProgress unmet redo) ↔
      p.resolve id planned ≠ .satisfied ∧ ∃ c, executedIn c executed < plannedIn c planned) ∧
    (∀ (q : Progress) (other : AtomId) (executed' : List ExecutedStep),
      q.executed? other = some executed' → executed.Perm executed' →
        (p.resolve id planned = .satisfied ↔ q.resolve other planned = .satisfied)) ∧
    ∀ (q : Progress) (other : AtomId) (executed' : List ExecutedStep),
      q.executed? other = some executed' → executed.Subperm executed' →
        p.resolve id planned = .satisfied → q.resolve other planned = .satisfied := by
  refine ⟨fun c => ?_, resolve_eq_satisfied_iff h, resolve_closed_iff h, resolve_inProgress_iff h,
    ?_, ?_⟩
  · rw [resolve_of_executed? h planned, Tally.indices_resolution, Tally.repeats_resolution,
      Tally.countP_indices, ← Tally.due_start planned c, ← Tally.due_takeAll]
    rfl
  · intro q other executed' h' hperm
    exact ⟨satisfied_of_subperm h h' hperm.subperm, satisfied_of_subperm h' h hperm.symm.subperm⟩
  · intro q other executed' h' hsub
    exact satisfied_of_subperm h h' hsub

end Progress

/-! ## A failed step among equal ones -/

namespace Generator

/-- Two equal steps and another. -/
def samplePlanned : List ProtoStep := [sampleStep 0, sampleStep 0, sampleStep 15]

def sampleAtom : AtomId := (AtomKey.planned "o" .science 0).id

/-- A step of the atom was executed. -/
def sampleExecuted (i : Nat) (p : ProtoStep) (verdict : QaState) : ExecutedStep :=
  .ofRecord (sampleRecord (StepKey.planned sampleAtom i).id p verdict)

/-- All three steps were executed; the data of the first failed. -/
def sampleRun : List ExecutedStep :=
  [sampleExecuted 0 (sampleStep 0) .fail, sampleExecuted 2 (sampleStep 15) .pass,
    sampleExecuted 1 (sampleStep 0) .pass]

/-- Behind them an equal step was executed, with data that did not fail. -/
def sampleRepeated : List ExecutedStep := sampleRun ++ [sampleExecuted 3 (sampleStep 0) .pass]

/-- An atom with executed steps. -/
def sampleProgress (es : List ExecutedStep) : Progress := ⟨[(sampleAtom, es)]⟩

end Generator

open Generator in
/-- One of two equal steps failed, and one is due again.  A further one makes up for it, also where the
steps were executed in the opposite order. -/
theorem Progress.resolve_deficit_sample :
    (sampleProgress sampleRun).executed? sampleAtom = some sampleRun ∧
    ((sampleProgress sampleRun).resolve sampleAtom samplePlanned).indices.countP
        (fun i => (samplePlanned[i]?).map (·.configuration) = some (sampleStep 0).configuration) +
      plannedIn (sampleStep 0).configuration
        (((sampleProgress sampleRun).resolve sampleAtom samplePlanned).repeats.map (·.step)) = 1 ∧
    (sampleProgress sampleRun).resolve sampleAtom samplePlanned ≠ .satisfied ∧
    (sampleProgress sampleRepeated).resolve sampleAtom samplePlanned = .satisfied ∧
    (sampleProgress sampleRepeated.reverse).resolve sampleAtom samplePlanned = .satisfied := by
  have hexecuted : ∀ es, (sampleProgress es).executed? sampleAtom = some es := by
    intro es
    simp [sampleProgress, Progress.executed?]
  obtain ⟨hdue, hdone, -⟩ := Progress.resolve_deficit (sampleProgress sampleRun) sampleAtom
    samplePlanned sampleRun (hexecuted _)
  obtain ⟨-, -, -, -, hperm, -⟩ := Progress.resolve_deficit (sampleProgress sampleRepeated)
    sampleAtom samplePlanned sampleRepeated (hexecuted _)
  have hone : plannedIn (sampleStep 0).configuration samplePlanned -
      acceptedIn (sampleStep 0).configuration sampleRun = 1 := by decide +kernel
  have hrepeated : (sampleProgress sampleRepeated).resolve sampleAtom samplePlanned = .satisfied := by
    decide +kernel
  refine ⟨hexecuted _, (hdue _).trans hone, fun hsatisfied => ?_, hrepeated,
    (hperm _ _ _ (hexecuted _) (List.reverse_perm _).symm).1 hrepeated⟩
  have hle := hdone.1 hsatisfied (sampleStep 0).configuration
  omega

end Observing
