import Observing.Proofs.Conservation
import Observing.Proofs.Loss

/-!
# Digests of atoms are exact

A digest adds up the times of steps class by class, each sum stopping at the greatest span.  However
the steps are spread over atoms and in whatever order they come, a total is the exact sum, stopped at
the greatest span once.

* `Step.exactTime`         the exact time of steps;
* `Atom.Timed`             the time of an atom is that of its steps;
* `TimeSpan.sum_flatMap`   sums of sums;
* `mem_distinct`, `nodup_distinct`, `pairwise_distinct`   the values of a list, each where it comes up
  first;
* `ofAtoms_exact`          the digest of atoms;
* `Generator.timed_of_mem_remaining`   generated atoms have the time of their steps.
-/

namespace Observing

/-! ## Sums that stop -/

namespace TimeSpan

/-- Sums may be taken group by group. -/
theorem sum_flatMap {α : Type} (f : α → List TimeSpan) (l : List α) :
    sum (l.flatMap f) = sum (l.map fun a => sum (f a)) := by
  induction l with
  | nil => rfl
  | cons a l ih => rw [List.flatMap_cons, sum_append, ih, List.map_cons, sum_cons]

end TimeSpan

theorem CategorizedTime.get_total (t : CategorizedTime) :
    t.get .program + t.get .partner + t.get .nonCharged = t.total := rfl

/-! ## The time of steps -/

/-- The exact time of steps, in microseconds. -/
def Step.exactTime (ss : List Step) : ℕ := (ss.map (·.estimate.total.micros)).sum

namespace Step

variable {s : Step} {ss : List Step}

theorem exactTime_cons (s : Step) (ss : List Step) :
    exactTime (s :: ss) = s.estimate.total.micros + exactTime ss := List.sum_cons

theorem exactTime_perm {rs : List Step} (h : rs.Perm ss) : exactTime rs = exactTime ss :=
  (h.map _).sum_eq

theorem micros_sum_totals (ss : List Step) :
    (TimeSpan.sum (ss.map (·.estimate.total))).micros = min (exactTime ss) Ticks.greatest := by
  rw [TimeSpan.micros_sum, List.map_map]
  rfl

/-- The steps of a class. -/
def ofClass (c : ChargeClass) (ss : List Step) : List Step := ss.filter (·.observeClass.charge = c)

theorem exactTime_ofClass_cons (c : ChargeClass) (s : Step) (ss : List Step) :
    exactTime (ofClass c (s :: ss)) =
      (if s.observeClass.charge = c then s.estimate.total.micros else 0) +
        exactTime (ofClass c ss) := by
  by_cases hc : s.observeClass.charge = c
  · rw [ofClass, List.filter_cons_of_pos (by simpa using hc), exactTime_cons, if_pos hc]
    rfl
  · rw [ofClass, List.filter_cons_of_neg (by simpa using hc), if_neg hc, Nat.zero_add]
    rfl

/-- Every step is charged to one class. -/
theorem exactTime_eq_classes (ss : List Step) : exactTime ss =
    exactTime (ofClass .program ss) + exactTime (ofClass .partner ss) +
      exactTime (ofClass .nonCharged ss) := by
  induction ss with
  | nil => rfl
  | cons s ss ih =>
    rw [exactTime_cons, ih, exactTime_ofClass_cons, exactTime_ofClass_cons, exactTime_ofClass_cons]
    cases s.observeClass.charge <;> simp only [reduceCtorEq, if_true, if_false] <;> omega

end Step

/-- The time of an atom is that of its steps. -/
def Atom.Timed (a : Atom) : Prop := a.total = TimeSpan.sum (a.steps.map (·.estimate.total))

theorem Atom.timed_ofSteps (id : AtomId) (description : Option String) (kind : AtomKind)
    (steps : List Step) : (ofSteps id description kind steps).Timed := rfl

namespace Generator

variable {g : Generator} {t : TelescopeState} {a : Atom}

theorem timed_of_mem_take {n : ℕ} {y : Emission} (h : y ∈ (g.take n (.start t)).1) :
    y.atom.Timed := by
  obtain ⟨us, s, v, t', -, -, -, rfl⟩ := mem_take (s := ⟨0, []⟩) h
  exact Atom.timed_ofSteps _ _ _ _

/-- Generated atoms have the time of their steps. -/
theorem timed_of_mem_remaining (h : a ∈ g.remaining t) : a.Timed := by
  obtain ⟨y, hy, rfl⟩ := List.mem_map.1 h
  exact timed_of_mem_take hy

end Generator

namespace SequenceDigest

/-! ## Values where they come up first -/

section

variable {α : Type} [DecidableEq α] {a : α} {l : List α}

theorem distinct_concat (l : List α) (a : α) :
    distinct (l ++ [a]) = if a ∈ distinct l then distinct l else distinct l ++ [a] := by
  rw [distinct, List.foldl_append]
  rfl

theorem mem_distinct : a ∈ distinct l ↔ a ∈ l := by
  induction l using List.reverseRecOn with
  | nil => exact Iff.rfl
  | append_singleton l b ih =>
    rw [distinct_concat, List.mem_append, List.mem_singleton]
    split
    · next hb =>
      rw [ih]
      refine ⟨.inl, ?_⟩
      rintro (ha | rfl)
      · exact ha
      · exact ih.1 hb
    · rw [List.mem_append, List.mem_singleton, ih]

theorem nodup_distinct (l : List α) : (distinct l).Nodup := by
  induction l using List.reverseRecOn with
  | nil => exact List.nodup_nil
  | append_singleton l b ih =>
    rw [distinct_concat]
    split
    · exact ih
    · next hb => exact List.nodup_append_comm.1 (List.nodup_cons.2 ⟨hb, ih⟩)

/-- The values stand in the order in which they come up first. -/
theorem pairwise_distinct (l : List α) : (distinct l).Pairwise fun a b => l.idxOf a < l.idxOf b := by
  induction l using List.reverseRecOn with
  | nil => exact List.Pairwise.nil
  | append_singleton l b ih =>
    have hkept : ∀ {a}, a ∈ distinct l → (l ++ [b]).idxOf a = l.idxOf a := fun ha =>
      List.idxOf_append_of_mem (mem_distinct.1 ha)
    have hold : (distinct l).Pairwise fun a c => (l ++ [b]).idxOf a < (l ++ [b]).idxOf c := by
      refine ih.imp_of_mem fun {a c} ha hc hlt => ?_
      rw [hkept ha, hkept hc]
      exact hlt
    rw [distinct_concat]
    split
    · exact hold
    · next hb =>
      refine List.pairwise_append.2 ⟨hold, List.pairwise_singleton _ b, fun a ha c hc => ?_⟩
      rw [List.mem_singleton.1 hc, hkept ha, List.idxOf_append_of_notMem (mem_distinct.not.1 hb)]
      have hlt := List.idxOf_lt_length_of_mem (mem_distinct.1 ha)
      omega

end

/-! ## The digest of atoms -/

variable {atoms : List Atom}

/-- The offsets of the steps on the sky, in their order. -/
def offsetsOf (atoms : List Atom) : List Offset :=
  (atoms.flatMap (·.steps)).filterMap fun s => s.stepConfig.offset?

theorem micros_timeEstimate (atoms : List Atom) (c : ChargeClass) :
    ((ofAtoms atoms).timeEstimate.get c).micros =
      min (Step.exactTime (Step.ofClass c (atoms.flatMap (·.steps)))) Ticks.greatest := by
  rw [get_timeEstimate, Atom.charged]
  exact Step.micros_sum_totals _

theorem micros_total (atoms : List Atom) : (ofAtoms atoms).timeEstimate.total.micros =
    min (Step.exactTime (atoms.flatMap (·.steps))) Ticks.greatest := by
  have hprogram := micros_timeEstimate atoms .program
  have hpartner := micros_timeEstimate atoms .partner
  have hnonCharged := micros_timeEstimate atoms .nonCharged
  rw [← CategorizedTime.get_total, TimeSpan.micros_add, TimeSpan.micros_add, hprogram, hpartner,
    hnonCharged, Step.exactTime_eq_classes (atoms.flatMap (·.steps))]
  omega

/-- The total is the sum of the times of the atoms. -/
theorem total_eq_sum (h : ∀ a ∈ atoms, a.Timed) :
    (ofAtoms atoms).timeEstimate.total = TimeSpan.sum (atoms.map (·.total)) := by
  have htotals : atoms.map (·.total) =
      atoms.map fun a => TimeSpan.sum (a.steps.map (·.estimate.total)) := List.map_congr_left h
  ext
  rw [micros_total, htotals, ← TimeSpan.sum_flatMap, ← List.map_flatMap]
  exact (Step.micros_sum_totals _).symm

theorem timeEstimate_perm {others : List Atom}
    (h : (others.flatMap (·.steps)).Perm (atoms.flatMap (·.steps))) :
    (ofAtoms others).timeEstimate = (ofAtoms atoms).timeEstimate := by
  refine CategorizedTime.ext_get fun c => TimeSpan.ext ?_
  have hclass : (Step.ofClass c (others.flatMap (·.steps))).Perm
      (Step.ofClass c (atoms.flatMap (·.steps))) := h.filter _
  rw [micros_timeEstimate, micros_timeEstimate, Step.exactTime_perm hclass]

theorem mem_offsetsOf {o : Offset} : o ∈ offsetsOf atoms ↔
    ∃ s ∈ atoms.flatMap (·.steps), ∃ guiding, s.stepConfig = .science o guiding := by
  rw [offsetsOf, List.mem_filterMap]
  refine exists_congr fun s => and_congr_right fun _ => ?_
  unfold StepConfig.offset?
  cases s.stepConfig <;> simp

/-- The digest of atoms is exact.  The time of a class is the exact time of its steps and the total is
that of all steps, each stopped at the greatest span once; where atoms have the time of their steps,
as generated ones do, the total is the sum of the times of the atoms.  Steps may be put in another order
and spread over atoms in another way, and no time is changed.  The offsets are those of the steps on the
sky, each once, in the order in which they come up first. -/
theorem ofAtoms_exact (atoms : List Atom) :
    (∀ c, ((ofAtoms atoms).timeEstimate.get c).micros =
      min (Step.exactTime (Step.ofClass c (atoms.flatMap (·.steps)))) Ticks.greatest) ∧
    (ofAtoms atoms).timeEstimate.total.micros =
      min (Step.exactTime (atoms.flatMap (·.steps))) Ticks.greatest ∧
    ((∀ a ∈ atoms, a.Timed) →
      (ofAtoms atoms).timeEstimate.total = TimeSpan.sum (atoms.map (·.total))) ∧
    (∀ (g : Generator) (t : TelescopeState), atoms = g.remaining t → ∀ a ∈ atoms, a.Timed) ∧
    (∀ others, (others.flatMap (·.steps)).Perm (atoms.flatMap (·.steps)) →
      (ofAtoms others).timeEstimate = (ofAtoms atoms).timeEstimate) ∧
    (ofAtoms atoms).offsets.Nodup ∧
    (∀ o, o ∈ (ofAtoms atoms).offsets ↔
      ∃ s ∈ atoms.flatMap (·.steps), ∃ guiding, s.stepConfig = .science o guiding) ∧
    (ofAtoms atoms).offsets.Pairwise fun o p =>
      (offsetsOf atoms).idxOf o < (offsetsOf atoms).idxOf p := by
  have hoffsets : (ofAtoms atoms).offsets = distinct (offsetsOf atoms) := rfl
  rw [hoffsets]
  refine ⟨micros_timeEstimate atoms, micros_total atoms, total_eq_sum, ?_, fun _ => timeEstimate_perm,
    nodup_distinct _, fun o => ?_, pairwise_distinct _⟩
  · rintro g t rfl a ha
    exact Generator.timed_of_mem_remaining ha
  · rw [mem_distinct, mem_offsetsOf]

end SequenceDigest
end Observing
