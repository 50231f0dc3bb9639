import Mathlib.Data.List.Range
import Observing.Proofs.Calibrated

/-!
# Counting planned steps

How many steps a plan has: one for each science exposure, and two lamp exposures for each run of atoms
that are calibrated together.

* `SciencePlan.length_runs`     the runs that are calibrated together;
* `LongSlitPlan.steps_take`     the atoms of a spectrum are its exposures in their order;
* `SciencePlan.length_steps`    the science exposures;
* `Specification.length_steps`  all planned steps, those of the calibrations included;
* `Specification.steps_ne_nil`  no planned atom is without steps.
-/

namespace Observing

/-! ## Runs -/

namespace PlannedAtom

/-- Runs one after another, of which each is of another group than the one behind it, are those of the
whole list. -/
theorem runs_flatten {rs : List (List PlannedAtom)} (hne : [] ∉ rs)
    (hsame : ∀ run ∈ rs, ∀ a ∈ run, ∀ b ∈ run, a.group = b.group)
    (hother : rs.IsChain fun run next => ∃ hrun hnext,
      (run.getLast hrun).group ≠ (next.head hnext).group) : runs rs.flatten = rs := by
  refine List.splitBy_flatten hne (fun run hrun => List.Pairwise.isChain ?_) ?_
  · exact List.pairwise_of_forall_mem_list fun a ha b hb => decide_eq_true (hsame run hrun a ha b hb)
  · exact hother.imp fun _ _ ⟨hrun, hnext, h⟩ => ⟨hrun, hnext, decide_eq_false h⟩

variable {science : List PlannedAtom}

/-- Atoms of one group are one run. -/
theorem length_runs_of_same (h : ∀ a ∈ science, ∀ b ∈ science, a.group = b.group) :
    (runs science).length = min science.length 1 := by
  cases science with
  | nil => rfl
  | cons a rest =>
    have hrun : runs [a :: rest].flatten = [a :: rest] :=
      runs_flatten (by simp) (by simpa using h) (List.isChain_singleton _)
    rw [List.flatten_singleton] at hrun
    have hone : 1 ≤ (a :: rest).length := Nat.succ_pos _
    rw [hrun, Nat.min_eq_right hone]
    rfl

/-- Where no two atoms in a row are of one group, each of them is a run. -/
theorem length_runs_of_ne (h : science.IsChain fun a b => a.group ≠ b.group) :
    (runs science).length = science.length := by
  have hruns : runs (science.map fun a => [a]).flatten = science.map fun a => [a] := by
    refine runs_flatten (by simp) ?_ ?_
    · intro run hrun
      obtain ⟨a, -, rfl⟩ := List.mem_map.1 hrun
      simp
    · rw [List.isChain_map]
      exact h.imp fun a b hab => ⟨List.cons_ne_nil a [], List.cons_ne_nil b [], hab⟩
  rw [← List.flatMap_def, List.flatMap_singleton'] at hruns
  rw [hruns, List.length_map]

end PlannedAtom

theorem LongSlitPlan.length_runs (s : LongSlitPlan) :
    (PlannedAtom.runs s.atoms).length = s.groupCount := by
  have hpos : 0 < s.adjustmentCount := Nat.lcm_pos (by omega) (by omega)
  unfold groupCount
  split
  · rename_i hone
    rw [PlannedAtom.length_runs_of_same, length_atoms]
    intro a ha b hb
    obtain ⟨i, -, rfl⟩ := List.mem_map.1 ha
    obtain ⟨j, -, rfl⟩ := List.mem_map.1 hb
    show i % s.adjustmentCount = j % s.adjustmentCount
    rw [hone, Nat.mod_one, Nat.mod_one]
  · rename_i hmore
    rw [PlannedAtom.length_runs_of_ne, length_atoms]
    rw [atoms, List.isChain_map, List.isChain_range]
    intro j _ hgroup
    have hmod : (j + 1) % s.adjustmentCount = j % s.adjustmentCount := hgroup.symm
    have hzero := Nat.sub_mod_eq_zero_of_mod_eq hmod
    rw [Nat.add_sub_cancel_left, Nat.mod_eq_of_lt (by omega)] at hzero
    cases hzero

namespace ImagingPlan

variable {s : ImagingPlan} {f : (Gmos.Filter × InstrumentConfig) × Nat}

/-- The atoms of a filter are of the group that has the index of the filter. -/
theorem group_of_mem_filterAtoms {a : PlannedAtom} (ha : a ∈ s.filterAtoms f) : a.group = f.2 := by
  obtain ⟨pass, -, rfl⟩ := List.mem_map.1 ha
  rfl

theorem filterAtoms_ne_nil (hpos : 0 < s.passes) : s.filterAtoms f ≠ [] := by
  rw [filterAtoms, ne_eq, List.map_eq_nil_iff, List.range_eq_nil]
  omega

/-- The runs are the atoms of one filter each. -/
theorem runs_atoms (hpos : 0 < s.passes) :
    PlannedAtom.runs s.atoms = s.filters.zipIdx.map s.filterAtoms := by
  rw [atoms, List.flatMap_def]
  refine PlannedAtom.runs_flatten ?_ ?_ ?_
  · intro hnil
    obtain ⟨f, -, hf⟩ := List.mem_map.1 hnil
    exact filterAtoms_ne_nil hpos hf
  · intro run hrun a ha b hb
    obtain ⟨f, -, rfl⟩ := List.mem_map.1 hrun
    rw [group_of_mem_filterAtoms ha, group_of_mem_filterAtoms hb]
  · have hindex : s.filters.zipIdx.IsChain fun f f' => f.2 ≠ f'.2 := by
      rw [← List.isChain_map, List.zipIdx_map_snd]
      exact List.Pairwise.isChain (List.nodup_range' ..)
    rw [List.isChain_map]
    refine hindex.imp fun f f' hff => ⟨filterAtoms_ne_nil hpos, filterAtoms_ne_nil hpos, ?_⟩
    rw [group_of_mem_filterAtoms (List.getLast_mem _), group_of_mem_filterAtoms (List.head_mem _)]
    exact hff

theorem length_runs (s : ImagingPlan) : (PlannedAtom.runs s.atoms).length = s.groupCount := by
  rcases Nat.eq_zero_or_pos s.passes with hnone | hpos
  · have hatoms : s.atoms = [] := by
      rw [← List.length_eq_zero_iff, length_atoms, atomCount, hnone, Nat.mul_zero]
    rw [hatoms, groupCount, atomCount, hnone, Nat.mul_zero, Nat.min_zero]
    rfl
  · have hle : s.filters.length ≤ s.atomCount := Nat.le_mul_of_pos_right _ hpos
    rw [runs_atoms hpos, List.length_map, List.length_zipIdx, groupCount, Nat.min_eq_left hle]

end ImagingPlan

theorem NodPlan.length_runs (s : NodPlan) :
    (PlannedAtom.runs s.atoms).length = s.groupCount := by
  rw [PlannedAtom.length_runs_of_same, atoms, List.length_replicate, groupCount]
  intro a ha b hb
  rw [(List.mem_replicate.1 ha).2, (List.mem_replicate.1 hb).2]

/-- The runs of atoms that are calibrated together are as many as the plan says. -/
theorem SciencePlan.length_runs (s : SciencePlan) :
    (PlannedAtom.runs s.atoms).length = s.groupCount := by
  cases s with
  | longSlit s => exact s.length_runs
  | imaging s => exact s.length_runs
  | nod s => exact s.length_runs

/-! ## Science exposures -/

theorem lt_ceilDiv {n d j : Nat} (hd : 0 < d) : j < ceilDiv n d ↔ j * d < n := by
  rw [ceilDiv, if_neg (by omega), Nat.lt_iff_add_one_le, Nat.le_div_iff_mul_le hd, Nat.succ_mul]
  omega

theorem le_ceilDiv_mul {n d : Nat} (hd : 0 < d) : n ≤ ceilDiv n d * d := by
  have hnot := (lt_ceilDiv (n := n) hd).not.1 (Nat.lt_irrefl (ceilDiv n d))
  omega

/-- The plan has what its atoms are filled with: exposures in each atom of a spectrum, and offsets
otherwise. -/
def SciencePlan.Filled : SciencePlan → Prop
  | longSlit s => 0 < s.exposuresPerAtom
  | imaging s => s.offsets ≠ []
  | nod s => s.offsets ≠ []

namespace LongSlitPlan

/-- The exposure at a position of the whole plan. -/
def exposure (s : LongSlitPlan) (n : Nat) : ProtoStep :=
  s.step (n / s.exposuresPerAtom % s.adjustmentCount) (n % s.exposuresPerAtom)

theorem exposure_add (s : LongSlitPlan) {i : Nat} (hi : i < s.exposuresPerAtom) (j : Nat) :
    s.exposure (j * s.exposuresPerAtom + i) = s.step (j % s.adjustmentCount) i := by
  have hdiv : (j * s.exposuresPerAtom + i) / s.exposuresPerAtom = j := by
    rw [Nat.mul_comm, Nat.mul_add_div (Nat.zero_lt_of_lt hi), Nat.div_eq_of_lt hi, Nat.add_zero]
  have hmod : (j * s.exposuresPerAtom + i) % s.exposuresPerAtom = i := by
    rw [Nat.mul_comm, Nat.mul_add_mod, Nat.mod_eq_of_lt hi]
  rw [exposure, hdiv, hmod]

theorem stepCount_le (s : LongSlitPlan) (j : Nat) : s.stepCount j ≤ s.exposuresPerAtom := by
  rw [stepCount, Nat.succ_mul]
  omega

theorem length_steps_atom (s : LongSlitPlan) (j : Nat) :
    (s.atom j).atom.steps.length = s.stepCount j := by
  rw [atom, List.length_map, List.length_range]

/-- The steps of an atom are the exposures from its first one on. -/
theorem steps_atom (s : LongSlitPlan) (j : Nat) : (s.atom j).atom.steps =
    (List.range (s.stepCount j)).map fun i => s.exposure (j * s.exposuresPerAtom + i) := by
  rw [atom]
  refine List.map_congr_left fun i hi => ?_
  exact (s.exposure_add ((List.mem_range.1 hi).trans_le (s.stepCount_le j)) j).symm

/-- The first atoms one after another are the first exposures. -/
theorem steps_take (s : LongSlitPlan) (m : Nat) :
    ((List.range m).map s.atom).flatMap (·.atom.steps) =
      (List.range (min (m * s.exposuresPerAtom) s.exposureCount)).map s.exposure := by
  induction m with
  | zero => simp
  | succ m ih =>
    have hlen : min ((m + 1) * s.exposuresPerAtom) s.exposureCount =
        min (m * s.exposuresPerAtom) s.exposureCount + s.stepCount m := by
      rw [stepCount, Nat.succ_mul]
      omega
    rw [List.range_succ, List.map_append, List.flatMap_append, ih, List.map_singleton,
      List.flatMap_singleton, steps_atom, hlen, List.range_add, List.map_append, List.map_map]
    refine congrArg _ (List.map_congr_left fun i hi => ?_)
    -- the atom has a step, so that all atoms in front of it are full
    have hi := List.mem_range.1 hi
    have hfull : m * s.exposuresPerAtom ≤ s.exposureCount := by
      rw [stepCount, Nat.succ_mul] at hi
      omega
    rw [Function.comp_apply, Nat.min_eq_left hfull]

theorem length_steps_atoms (s : LongSlitPlan) (h : 0 < s.exposuresPerAtom) :
    (s.atoms.flatMap (·.atom.steps)).length = s.exposureCount := by
  rw [atoms, steps_take, List.length_map, List.length_range]
  exact Nat.min_eq_right (le_ceilDiv_mul h)

end LongSlitPlan

theorem ImagingPlan.length_steps_take (s : ImagingPlan) (f : (Gmos.Filter × InstrumentConfig) × Nat)
    (n : Nat) : (((List.range n).map (s.passAtom f)).flatMap (·.atom.steps)).length =
      min (n * s.offsets.length) s.exposureCount := by
  induction n with
  | zero => simp
  | succ n ih =>
    have hatom : (s.passAtom f n).atom.steps.length =
        min (s.exposureCount - n * s.offsets.length) s.offsets.length := by simp [passAtom]
    rw [List.range_succ, List.map_append, List.flatMap_append, List.length_append, ih,
      List.map_singleton, List.flatMap_singleton, hatom, Nat.succ_mul]
    omega

theorem ImagingPlan.length_steps_atoms (s : ImagingPlan) (h : s.offsets ≠ []) :
    (s.atoms.flatMap (·.atom.steps)).length = s.filters.length * s.exposureCount := by
  have hfilter : ∀ f, ((s.filterAtoms f).flatMap (·.atom.steps)).length = s.exposureCount := by
    intro f
    rw [filterAtoms, length_steps_take, Nat.min_eq_right]
    exact le_ceilDiv_mul (List.length_pos_iff.2 h)
  have hall : ∀ fs : List ((Gmos.Filter × InstrumentConfig) × Nat),
      ((fs.flatMap s.filterAtoms).flatMap (·.atom.steps)).length = fs.length * s.exposureCount := by
    intro fs
    induction fs with
    | nil => simp
    | cons f fs ih =>
      rw [List.flatMap_cons, List.flatMap_append, List.length_append, hfilter, ih, List.length_cons,
        Nat.succ_mul, Nat.add_comm]
  rw [atoms, hall, List.length_zipIdx]

theorem NodPlan.length_steps_atoms (s : NodPlan) :
    (s.atoms.flatMap (·.atom.steps)).length = s.cycles * s.offsets.length := by
  have hall : ∀ n, ((List.replicate n s.cycleAtom).flatMap (·.atom.steps)).length =
      n * s.offsets.length := by
    intro n
    induction n with
    | zero => simp
    | succ n ih =>
      have hatom : s.cycleAtom.atom.steps.length = s.offsets.length := by simp [cycleAtom, cycle]
      rw [List.replicate_succ, List.flatMap_cons, List.length_append, hatom, ih, Nat.succ_mul,
        Nat.add_comm]
  exact hall s.cycles

/-- The science steps are as many as the exposures of the plan. -/
theorem SciencePlan.length_steps {s : SciencePlan} (h : s.Filled) :
    (s.atoms.flatMap (·.atom.steps)).length = s.exposureCount := by
  cases s with
  | longSlit s => exact s.length_steps_atoms h
  | imaging s => exact s.length_steps_atoms h
  | nod s => exact s.length_steps_atoms

theorem SciencePlan.steps_ne_nil {s : SciencePlan} (h : s.Filled) :
    ∀ a ∈ s.atoms, a.atom.steps ≠ [] := by
  intro a ha
  cases s with
  | longSlit s =>
    obtain ⟨j, hj, rfl⟩ := List.mem_map.1 ha
    have hlt : j * s.exposuresPerAtom < s.exposureCount := (lt_ceilDiv h).1 (List.mem_range.1 hj)
    have hcount : s.stepCount j ≠ 0 := by
      have hpos : 0 < s.exposuresPerAtom := h
      rw [LongSlitPlan.stepCount, Nat.succ_mul]
      omega
    rw [LongSlitPlan.atom, ne_eq, List.map_eq_nil_iff, List.range_eq_nil]
    exact hcount
  | imaging s =>
    obtain ⟨f, -, ha⟩ := List.mem_flatMap.1 ha
    obtain ⟨pass, hpass, rfl⟩ := List.mem_map.1 ha
    have hlt : pass * s.offsets.length < s.exposureCount :=
      (lt_ceilDiv (List.length_pos_iff.2 h)).1 (List.mem_range.1 hpass)
    rw [ImagingPlan.passAtom, ne_eq, List.map_eq_nil_iff, List.take_eq_nil_iff, not_or]
    exact ⟨by omega, h⟩
  | nod s =>
    rw [(List.mem_replicate.1 ha).2, NodPlan.cycleAtom, NodPlan.cycle, ne_eq, List.map_eq_nil_iff]
    exact h

/-! ## Specifications -/

theorem chosenOr_ne_nil {α : Type} {standard : List α} (h : standard ≠ [])
    (chosen : Option (List α)) : chosenOr chosen standard ≠ [] := by
  unfold chosenOr
  split
  · exact List.cons_ne_nil _ _
  · exact h
  · exact h

namespace ArcAndFlat

variable {c : ArcAndFlat}

theorem length_steps_calibrated {run : List PlannedAtom} (h : run ≠ []) :
    ((c.calibrated run).flatMap (·.steps)).length = (run.flatMap (·.atom.steps)).length + 2 := by
  cases run with
  | nil => exact absurd rfl h
  | cons a rest =>
    have hlamps : (c.atom a.base).steps.length = 2 := rfl
    rw [calibrated, List.flatMap_cons, List.length_append, hlamps, List.flatMap_map, Nat.add_comm]

/-- Each run is calibrated by two steps. -/
theorem length_steps_injectAfter (c : ArcAndFlat) (science : List PlannedAtom) :
    ((c.injectAfter none science).flatMap (·.steps)).length =
      (science.flatMap (·.atom.steps)).length + 2 * (PlannedAtom.runs science).length := by
  have hruns : ∀ runs : List (List PlannedAtom), [] ∉ runs →
      ((runs.flatMap c.calibrated).flatMap (·.steps)).length =
        (runs.flatten.flatMap (·.atom.steps)).length + 2 * runs.length := by
    intro runs hne
    induction runs with
    | nil => rfl
    | cons run runs ih =>
      rw [List.mem_cons, not_or] at hne
      rw [List.flatMap_cons, List.flatMap_append, List.length_append,
        length_steps_calibrated (Ne.symm hne.1), ih hne.2, List.flatten_cons, List.flatMap_append,
        List.length_append, List.length_cons]
      omega
  rw [injectAfter_none, hruns _ (PlannedAtom.nil_notMem_runs science), PlannedAtom.flatten_runs]

end ArcAndFlat

namespace Specification

/-- The number of calibrations that are planned. -/
def calibrations (s : Specification) : Nat :=
  if s.rules.arcsAndFlats.isSome then s.science.groupCount else 0

/-- What is planned is never without steps. -/
theorem filled_ofMode (observation : String) (role : Option CalibrationRole)
    (times : IntegrationTimes) (mode : ObservingMode) :
    (ofMode observation role times mode).science.Filled := by
  have hslit : ∀ instrument m rules,
      0 < (gmosLongSlitPlan instrument m times rules).exposuresPerAtom := by
    intro instrument m rules
    unfold gmosLongSlitPlan
    dsimp only
    split <;> omega
  have himaging : ∀ instrument m rules, (gmosImagingPlan instrument m times rules).offsets ≠ [] :=
    fun _ m _ => chosenOr_ne_nil (List.cons_ne_nil _ _) m.offsets
  cases mode with
  | gmosNorthLongSlit m => exact hslit _ _ _
  | gmosSouthLongSlit m => exact hslit _ _ _
  | gmosNorthImaging m => exact himaging _ _ _
  | gmosSouthImaging m => exact himaging _ _ _
  | flamingos2LongSlit m => exact chosenOr_ne_nil (by simp) m.offsets

/-- There is a specification where nothing is missing of the request and the calculator answers it. -/
theorem build_eq_ok_iff {o : Observation} {calculator : Calculator} {s : Specification} :
    build o calculator = .ok s ↔ ∃ request times, o.request = .ok request ∧
      calculator request = .ok times ∧ s = ofMode o.id o.role times request.mode := by
  constructor
  · intro h
    unfold build at h
    split at h
    · cases h
    · next request hrequest =>
      split at h
      · cases h
      · cases h
      · next times htimes =>
        cases h
        exact ⟨request, times, hrequest, htimes, rfl⟩
  · rintro ⟨request, times, hrequest, htimes, rfl⟩
    rw [build, hrequest]
    dsimp only
    rw [htimes]

theorem filled_of_build {o : Observation} {calculator : Calculator} {s : Specification}
    (h : build o calculator = .ok s) : s.science.Filled := by
  obtain ⟨request, times, -, -, rfl⟩ := build_eq_ok_iff.1 h
  exact filled_ofMode ..

/-- There is one planned step for each exposure, and two for each calibration. -/
theorem length_steps {s : Specification} (h : s.science.Filled) :
    (s.scienceAtoms.flatMap (·.steps)).length = s.science.exposureCount + 2 * s.calibrations := by
  unfold scienceAtoms calibrations
  cases s.rules.arcsAndFlats with
  | none =>
    rw [inject_none, List.flatMap_map, SciencePlan.length_steps h]
    rfl
  | some c =>
    rw [injectCalibrations, ArcAndFlat.length_steps_injectAfter, SciencePlan.length_steps h,
      SciencePlan.length_runs]
    rfl

theorem steps_ne_nil {s : Specification} (h : s.science.Filled) :
    ∀ p ∈ s.scienceAtoms, p.steps ≠ [] := by
  have hscience : ∀ p ∈ s.science.atoms.map (·.atom), p.steps ≠ [] := by
    intro p hp
    obtain ⟨a, ha, rfl⟩ := List.mem_map.1 hp
    exact SciencePlan.steps_ne_nil h a ha
  unfold scienceAtoms
  cases s.rules.arcsAndFlats with
  | none => exact hscience
  | some c =>
    intro p hp
    rw [injectCalibrations, ArcAndFlat.injectAfter_none] at hp
    obtain ⟨run, hrun, hp⟩ := List.mem_flatMap.1 hp
    cases run with
    | nil => cases hp
    | cons a rest =>
      rcases List.mem_cons.1 hp with rfl | hp
      · exact List.cons_ne_nil _ _
      · obtain ⟨b, hb, rfl⟩ := List.mem_map.1 hp
        exact hscience _ (List.mem_map_of_mem (PlannedAtom.mem_of_mem_runs hrun hb))

end Specification
end Observing
