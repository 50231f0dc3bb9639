import Observing.Proofs.Exposures

/-!
# What a plan is projected to

How many atoms a plan comes to is told from its numbers, before any atom is made.  The numbers are those
of the atoms that are made afterwards: science atoms, exposures in them, and calibrations in front of
them, for each kind of plan and whatever the lists and the counts are.

* `SciencePlan.length_atoms`            the science atoms;
* `ArcAndFlat.count_injectAfter`        the calibrations that are put in front of them;
* `Specification.length_scienceAtoms`   all planned atoms;
* `Specification.projectedAtoms_exact`  what is projected is what is planned.
-/

namespace Observing

/-- A plan has as many science atoms as it says. -/
theorem SciencePlan.length_atoms (s : SciencePlan) : s.atoms.length = s.atomCount := by
  cases s with
  | longSlit s => exact s.length_atoms
  | imaging s => exact s.length_atoms
  | nod s => exact List.length_replicate

/-! ## Calibrations -/

namespace ArcAndFlat

variable {c : ArcAndFlat} {science : List PlannedAtom}

/-- Each run is calibrated by one atom. -/
theorem length_injectAfter (c : ArcAndFlat) (science : List PlannedAtom) :
    (c.injectAfter none science).length =
      science.length + (PlannedAtom.runs science).length := by
  have hruns : ∀ runs : List (List PlannedAtom), [] ∉ runs →
      (runs.flatMap c.calibrated).length = runs.flatten.length + runs.length := by
    intro runs hne
    induction runs with
    | nil => rfl
    | cons run runs ih =>
      rw [List.mem_cons, not_or] at hne
      cases run with
      | nil => exact absurd rfl hne.1
      | cons a rest =>
        have hrun : (c.calibrated (a :: rest)).length = (a :: rest).length + 1 := by
          rw [calibrated, List.length_cons, List.length_map]
        have hcount : ((a :: rest) :: runs).length = runs.length + 1 := rfl
        rw [List.flatMap_cons, List.length_append, hrun, ih hne.2, List.flatten_cons,
          List.length_append, hcount]
        omega
  rw [injectAfter_none, hruns _ (PlannedAtom.nil_notMem_runs science), PlannedAtom.flatten_runs]

/-- The calibrations among science atoms are as many as there are runs. -/
theorem count_injectAfter (c : ArcAndFlat) (h : ∀ a ∈ science, a.atom.kind = .science) :
    (c.injectAfter none science).countP (·.kind = .calibration) =
      (PlannedAtom.runs science).length := by
  have hlength := c.length_injectAfter science
  have hscience := congrArg List.length (filter_injectAfter (c := c) h)
  rw [← List.countP_eq_length_filter, List.length_map] at hscience
  have hsplit := List.length_eq_countP_add_countP (l := c.injectAfter none science)
    fun p => p.kind = .calibration
  simp only [decide_eq_true_eq] at hsplit
  rw [hlength, hscience, Nat.add_comm] at hsplit
  exact (Nat.add_right_cancel hsplit).symm

end ArcAndFlat

namespace Specification

/-- Without the calibrations, the planned atoms are the science atoms of the plan. -/
theorem filter_scienceAtoms (s : Specification) :
    s.scienceAtoms.filter (·.kind = .science) = s.science.atoms.map (·.atom) := by
  have hkind := s.science.regular_atoms.kind
  unfold scienceAtoms
  cases s.rules.arcsAndFlats with
  | none =>
    rw [inject_none, List.filter_eq_self]
    intro p hp
    obtain ⟨a, ha, rfl⟩ := List.mem_map.1 hp
    exact decide_eq_true (hkind a ha)
  | some c =>
    have hfilter := ArcAndFlat.filter_injectAfter (c := c) hkind
    rw [injectCalibrations, ← hfilter]
    refine List.filter_congr fun p hp => ?_
    rw [decide_eq_decide]
    constructor
    · intro h
      rw [h]
      decide
    · intro h
      have hmem : p ∈ (c.injectAfter none s.science.atoms).filter (·.kind ≠ .calibration) :=
        List.mem_filter.2 ⟨hp, decide_eq_true h⟩
      rw [hfilter] at hmem
      obtain ⟨a, ha, rfl⟩ := List.mem_map.1 hmem
      exact hkind a ha

/-- The planned atoms are the science atoms and their calibrations. -/
theorem length_scienceAtoms (s : Specification) :
    s.scienceAtoms.length = s.science.atomCount + s.calibrations := by
  unfold scienceAtoms calibrations
  cases s.rules.arcsAndFlats with
  | none =>
    rw [inject_none, List.length_map, SciencePlan.length_atoms]
    rfl
  | some c =>
    rw [injectCalibrations, ArcAndFlat.length_injectAfter, SciencePlan.length_atoms,
      SciencePlan.length_runs]
    rfl

/-- What is projected is what is planned.  A plan has the science atoms, and these the exposures, that
its numbers say; as many calibrations are put in front of them as it has groups; and no planned atom is
without steps.  So the projected number of atoms is that of the planned atoms or, where there are more
of them, of the planned science exposures. -/
theorem projectedAtoms_exact (o : Observation) (calculator : Calculator) (s : Specification)
    (h : build o calculator = .ok s) :
    s.science.atomCount = s.science.atoms.length ∧
    s.science.exposureCount = (s.science.atoms.flatMap (·.atom.steps)).length ∧
    (∀ c, s.science.groupCount =
      (injectCalibrations (some c) s.science.atoms).countP (·.kind = .calibration)) ∧
    (∀ a ∈ s.science.atoms, a.atom.steps ≠ []) ∧
    (∀ p ∈ (Plans.ofSpecification s).science.atoms, p.steps ≠ []) ∧
    s.projectedAtoms = max (Plans.ofSpecification s).science.atoms.length
      (((Plans.ofSpecification s).science.atoms.filter (·.kind = .science)).flatMap (·.steps)).length
      := by
  have hfilled := filled_of_build h
  have hexposures := SciencePlan.length_steps hfilled
  refine ⟨s.science.length_atoms.symm, hexposures.symm, fun c => ?_, SciencePlan.steps_ne_nil hfilled,
    steps_ne_nil hfilled, ?_⟩
  · rw [injectCalibrations, ArcAndFlat.count_injectAfter c s.science.regular_atoms.kind,
      SciencePlan.length_runs]
  · show max (s.science.atomCount + s.calibrations) s.science.exposureCount =
      max s.scienceAtoms.length ((s.scienceAtoms.filter (·.kind = .science)).flatMap (·.steps)).length
    rw [length_scienceAtoms, filter_scienceAtoms, List.flatMap_map, hexposures]

/-- Seven exposures make three atoms with a calibration each.  That is less than one atom for each
exposure. -/
theorem projectedAtoms_exact_slit :
    build (Slit.observation 7 ⟨[]⟩) (Slit.calculator 7) = .ok (Slit.specification 7) ∧
    (Slit.specification 7).science.groupCount = 3 ∧
    (injectCalibrations (some .gmos) (Slit.specification 7).science.atoms).countP
      (·.kind = .calibration) = 3 ∧
    (Plans.ofSpecification (Slit.specification 7)).science.atoms.length = 6 ∧
    (Slit.specification 7).projectedAtoms = 7 := by
  have hbuild : build (Slit.observation 7 ⟨[]⟩) (Slit.calculator 7) = .ok (Slit.specification 7) := by
    decide +kernel
  obtain ⟨-, -, hgroups, -, -, hprojected⟩ := projectedAtoms_exact (Slit.observation 7 ⟨[]⟩)
    (Slit.calculator 7) (Slit.specification 7) hbuild
  have hthree : (Slit.specification 7).science.groupCount = 3 := by decide +kernel
  exact ⟨hbuild, hthree, (hgroups .gmos).symm.trans hthree, by decide +kernel,
    hprojected.trans (by decide +kernel)⟩

end Specification
end Observing
