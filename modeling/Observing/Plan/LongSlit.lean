import Observing.Calibration
import Observing.Plan.OffsetCycle

/-!
# Long slit plans

Exposures through a slit, in atoms of a fixed number.  Each atom has an adjustment: a wavelength
dither and an offset along the slit, both walked in cycles of their own.  Inside an atom the offsets
are walked on from that of the adjustment, in blocks as equal as possible.

* `LongSlitPlan.adjustment`   the dither and the offset of an atom;
* `LongSlitPlan.stepOffset`   the offset of a step inside an atom;
* `LongSlitPlan.atom`         the atom at a position.

Main statement: all atoms but the last are full (`length_steps`).
-/

namespace Observing

/-- A wavelength dither with an offset along the slit. -/
structure Adjustment where
  dither : Dither
  offset : Angle
deriving DecidableEq

structure LongSlitPlan where
  template : InstrumentConfig
  dithers : List Dither
  offsets : List Angle
  exposureCount : Nat
  exposuresPerAtom : Nat
  observeClass : ObserveClass
deriving DecidableEq

/-- The least whole number that is not below `n / d`, none where `d` is none. -/
def ceilDiv (n d : Nat) : Nat :=
  if d = 0 then 0 else (n + d - 1) / d

namespace LongSlitPlan

/-- The number of atoms after which adjustments come round again. -/
def adjustmentCount (s : LongSlitPlan) : Nat :=
  Nat.lcm (max s.dithers.length 1) (max s.offsets.length 1)

def adjustment (s : LongSlitPlan) (k : Nat) : Adjustment where
  dither := (s.dithers[k % max s.dithers.length 1]?).getD 0
  offset := (s.offsets[k % max s.offsets.length 1]?).getD 0

/-- The offset of step `i` of an atom with adjustment `k`. -/
def stepOffset (s : LongSlitPlan) (k i : Nat) : Angle :=
  let count := s.offsets.length
  (s.offsets[(k + i * count / max s.exposuresPerAtom 1) % count]?).getD 0

def atomCount (s : LongSlitPlan) : Nat :=
  ceilDiv s.exposureCount s.exposuresPerAtom

/-- The number of runs of atoms of one adjustment. -/
def groupCount (s : LongSlitPlan) : Nat :=
  if s.adjustmentCount = 1 then min s.atomCount 1 else s.atomCount

/-- The number of exposures in the atom at a position. -/
def stepCount (s : LongSlitPlan) (j : Nat) : Nat :=
  min ((j + 1) * s.exposuresPerAtom) s.exposureCount - j * s.exposuresPerAtom

def step (s : LongSlitPlan) (group i : Nat) : ProtoStep :=
  ⟨s.template.dithered (s.adjustment group).dither,
    .onSky (.alongSlit (s.stepOffset group i)), s.observeClass, .disabled⟩

def atom (s : LongSlitPlan) (j : Nat) : PlannedAtom :=
  let group := j % s.adjustmentCount
  let adjustment := s.adjustment group
  { group
    base := s.template.dithered adjustment.dither
    atom :=
      ⟨some (adjustment.dither.text ++ ", " ++ adjustment.offset.text), .science,
        (List.range (s.stepCount j)).map (s.step group)⟩ }

def atoms (s : LongSlitPlan) : List PlannedAtom :=
  (List.range s.atomCount).map s.atom

def firstAtoms (s : LongSlitPlan) (n : Nat) : List PlannedAtom :=
  (List.range (min n s.atomCount)).map s.atom

theorem firstAtoms_eq_take (s : LongSlitPlan) (n : Nat) : s.firstAtoms n = s.atoms.take n := by
  rw [firstAtoms, atoms, ← List.map_take, List.take_range]

theorem length_atoms (s : LongSlitPlan) : s.atoms.length = s.atomCount := by
  simp [atoms]

/-- An atom whose exposures all lie within the count is full. -/
theorem length_steps (s : LongSlitPlan) {j : Nat}
    (h : (j + 1) * s.exposuresPerAtom ≤ s.exposureCount) :
    (s.atom j).atom.steps.length = s.exposuresPerAtom := by
  simp only [atom, stepCount, List.length_map, List.length_range, Nat.min_eq_left h]
  rw [Nat.succ_mul]; omega

end LongSlitPlan
end Observing
