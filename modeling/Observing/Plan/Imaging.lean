import Observing.Plan.LongSlit

/-!
# Imaging plans

Exposures through one filter after another.  Each atom is one pass over the list of offsets, the last
of a filter as far as exposures are left.

* `ImagingPlan.passAtom`  the atom of one pass with one filter;
* `ImagingPlan.atoms`     the passes of all filters.

Main statement: `firstAtoms` are the first of all atoms (`firstAtoms_eq_take`).
-/

namespace Observing

structure ImagingPlan where
  filters : List (Gmos.Filter × InstrumentConfig)
  offsets : List Offset
  exposureCount : Nat
  observeClass : ObserveClass
deriving DecidableEq

namespace ImagingPlan

/-- The number of passes over the offsets with each filter. -/
def passes (s : ImagingPlan) : Nat :=
  ceilDiv s.exposureCount s.offsets.length

def atomCount (s : ImagingPlan) : Nat :=
  s.filters.length * s.passes

/-- The number of runs of atoms of one filter. -/
def groupCount (s : ImagingPlan) : Nat :=
  min s.filters.length s.atomCount

/-- The atom of one pass with the filter at an index. -/
def passAtom (s : ImagingPlan) (f : (Gmos.Filter × InstrumentConfig) × Nat) (pass : Nat) :
    PlannedAtom :=
  let ((filter, config), index) := f
  let left := s.exposureCount - pass * s.offsets.length
  { group := index
    base := config
    atom :=
      ⟨some filter.text, .science,
        (s.offsets.take left).map fun o => ⟨config, .onSky o, s.observeClass, .disabled⟩⟩ }

def filterAtoms (s : ImagingPlan) (f : (Gmos.Filter × InstrumentConfig) × Nat) :
    List PlannedAtom :=
  (List.range s.passes).map (s.passAtom f)

def atoms (s : ImagingPlan) : List PlannedAtom :=
  s.filters.zipIdx.flatMap s.filterAtoms

def firstOf (s : ImagingPlan) :
    (n : Nat) → List ((Gmos.Filter × InstrumentConfig) × Nat) → List PlannedAtom
  | _, [] => []
  | n, f :: fs =>
    (List.range (min n s.passes)).map (s.passAtom f) ++ s.firstOf (n - s.passes) fs

def firstAtoms (s : ImagingPlan) (n : Nat) : List PlannedAtom :=
  s.firstOf n s.filters.zipIdx

theorem firstOf_eq_take (s : ImagingPlan) (n : Nat)
    (fs : List ((Gmos.Filter × InstrumentConfig) × Nat)) :
    s.firstOf n fs = (fs.flatMap s.filterAtoms).take n := by
  induction fs generalizing n with
  | nil => simp [firstOf]
  | cons f fs ih =>
    rw [firstOf, ih, List.flatMap_cons, List.take_append, filterAtoms, List.length_map,
      List.length_range, ← List.map_take, List.take_range]

theorem firstAtoms_eq_take (s : ImagingPlan) (n : Nat) : s.firstAtoms n = s.atoms.take n :=
  s.firstOf_eq_take n _

theorem length_atoms (s : ImagingPlan) : s.atoms.length = s.atomCount := by
  have hsum (fs : List ((Gmos.Filter × InstrumentConfig) × Nat)) :
      (fs.flatMap s.filterAtoms).length = fs.length * s.passes := by
    induction fs with
    | nil => simp
    | cons f fs ih => simp [filterAtoms, ih, Nat.add_mul, Nat.add_comm]
  rw [atoms, hsum, List.length_zipIdx, atomCount]

end ImagingPlan
end Observing
