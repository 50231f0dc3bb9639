import Observing.Plan.LongSlit

/-!
# Nod plans

Exposures with the telescope nodding along the slit.  Each atom is one full cycle over the list of
offsets, which is never shortened.

* `NodPlan.cycle`  the steps of a cycle;
* `NodPlan.atoms`  the same atom as often as there are cycles.
-/

namespace Observing

structure NodPlan where
  template : InstrumentConfig
  offsets : List Angle
  cycles : Nat
  observeClass : ObserveClass
deriving DecidableEq

namespace NodPlan

def cycle (s : NodPlan) : List ProtoStep :=
  s.offsets.map fun q => ⟨s.template, .onSky (.alongSlit q), s.observeClass, .disabled⟩

def cycleAtom (s : NodPlan) : PlannedAtom where
  group := 0
  base := s.template
  atom :=
    ⟨some ("q " ++ String.intercalate ", " (s.offsets.map (·.arcseconds))), .science, s.cycle⟩

def atoms (s : NodPlan) : List PlannedAtom := List.replicate s.cycles s.cycleAtom

def groupCount (s : NodPlan) : Nat := min s.cycles 1

def firstAtoms (s : NodPlan) (n : Nat) : List PlannedAtom :=
  List.replicate (min n s.cycles) s.cycleAtom

theorem firstAtoms_eq_take (s : NodPlan) (n : Nat) : s.firstAtoms n = s.atoms.take n := by
  rw [firstAtoms, atoms, List.take_replicate]

end NodPlan
end Observing
