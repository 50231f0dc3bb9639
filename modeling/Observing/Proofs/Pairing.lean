import Observing.Proofs.Blocks

/-!
# How dithers and offsets are paired

Dithers and offsets are walked in cycles of their own, so that an adjustment is a pair of places, one in
each cycle.  The pairs come round together after the least common multiple of the two lengths.  Until
then every pair whose places agree modulo the greatest common divisor is met once, and no other pair
ever is.

* `LongSlitPlan.pair`           the places of an adjustment in the two cycles;
* `mod_adjustmentCount_iff`     atoms of one group have the same pair of places;
* `exists_pair_iff`             which pairs are met;
* `count_pair`                  how often, in as many atoms in a row as there are adjustments;
* `LongSlitPlan.pairs_exact`    groups, pairs and adjustments.
-/

namespace Observing
namespace LongSlitPlan

/-- The length of the cycle of dithers.  No dithers at all count as one. -/
def ditherCount (s : LongSlitPlan) : Nat := max s.dithers.length 1

/-- The length of the cycle of offsets.  No offsets at all count as one. -/
def offsetCount (s : LongSlitPlan) : Nat := max s.offsets.length 1

/-- The places in the cycles of dithers and of offsets that go into an adjustment. -/
def pair (s : LongSlitPlan) (k : Nat) : Nat × Nat := (k % s.ditherCount, k % s.offsetCount)

variable {s : LongSlitPlan}

theorem ditherCount_pos (s : LongSlitPlan) : 0 < s.ditherCount := lt_max_of_lt_right Nat.one_pos

theorem offsetCount_pos (s : LongSlitPlan) : 0 < s.offsetCount := lt_max_of_lt_right Nat.one_pos

theorem adjustmentCount_pos (s : LongSlitPlan) : 0 < s.adjustmentCount :=
  Nat.lcm_pos s.ditherCount_pos s.offsetCount_pos

/-! ## Pairs come round -/

/-- Two atoms are of one group exactly when they have the same place in each of the two cycles. -/
theorem mod_adjustmentCount_iff {j k : Nat} :
    j % s.adjustmentCount = k % s.adjustmentCount ↔ s.pair j = s.pair k := by
  rw [pair, pair, Prod.mk.injEq]
  constructor
  · intro h
    exact ⟨Nat.ModEq.of_dvd (Nat.dvd_lcm_left _ _) h, Nat.ModEq.of_dvd (Nat.dvd_lcm_right _ _) h⟩
  · rintro ⟨hdither, hoffset⟩
    exact Nat.mod_lcm hdither hoffset

theorem pair_mod (s : LongSlitPlan) (j : Nat) : s.pair (j % s.adjustmentCount) = s.pair j :=
  mod_adjustmentCount_iff.1 (Nat.mod_mod j _)

/-- The adjustment is a matter of the pair of places. -/
theorem adjustment_eq (s : LongSlitPlan) (k : Nat) : s.adjustment k =
    ⟨(s.dithers[(s.pair k).1]?).getD 0, (s.offsets[(s.pair k).2]?).getD 0⟩ := rfl

theorem adjustment_mod (s : LongSlitPlan) (j : Nat) :
    s.adjustment (j % s.adjustmentCount) = s.adjustment j := by
  rw [adjustment_eq, pair_mod, ← adjustment_eq]

/-! ## Which pairs are met -/

/-- A pair of places is met exactly when the places agree modulo the greatest common divisor of the
lengths of the cycles. -/
theorem exists_pair_iff {a b : Nat} : (∃ k, s.pair k = (a, b)) ↔
    a < s.ditherCount ∧ b < s.offsetCount ∧ a ≡ b [MOD s.ditherCount.gcd s.offsetCount] := by
  constructor
  · rintro ⟨k, hk⟩
    obtain ⟨rfl, rfl⟩ := Prod.mk.inj hk
    refine ⟨Nat.mod_lt k s.ditherCount_pos, Nat.mod_lt k s.offsetCount_pos, ?_⟩
    calc k % s.ditherCount
        ≡ k [MOD s.ditherCount.gcd s.offsetCount] :=
          (Nat.mod_modEq k _).of_dvd (Nat.gcd_dvd_left _ _)
      _ ≡ k % s.offsetCount [MOD s.ditherCount.gcd s.offsetCount] :=
          ((Nat.mod_modEq k _).of_dvd (Nat.gcd_dvd_right _ _)).symm
  · rintro ⟨ha, hb, hab⟩
    obtain ⟨k, hdither, hoffset⟩ := Nat.chineseRemainder' hab
    refine ⟨k, Prod.ext ?_ ?_⟩
    · exact Eq.trans hdither (Nat.mod_eq_of_lt ha)
    · exact Eq.trans hoffset (Nat.mod_eq_of_lt hb)

/-- Of as many atoms in a row as there are adjustments, one has a pair that is met at all. -/
theorem count_pair (s : LongSlitPlan) (start a b : Nat) :
    ((List.range' start s.adjustmentCount).map s.pair).count (a, b) =
      if a < s.ditherCount ∧ b < s.offsetCount ∧ a ≡ b [MOD s.ditherCount.gcd s.offsetCount] then 1
      else 0 := by
  rw [List.count, List.countP_map]
  split
  · next hmet =>
    obtain ⟨k, hk⟩ := exists_pair_iff.2 hmet
    have hone := countP_mod_eq_one (Nat.mod_lt k s.adjustmentCount_pos) start
    refine Eq.trans (List.countP_congr fun j _ => ?_) hone
    rw [Function.comp_apply, beq_iff_eq, decide_eq_true_eq, mod_adjustmentCount_iff, hk]
  · next hnot =>
    rw [List.countP_eq_zero]
    intro j _ hj
    exact hnot (exists_pair_iff.1 ⟨j, beq_iff_eq.1 hj⟩)

/-! ## Atoms -/

/-- An atom has the pair of places of its position, and the dither and the offset at these. -/
theorem atom_pair (s : LongSlitPlan) (j : Nat) :
    s.pair (s.atom j).group = (j % s.ditherCount, j % s.offsetCount) ∧
    (s.atom j).base = s.template.dithered (s.adjustment j).dither ∧
    (s.atom j).atom.description =
      some ((s.adjustment j).dither.text ++ ", " ++ (s.adjustment j).offset.text) := by
  refine ⟨s.pair_mod j, ?_, ?_⟩
  · rw [← adjustment_mod]
    rfl
  · rw [← adjustment_mod]
    rfl

/-- How dithers and offsets are paired, for cycles of any lengths.  Two atoms are of one group exactly
when they stand at the same place of each cycle.  An atom has the dither and the offset at its pair of
places.  As many atoms in a row as there are adjustments use every pair of places that agree modulo the
greatest common divisor of the lengths once, and no other pair; that is every pair of the cross product
where the lengths are coprime.  And adjustments come round. -/
theorem pairs_exact (s : LongSlitPlan) :
    (∀ j j', (s.atom j).group = (s.atom j').group ↔
      j % s.ditherCount = j' % s.ditherCount ∧ j % s.offsetCount = j' % s.offsetCount) ∧
    (∀ j, s.pair (s.atom j).group = (j % s.ditherCount, j % s.offsetCount) ∧
      (s.atom j).base = s.template.dithered (s.adjustment j).dither ∧
      (s.atom j).atom.description =
        some ((s.adjustment j).dither.text ++ ", " ++ (s.adjustment j).offset.text) ∧
      (s.adjustment j).dither = (s.dithers[j % s.ditherCount]?).getD 0 ∧
      (s.adjustment j).offset = (s.offsets[j % s.offsetCount]?).getD 0) ∧
    (∀ start a b,
      ((List.range' start s.adjustmentCount).map fun j => s.pair (s.atom j).group).count (a, b) =
        if a < s.ditherCount ∧ b < s.offsetCount ∧ a ≡ b [MOD s.ditherCount.gcd s.offsetCount] then 1
        else 0) ∧
    (s.ditherCount.Coprime s.offsetCount → ∀ start, ∀ a < s.ditherCount, ∀ b < s.offsetCount,
      ((List.range' start s.adjustmentCount).map fun j => s.pair (s.atom j).group).count (a, b) = 1) ∧
    ∀ j, s.adjustment (j % s.adjustmentCount) = s.adjustment j := by
  have hwindow : ∀ start, ((List.range' start s.adjustmentCount).map fun j =>
      s.pair (s.atom j).group) = (List.range' start s.adjustmentCount).map s.pair :=
    fun start => List.map_congr_left fun j _ => s.pair_mod j
  refine ⟨fun j j' => ?_, fun j => ?_, fun start a b => ?_, ?_, s.adjustment_mod⟩
  · exact mod_adjustmentCount_iff.trans Prod.mk_inj
  · obtain ⟨hpair, hbase, hdescription⟩ := s.atom_pair j
    exact ⟨hpair, hbase, hdescription, rfl, rfl⟩
  · rw [hwindow]
    exact s.count_pair start a b
  · intro hcoprime start a ha b hb
    have hab : a ≡ b [MOD s.ditherCount.gcd s.offsetCount] := by
      rw [hcoprime.gcd_eq_one]
      exact Nat.modEq_one
    rw [hwindow, count_pair, if_pos ⟨ha, hb, hab⟩]

end LongSlitPlan

/-! ## Three dithers with two offsets, four with six -/

/-- The lengths of the cycles share a factor. -/
def Slit.sharing : LongSlitPlan :=
  { Slit.cycled with
    dithers := [0, .ofNanometers 5, .ofNanometers (-5), .ofNanometers 10]
    offsets := [0, .ofArcseconds 5, .ofArcseconds 10, .ofArcseconds 15, .ofArcseconds 20,
      .ofArcseconds 25] }

/-- Three dithers meet each of two offsets in six atoms.  Four dithers and six offsets come round after
twelve: the last dither goes with the fourth offset, and never with the first. -/
theorem LongSlitPlan.pairs_exact_sharing :
    Slit.cycled.ditherCount.Coprime Slit.cycled.offsetCount ∧
    ((List.range' 4 6).map fun j => Slit.cycled.pair (Slit.cycled.atom j).group).count (2, 0) = 1 ∧
    ((List.range' 7 12).map fun j => Slit.sharing.pair (Slit.sharing.atom j).group).count (3, 3) = 1 ∧
    ((List.range' 7 12).map fun j => Slit.sharing.pair (Slit.sharing.atom j).group).count (3, 0) = 0 ∧
    (Slit.sharing.atom 3).group ≠ (Slit.sharing.atom 9).group ∧
    (Slit.sharing.atom 3).group = (Slit.sharing.atom 15).group := by
  have hcoprime : Slit.cycled.ditherCount.Coprime Slit.cycled.offsetCount := by decide
  obtain ⟨-, -, -, hcross, -⟩ := LongSlitPlan.pairs_exact Slit.cycled
  obtain ⟨hgroup, -, hcount, -, -⟩ := LongSlitPlan.pairs_exact Slit.sharing
  refine ⟨hcoprime, hcross hcoprime 4 2 (by decide) 0 (by decide), hcount 7 3 3, hcount 7 3 0,
    fun h => ?_, (hgroup 3 15).2 (by decide)⟩
  exact absurd ((hgroup 3 9).1 h).1 (by decide)

end Observing
