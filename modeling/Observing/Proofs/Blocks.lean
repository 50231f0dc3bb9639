import Mathlib.Data.Nat.ModEq
import Observing.Proofs.Layout

/-!
# Offsets inside an atom

An atom walks the cycle of offsets from the position of its adjustment on, once around at most.  All
positions have their share of its exposures, equal but for one exposure, and atoms that begin one
position after the other even out what is left.

* `LongSlitPlan.block`       how many positions an atom has walked at a step;
* `LongSlitPlan.positions`   the positions at which a full atom exposes;
* `count_block`              the steps of one block;
* `count_window`             the steps at one position in as many atoms as there are positions;
* `LongSlitPlan.positions_balanced`   the shares of all positions.
-/

namespace Observing

/-! ## Quotients -/

/-- Rounding up a sum: what is added counts with its quotient rounded down or rounded up. -/
theorem ceilDiv_add_cases {d : Nat} (hd : 0 < d) (a n : Nat) :
    ceilDiv (a + n) d = ceilDiv a d + n / d ∨ ceilDiv (a + n) d = ceilDiv a d + ceilDiv n d := by
  have hne : d ≠ 0 := Nat.ne_of_gt hd
  have hlt : n % d < d := Nat.mod_lt n hd
  have hwhole : ∀ x, ceilDiv (x + n) d = ceilDiv (x + n % d) d + n / d := by
    intro x
    have hsum : x + n + d - 1 = x + n % d + d - 1 + d * (n / d) := by
      have hn := Nat.mod_add_div n d
      omega
    rw [ceilDiv, if_neg hne, ceilDiv, if_neg hne, hsum, Nat.add_mul_div_left _ _ hd]
  rcases Nat.eq_zero_or_pos (n % d) with hzero | hpos
  · rw [hwhole a, hzero, Nat.add_zero]
    exact .inl rfl
  · have hone : ceilDiv (n % d) d = 1 := by
      rw [ceilDiv, if_neg hne]
      exact Nat.div_eq_of_lt_le (by omega) (by omega)
    have hup : ceilDiv n d = 1 + n / d := by
      have h := hwhole 0
      rwa [Nat.zero_add, Nat.zero_add, hone] at h
    have hlow : ceilDiv a d ≤ ceilDiv (a + n % d) d := by
      rw [ceilDiv, if_neg hne, ceilDiv, if_neg hne]
      exact Nat.div_le_div_right (by omega)
    have hhigh : ceilDiv (a + n % d) d ≤ ceilDiv a d + 1 := by
      rw [ceilDiv, if_neg hne, ceilDiv, if_neg hne, ← Nat.add_div_right _ hd]
      exact Nat.div_le_div_right (by omega)
    have ha := hwhole a
    omega

theorem countP_lt_range (b n : Nat) : (List.range n).countP (· < b) = min b n := by
  induction n with
  | zero => simp
  | succ n ih =>
    rw [List.range_succ, List.countP_append, ih, List.countP_singleton]
    split <;> simp_all <;> omega

/-- Numbers in a row have each remainder once.  The next row gives up the first of them, and takes in
one of the same remainder. -/
theorem countP_mod_eq_one {q p : Nat} (hp : p < q) (a : Nat) :
    (List.range' a q).countP (fun k => k % q = p) = 1 := by
  induction a with
  | zero =>
    have hone : (List.range q).countP (· == p) = 1 := by
      rw [← List.count, List.count_range, if_pos hp]
    rw [← List.range_eq_range', ← hone]
    refine List.countP_congr fun k hk => ?_
    rw [Nat.mod_eq_of_lt (List.mem_range.1 hk)]
    simp
  | succ a ih =>
    obtain ⟨n, rfl⟩ : ∃ n, q = n + 1 := ⟨q - 1, by omega⟩
    rw [List.range'_succ, List.countP_cons] at ih
    rw [List.range'_concat, List.countP_append, List.countP_singleton]
    have hsame : (a + 1 + 1 * n) % (n + 1) = a % (n + 1) := by
      rw [show a + 1 + 1 * n = a + (n + 1) by omega, Nat.add_mod_right]
    rw [hsame]
    exact ih

namespace LongSlitPlan

variable {s : LongSlitPlan}

/-! ## Blocks -/

/-- How many positions an atom has walked at a step. -/
def block (s : LongSlitPlan) (i : Nat) : Nat := i * s.offsets.length / s.exposuresPerAtom

/-- The position in the cycle of offsets at which a step of an atom with the given adjustment exposes. -/
def position (s : LongSlitPlan) (k i : Nat) : Nat := (k + s.block i) % s.offsets.length

/-- The positions at which the steps of a full atom expose. -/
def positions (s : LongSlitPlan) (k : Nat) : List Nat :=
  (List.range s.exposuresPerAtom).map (s.position k)

theorem block_zero (s : LongSlitPlan) : s.block 0 = 0 := by
  rw [block, Nat.zero_mul, Nat.zero_div]

theorem block_mono (s : LongSlitPlan) {i j : Nat} (h : i ≤ j) : s.block i ≤ s.block j :=
  Nat.div_le_div_right (Nat.mul_le_mul_right _ h)

theorem position_lt_length (hoffsets : 0 < s.offsets.length) (k i : Nat) :
    s.position k i < s.offsets.length := Nat.mod_lt _ hoffsets

section Shares

variable (hatom : 0 < s.exposuresPerAtom) (hoffsets : 0 < s.offsets.length)
include hatom hoffsets

theorem block_lt_iff {i m : Nat} :
    s.block i < m ↔ i < ceilDiv (m * s.exposuresPerAtom) s.offsets.length := by
  rw [block, Nat.div_lt_iff_lt_mul hatom, lt_ceilDiv hoffsets]

/-- The atom does not come round to its first position again. -/
theorem block_lt {i : Nat} (hi : i < s.exposuresPerAtom) : s.block i < s.offsets.length := by
  rw [block, Nat.div_lt_iff_lt_mul hatom, Nat.mul_comm]
  exact Nat.mul_lt_mul_of_pos_left hi hoffsets

/-- The steps of a block are those from one rounded quotient to the next. -/
theorem count_block {m : Nat} (hm : m < s.offsets.length) :
    (List.range s.exposuresPerAtom).countP (fun i => s.block i = m) =
      ceilDiv ((m + 1) * s.exposuresPerAtom) s.offsets.length -
        ceilDiv (m * s.exposuresPerAtom) s.offsets.length := by
  have hbelow : ∀ l ≤ s.offsets.length,
      (List.range s.exposuresPerAtom).countP (fun i => s.block i < l) =
        ceilDiv (l * s.exposuresPerAtom) s.offsets.length := by
    intro l hl
    simp only [block_lt_iff hatom hoffsets]
    rw [countP_lt_range, Nat.min_eq_left]
    refine Nat.le_of_not_lt fun hlt => ?_
    rw [lt_ceilDiv hoffsets, Nat.mul_comm] at hlt
    exact absurd (Nat.mul_le_mul_right _ hl) (Nat.not_le.2 hlt)
  have hsplit : ∀ l : List Nat, l.countP (fun i => s.block i < m + 1) =
      l.countP (fun i => s.block i = m) + l.countP (fun i => s.block i < m) := by
    intro l
    induction l with
    | nil => rfl
    | cons i l ih =>
      simp only [List.countP_cons, ih, decide_eq_true_eq]
      split <;> split <;> split <;> omega
  rw [← hbelow (m + 1) hm, ← hbelow m hm.le, hsplit, Nat.add_sub_cancel]

/-- A block is as long as all exposures divided among the positions, rounded down or up. -/
theorem count_block_cases {m : Nat} (hm : m < s.offsets.length) :
    (List.range s.exposuresPerAtom).countP (fun i => s.block i = m) =
        s.exposuresPerAtom / s.offsets.length ∨
      (List.range s.exposuresPerAtom).countP (fun i => s.block i = m) =
        ceilDiv s.exposuresPerAtom s.offsets.length := by
  rw [count_block hatom hoffsets hm, Nat.succ_mul]
  rcases ceilDiv_add_cases hoffsets (m * s.exposuresPerAtom) s.exposuresPerAtom with h | h
  · exact .inl (by rw [h, Nat.add_sub_cancel_left])
  · exact .inr (by rw [h, Nat.add_sub_cancel_left])

/-! ## Positions -/

/-- The steps at a position are those of one block. -/
theorem exists_block (k : Nat) {p : Nat} (hp : p < s.offsets.length) :
    ∃ m < s.offsets.length, ∀ i < s.exposuresPerAtom, s.position k i = p ↔ s.block i = m := by
  have hk : k % s.offsets.length < s.offsets.length := Nat.mod_lt k hoffsets
  obtain ⟨m, hm, hkm⟩ : ∃ m < s.offsets.length, k + m ≡ p [MOD s.offsets.length] := by
    refine ⟨(p + (s.offsets.length - k % s.offsets.length)) % s.offsets.length,
      Nat.mod_lt _ hoffsets, ?_⟩
    calc k + (p + (s.offsets.length - k % s.offsets.length)) % s.offsets.length
        ≡ k % s.offsets.length + (p + (s.offsets.length - k % s.offsets.length))
          [MOD s.offsets.length] := (Nat.mod_modEq _ _).symm.add (Nat.mod_modEq _ _)
      _ = p + s.offsets.length := by omega
      _ ≡ p [MOD s.offsets.length] := Nat.add_modEq_right
  refine ⟨m, hm, fun i hi => ?_⟩
  have hblock : s.block i < s.offsets.length := block_lt hatom hoffsets hi
  rw [position, ← Nat.mod_eq_of_lt hp]
  constructor
  · intro h
    exact Nat.ModEq.eq_of_lt_of_lt (Nat.ModEq.add_left_cancel' k (h.trans hkm.symm)) hblock hm
  · rintro rfl
    exact hkm

/-- Every position has its share of the steps of an atom. -/
theorem count_positions (k : Nat) {p : Nat} (hp : p < s.offsets.length) :
    (s.positions k).count p = s.exposuresPerAtom / s.offsets.length ∨
      (s.positions k).count p = ceilDiv s.exposuresPerAtom s.offsets.length := by
  obtain ⟨m, hm, hiff⟩ := exists_block hatom hoffsets k hp
  have hcount : (s.positions k).count p =
      (List.range s.exposuresPerAtom).countP (fun i => s.block i = m) := by
    rw [positions, List.count, List.countP_map]
    refine List.countP_congr fun i hi => ?_
    simpa using hiff i (List.mem_range.1 hi)
  rw [hcount]
  exact count_block_cases hatom hoffsets hm

/-- Where there are no more steps than positions, no position is used twice. -/
theorem nodup_positions (hle : s.exposuresPerAtom ≤ s.offsets.length) (k : Nat) :
    (s.positions k).Nodup := by
  rw [List.nodup_iff_count_le_one]
  intro p
  rcases Nat.lt_or_ge p s.offsets.length with hp | hp
  · have hone : ceilDiv s.exposuresPerAtom s.offsets.length ≤ 1 := by
      refine Nat.le_of_not_lt fun hlt => ?_
      rw [lt_ceilDiv hoffsets] at hlt
      omega
    have hdown : s.exposuresPerAtom / s.offsets.length ≤ 1 :=
      Nat.div_le_of_le_mul (by omega)
    rcases count_positions hatom hoffsets k hp with h | h
    · exact h.trans_le hdown
    · exact h.trans_le hone
  · rw [List.count_eq_zero_of_not_mem]
    · exact Nat.zero_le 1
    · intro hmem
      obtain ⟨i, -, rfl⟩ := List.mem_map.1 hmem
      exact absurd (position_lt_length hoffsets k i) (Nat.not_lt.2 hp)

end Shares

/-! ## Atoms in a row -/

/-- The same step of as many atoms in a row as there are positions exposes at each of them once. -/
theorem count_position {p : Nat} (hp : p < s.offsets.length) (j i : Nat) :
    ((List.range' j s.offsets.length).map fun k => s.position k i).count p = 1 := by
  have hone := countP_mod_eq_one hp (s.block i + j)
  rw [← List.map_add_range', List.countP_map] at hone
  rw [List.count, List.countP_map]
  refine Eq.trans (List.countP_congr fun k _ => ?_) hone
  simp [position, Nat.add_comm]

/-- In as many atoms in a row as there are positions, each of the first steps uses each position
once. -/
theorem count_window {p : Nat} (hp : p < s.offsets.length) (j n : Nat) :
    ((List.range' j s.offsets.length).flatMap fun k => (List.range n).map (s.position k)).count p =
      n := by
  induction n with
  | zero =>
    rw [List.count_eq_zero]
    simp
  | succ n ih =>
    simp only [List.range_succ, List.map_append, List.map_singleton]
    rw [← (List.flatMap_append_perm _ _ _).count_eq, List.count_append, ih, ← List.map_eq_flatMap,
      count_position hp j n]

/-! ## Offsets of exposures -/

/-- The offset of a step is the one at its position. -/
theorem stepOffset_position (hatom : 0 < s.exposuresPerAtom) (hoffsets : s.offsets ≠ []) (k i : Nat) :
    s.offsets[s.position k i]? = some (s.stepOffset k i) := by
  have hmax : max s.exposuresPerAtom 1 = s.exposuresPerAtom := Nat.max_eq_left hatom
  have hlt : s.position k i < s.offsets.length :=
    position_lt_length (List.length_pos_iff.2 hoffsets) k i
  rw [List.getElem?_eq_getElem hlt, stepOffset, hmax]
  show _ = some ((s.offsets[s.position k i]?).getD 0)
  rw [List.getElem?_eq_getElem hlt]
  rfl

/-- The steps of a full atom expose at its positions. -/
theorem stepConfig_positions (hatom : 0 < s.exposuresPerAtom) (hoffsets : s.offsets ≠ []) {j : Nat}
    (hfull : (s.atom j).atom.steps.length = s.exposuresPerAtom) :
    (s.atom j).atom.steps.map (·.stepConfig) =
      (s.positions j).map fun p => .onSky (.alongSlit ((s.offsets[p]?).getD 0)) := by
  rw [length_steps_atom] at hfull
  rw [atom, hfull, List.map_map, positions, List.map_map]
  refine List.map_congr_left fun i _ => ?_
  have hoffset : s.offsets[s.position j i]? = some (s.stepOffset (j % s.adjustmentCount) i) :=
    s.stepOffset_mod hoffsets hatom j i
  rw [Function.comp_apply, Function.comp_apply, hoffset]
  rfl

/-- Offsets inside an atom are balanced.  An atom starts at the position of its adjustment and walks on
through the cycle of offsets, without coming round to its start again.  Each position is used by as many
of its steps as fall to one position when they are divided, rounded down or up; so none is used twice
where there are no more steps than positions.  As many full atoms in a row as there are positions use
each position equally often. -/
theorem positions_balanced (s : LongSlitPlan) (hatom : 1 ≤ s.exposuresPerAtom)
    (hoffsets : s.offsets ≠ []) :
    (∀ k i, s.offsets[s.position k i]? = some (s.stepOffset k i)) ∧
    s.block 0 = 0 ∧ (∀ i j, i ≤ j → s.block i ≤ s.block j) ∧
    (∀ i < s.exposuresPerAtom, s.block i < s.offsets.length) ∧
    (∀ k, ∀ p < s.offsets.length,
      (s.positions k).count p = s.exposuresPerAtom / s.offsets.length ∨
        (s.positions k).count p = ceilDiv s.exposuresPerAtom s.offsets.length) ∧
    (s.exposuresPerAtom ≤ s.offsets.length → ∀ k, (s.positions k).Nodup) ∧
    (∀ j a, s.atoms[j]? = some a → a.atom.steps.length = s.exposuresPerAtom →
      a.atom.steps.map (·.stepConfig) =
        (s.positions j).map fun p => .onSky (.alongSlit ((s.offsets[p]?).getD 0))) ∧
    ∀ j, ∀ p < s.offsets.length,
      ((List.range' j s.offsets.length).flatMap s.positions).count p = s.exposuresPerAtom := by
  have hpos : 0 < s.offsets.length := List.length_pos_iff.2 hoffsets
  refine ⟨stepOffset_position hatom hoffsets, s.block_zero, fun i j => s.block_mono,
    fun i => block_lt hatom hpos, fun k p => count_positions hatom hpos k,
    fun hle => nodup_positions hatom hpos hle, ?_, fun j p hp => count_window hp j _⟩
  intro j a ha hfull
  obtain ⟨-, rfl⟩ := s.getElem?_atoms.1 ha
  exact stepConfig_positions hatom hoffsets hfull

end LongSlitPlan

/-! ## Four offsets, two exposures in each atom -/

/-- An atom has fewer steps than there are positions. -/
def Slit.sparse : LongSlitPlan :=
  { Slit.cycled with
    offsets := [.ofArcseconds 0, .ofArcseconds 5, .ofArcseconds 10, .ofArcseconds 15]
    exposuresPerAtom := 2 }

/-- The fourth atom starts at the last position and skips the first.  Four atoms in a row use the last
position twice. -/
theorem LongSlitPlan.positions_balanced_sparse :
    1 ≤ Slit.sparse.exposuresPerAtom ∧ Slit.sparse.offsets ≠ [] ∧
    Slit.sparse.positions 3 = [3, 1] ∧ (Slit.sparse.positions 3).Nodup ∧
    some (Slit.sparse.stepOffset 3 1) = some (.ofArcseconds 5) ∧
    ((List.range' 1 4).flatMap Slit.sparse.positions).count 3 = 2 := by
  obtain ⟨hoffset, -, -, -, -, hnodup, -, hwindow⟩ :=
    LongSlitPlan.positions_balanced Slit.sparse (by decide) (by decide)
  exact ⟨by decide, by decide, by decide, hnodup (by decide) 3, (hoffset 3 1).symm,
    hwindow 1 3 (by decide)⟩

end Observing
