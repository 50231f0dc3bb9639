import Observing.Proofs.Ceiling
import Observing.Proofs.Passes

/-!
# Limits that are raised

An observation is accepted when its plan and its cycle are within the limits, so that one expects a
higher limit to accept whatever a lower one did.  The minutes of the longest cycle are kept in a word of
64 bits and read with a sign.  Up to the greatest number with a sign, more minutes never allow less time;
beyond it they allow none, and only cycles that take no time at all are still accepted.

* `Limits.micros_longestCycle`       the longest cycle, for every word;
* `TimeSpan.ofMinutes_stepwise`      stopping at the end of the range after every product changes nothing;
* `Engine.specification_eq_ok_iff`   which observations are accepted;
* `Engine.Raises`                    no limit is lower;
* `Engine.specification_raised`      what becomes of an accepted observation when limits are raised.
-/

namespace Observing

/-! ## The longest cycle -/

theorem Ticks.val_ofWord {n : ℕ} (h : n < 2 ^ 64) :
    (ofWord n).val = if n < 2 ^ 63 then (n : ℤ) else n - 2 ^ 64 := by
  have hbmod : Int.bmod n 18446744073709551616 = if n < 2 ^ 63 then (n : ℤ) else n - 2 ^ 64 := by
    rw [Int.bmod, Int.emod_eq_of_lt (by omega) (by omega)]
    split <;> split <;> omega
  rw [ofWord, hbmod, Ticks.val_clamp_eq_iff]
  split <;> omega

theorem TimeSpan.micros_ofMinutes (n : ℤ) :
    (ofMinutes n).micros = min (n * 60000000).toNat Ticks.greatest := by
  rw [ofMinutes, ofSeconds, micros_ofMicros]
  have hproduct : n * 60 * 1000000 = n * 60000000 := by omega
  rw [hproduct]

/-- Minutes become seconds and then microseconds.  It does not matter whether the products are stopped at
the ends of the range one by one, or the span once at the end. -/
theorem TimeSpan.ofMinutes_stepwise (n : ℤ) :
    ofMicros (Ticks.clamp ((Ticks.clamp (n * 60)).val * 1000000)).val = ofMinutes n := by
  apply TimeSpan.ext
  rw [micros_ofMinutes, micros_ofMicros, Ticks.val_clamp, Ticks.val_clamp, Ticks.greatest]
  omega

namespace Limits

variable {l l' : Limits}

theorem micros_longestCycle (h : l.cycleMinutes < 2 ^ 64) : l.longestCycle.micros =
    if l.cycleMinutes < 2 ^ 63 then min (l.cycleMinutes * 60000000) Ticks.greatest else 0 := by
  rw [longestCycle, TimeSpan.micros_ofMinutes, Ticks.val_ofWord h]
  by_cases hsign : l.cycleMinutes < 2 ^ 63
  · rw [if_pos hsign, if_pos hsign]
    omega
  · have hnegative : ((l.cycleMinutes : ℤ) - 2 ^ 64) * 60000000 ≤ 0 := by omega
    rw [if_neg hsign, if_neg hsign, Int.toNat_of_nonpos hnegative, Nat.zero_min]

/-- More minutes never allow less time, as long as they are read without a sign. -/
theorem micros_longestCycle_mono (hle : l.cycleMinutes ≤ l'.cycleMinutes)
    (h : l'.cycleMinutes < 2 ^ 63) : l.longestCycle.micros ≤ l'.longestCycle.micros := by
  rw [micros_longestCycle (by omega), micros_longestCycle (by omega), if_pos (by omega), if_pos h]
  omega

/-- Where the minutes are read as a negative number, no time is left. -/
theorem micros_longestCycle_of_sign (hsign : 2 ^ 63 ≤ l.cycleMinutes) (h : l.cycleMinutes < 2 ^ 64) :
    l.longestCycle.micros = 0 := by
  rw [micros_longestCycle h, if_neg (by omega)]

end Limits

/-! ## What is accepted -/

namespace Engine

variable {e e' : Engine} {o : Observation} {s : Specification} {calculator : Calculator}
  {cycle : List ProtoStep}

/-- A specification is within the limits when its atoms and its cycle are. -/
structure Admits (e : Engine) (s : Specification) : Prop where
  atoms : s.projectedAtoms ≤ e.limits.atoms
  cycle : ∀ cycle, s.cycle = some cycle →
    (e.duration cycle).micros ≤ e.limits.longestCycle.micros

theorem overLimit?_eq_none_iff : e.overLimit? s = none ↔ e.Admits s := by
  constructor
  · intro hnone
    have hatoms : ¬e.limits.atoms < s.projectedAtoms := by
      intro hlt
      rw [overLimit?, if_pos hlt] at hnone
      cases hnone
    refine ⟨Nat.le_of_not_lt hatoms, fun cycle hcycle => Nat.le_of_not_lt fun hlt => ?_⟩
    have hlong : e.limits.longestCycle < e.duration cycle := hlt
    rw [overLimit?, if_neg hatoms, hcycle] at hnone
    dsimp only at hnone
    rw [if_pos hlong] at hnone
    cases hnone
  · intro hadmits
    rw [overLimit?, if_neg (Nat.not_lt_of_le hadmits.atoms)]
    cases hcycle : s.cycle with
    | none => rfl
    | some cycle => exact if_neg (Nat.not_lt_of_le (hadmits.cycle cycle hcycle))

theorem specification_eq_ok_iff : e.specification o calculator = .ok s ↔
    Specification.build o calculator = .ok s ∧ e.Admits s := by
  constructor
  · intro hs
    obtain ⟨hbuild, hnone⟩ := overLimit?_eq_none hs
    exact ⟨hbuild, overLimit?_eq_none_iff.1 hnone⟩
  · rintro ⟨hbuild, hadmits⟩
    rw [specification, hbuild]
    dsimp only
    rw [overLimit?_eq_none_iff.2 hadmits]

/-- A cycle that is too long is refused with its time and the minutes that were given. -/
theorem specification_of_longer (hbuild : Specification.build o calculator = .ok s)
    (hatoms : s.projectedAtoms ≤ e.limits.atoms) (hcycle : s.cycle = some cycle)
    (hlong : e.limits.longestCycle.micros < (e.duration cycle).micros) :
    e.specification o calculator =
      .error ⟨o.id, .cycleTooLong (e.duration cycle).minutes e.limits.cycleMinutes⟩ := by
  have hover : e.overLimit? s =
      some (.cycleTooLong (e.duration cycle).minutes e.limits.cycleMinutes) := by
    rw [overLimit?, if_neg (Nat.not_lt_of_le hatoms), hcycle]
    exact if_pos hlong
  rw [specification, hbuild]
  dsimp only
  rw [hover]

/-! ## Raised limits -/

/-- No limit is lower, and the costs are the same. -/
structure Raises (e e' : Engine) : Prop where
  atoms : e.limits.atoms ≤ e'.limits.atoms
  cycleMinutes : e.limits.cycleMinutes ≤ e'.limits.cycleMinutes
  costs : e'.costs = e.costs

theorem Raises.duration (h : e.Raises e') (steps : List ProtoStep) :
    e'.duration steps = e.duration steps := by
  rw [Engine.duration, Engine.duration, h.costs]

/-- Raising limits and accepted observations.  One that was accepted is accepted again, with the same
specification, if the minutes allowed are read without a sign.  Otherwise it is accepted exactly when it
has no cycle that takes any time, and one that has is refused for that time. -/
theorem specification_raised (e e' : Engine) (o : Observation) (calculator : Calculator)
    (s : Specification) (hs : e.specification o calculator = .ok s) (hraises : e.Raises e')
    (hword : e'.limits.cycleMinutes < 2 ^ 64) :
    (e'.specification o calculator = .ok s ↔ e'.limits.cycleMinutes < 2 ^ 63 ∨
      ∀ cycle, s.cycle = some cycle → e.duration cycle = 0) ∧
    (∀ cycle, s.cycle = some cycle → e.duration cycle ≠ 0 → 2 ^ 63 ≤ e'.limits.cycleMinutes →
      e'.specification o calculator = .error
        ⟨o.id, .cycleTooLong (e.duration cycle).minutes e'.limits.cycleMinutes⟩) := by
  obtain ⟨hbuild, hadmits⟩ := specification_eq_ok_iff.1 hs
  have hatoms : s.projectedAtoms ≤ e'.limits.atoms := hadmits.atoms.trans hraises.atoms
  constructor
  · rw [specification_eq_ok_iff]
    constructor
    · rintro ⟨-, hadmits'⟩
      by_cases hsign : e'.limits.cycleMinutes < 2 ^ 63
      · exact .inl hsign
      · refine .inr fun cycle hcycle => TimeSpan.ext ?_
        have hle := hadmits'.cycle cycle hcycle
        rw [hraises.duration,
          Limits.micros_longestCycle_of_sign (Nat.le_of_not_lt hsign) hword] at hle
        exact Nat.eq_zero_of_le_zero hle
    · rintro (hsign | hzero)
      · refine ⟨hbuild, hatoms, fun cycle hcycle => ?_⟩
        rw [hraises.duration]
        exact (hadmits.cycle cycle hcycle).trans
          (Limits.micros_longestCycle_mono hraises.cycleMinutes hsign)
      · refine ⟨hbuild, hatoms, fun cycle hcycle => ?_⟩
        rw [hraises.duration, hzero cycle hcycle]
        exact Nat.zero_le _
  · intro cycle hcycle hne hsign
    rw [← hraises.duration] at hne ⊢
    refine specification_of_longer hbuild hatoms hcycle ?_
    rw [Limits.micros_longestCycle_of_sign hsign hword]
    exact Nat.pos_of_ne_zero fun hzero => hne (TimeSpan.ext hzero)

/-- Nodding is accepted with sixty minutes for a cycle, and refused with `2 ^ 63` minutes. -/
theorem specification_raised_nods :
    ∃ s, (⟨.standard, .standard⟩ : Engine).specification
        (Slit.inMode (.flamingos2LongSlit Slit.nods) 6) (Slit.calculator 6) = .ok s ∧
      (⟨{ Limits.standard with cycleMinutes := 2 ^ 63 }, .standard⟩ : Engine).specification
        (Slit.inMode (.flamingos2LongSlit Slit.nods) 6) (Slit.calculator 6) =
        .error ⟨"o", .cycleTooLong "5.43" (2 ^ 63)⟩ := by
  have hs : (⟨.standard, .standard⟩ : Engine).specification
      (Slit.inMode (.flamingos2LongSlit Slit.nods) 6) (Slit.calculator 6) =
      .ok (.ofMode "o" none (Slit.times 6) (.flamingos2LongSlit Slit.nods)) := by
    decide +kernel
  have hminutes : ((⟨.standard, .standard⟩ : Engine).duration (Specification.flamingosPlan Slit.nods
      (Slit.times 6) (.longSlit .flamingos2 none)).cycle).minutes = "5.43" := by
    decide +kernel
  obtain ⟨-, hrefused⟩ := specification_raised _
    ⟨{ Limits.standard with cycleMinutes := 2 ^ 63 }, .standard⟩ _ _ _ hs
    ⟨Nat.le_refl _, by decide, rfl⟩ (by decide)
  refine ⟨_, hs, ?_⟩
  rw [hrefused _ rfl (by decide +kernel) (by decide), hminutes]
  rfl

end Engine
end Observing
