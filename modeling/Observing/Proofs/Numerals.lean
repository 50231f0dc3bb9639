import Mathlib.Algebra.Order.Field.Rat
import Mathlib.Algebra.Order.Ring.Abs
import Mathlib.Data.List.Induction
import Mathlib.Data.List.TakeWhile
import Mathlib.Data.Nat.Digits.Defs
import Mathlib.Tactic.FieldSimp
import Mathlib.Tactic.Linarith
import Observing.Decimal

/-!
# The texts that are read as decimal numbers

A decimal text is at most one sign in front of digits, with a point before, among or behind them.
Every such text is read, as long as its number of ticks is in the range, and it is read exactly.  One kind
of text is read besides: behind the sign, the whole units may have a second one, which goes with
them alone, while the digits behind the point are added as they stand.  Two minus signs in front of
5.5 thus leave 4.5.

* `Decimal.Denotes`       the grammar, with the number that a text denotes;
* `Decimal.SignedTwice`   the texts with a second sign;
* `Decimal.Counts`        the ticks of a number;
* `magnitude?_eq_some_iff`   what is read behind the first sign;
* `read?_eq_some_iff`        what is read.
-/

namespace Observing
namespace Decimal

/-! ## The grammar -/

/-- A run of decimal digits. -/
def Digits (cs : List Char) : Prop := ∀ c ∈ cs, Text.isDigit c = true

/-- The number that digits denote by their places. -/
def placeValue (cs : List Char) : ℕ := Nat.ofDigits 10 (cs.reverse.map Text.digitValue)

/-- What may stand behind whole units: nothing, or a point and at most `places` digits. -/
inductive Fraction (places : ℕ) : List Char → ℚ → Prop
  | none : Fraction places [] 0
  | point {ds : List Char} (hds : Digits ds) (hlen : ds.length ≤ places) :
      Fraction places ('.' :: ds) (placeValue ds / 10 ^ ds.length)

/-- A number without a sign: one or more digits and what may stand behind them, or a point and one
or more digits. -/
inductive Numeral (places : ℕ) : List Char → ℚ → Prop
  | whole {ds cs : List Char} {x : ℚ} (hds : Digits ds) (hne : ds ≠ [])
      (hx : Fraction places cs x) : Numeral places (ds ++ cs) (placeValue ds + x)
  | fraction {ds : List Char} {x : ℚ} (hne : ds ≠ []) (hx : Fraction places ('.' :: ds) x) :
      Numeral places ('.' :: ds) x

/-- A sign, as a factor. -/
inductive Sign : Char → ℤ → Prop
  | plus : Sign '+' 1
  | minus : Sign '-' (-1)

/-- The number that a text denotes: one without a sign, or behind a single one. -/
inductive Denotes (places : ℕ) : List Char → ℚ → Prop
  | unsigned {cs : List Char} {x : ℚ} (hx : Numeral places cs x) : Denotes places cs x
  | signed {c : Char} {k : ℤ} {cs : List Char} {x : ℚ} (hc : Sign c k) (hx : Numeral places cs x) :
      Denotes places (c :: cs) (k * x)

/-- Whole units with a sign of their own, how many they are, and the number that is read. -/
inductive SignedUnits (places : ℕ) : List Char → ℕ → ℚ → Prop
  | mk {c : Char} {k : ℤ} {ds cs : List Char} {x : ℚ} (hc : Sign c k) (hds : Digits ds)
      (hne : ds ≠ []) (hx : Fraction places cs x) :
      SignedUnits places (c :: (ds ++ cs)) (placeValue ds) (k * placeValue ds + x)

/-- A second sign in front of the whole units. -/
inductive SignedTwice (places : ℕ) : List Char → ℕ → ℚ → Prop
  | mk {c : Char} {k : ℤ} {cs : List Char} {n : ℕ} {x : ℚ} (hc : Sign c k)
      (hx : SignedUnits places cs n x) : SignedTwice places (c :: cs) n (k * x)

/-- The ticks of a number, which may be up to the greatest one either way. -/
def Counts (places : ℕ) (x : ℚ) (t : Ticks) : Prop :=
  |x * 10 ^ places| ≤ Ticks.greatest ∧ (t.val : ℚ) = x * 10 ^ places

variable {places : ℕ} {cs ds : List Char} {c : Char} {k : ℤ} {x : ℚ} {t : Ticks}

/-! ## Digits and signs -/

theorem digitsValue_eq (cs : List Char) : Text.digitsValue cs = placeValue cs := by
  induction cs using List.reverseRecOn with
  | nil => rfl
  | append_singleton cs c ih =>
    rw [Text.digitsValue_concat, ih, placeValue, placeValue, List.reverse_append, List.map_append]
    exact Nat.add_comm _ _

theorem natural?_eq_some_iff {n : ℕ} :
    Text.natural? cs = some n ↔ Digits cs ∧ cs ≠ [] ∧ placeValue cs = n := by
  have hcond : (!cs.isEmpty && cs.all Text.isDigit) = true ↔ Digits cs ∧ cs ≠ [] := by
    rw [Bool.and_eq_true, List.all_eq_true, Bool.not_eq_true', List.isEmpty_eq_false_iff, and_comm]
    rfl
  rw [Text.natural?, Option.ite_none_right_eq_some, hcond, Option.some_inj, digitsValue_eq,
    and_assoc]

/-- No sign stands in front of the text. -/
def Unsigned (cs : List Char) : Prop := ∀ c k ds, Sign c k → cs ≠ c :: ds

theorem Sign.unique {l : ℤ} (hk : Sign c k) (hl : Sign c l) : k = l := by
  cases hk <;> cases hl <;> rfl

theorem Sign.natAbs_mul (hc : Sign c k) (n : ℕ) : (k * (n : ℤ)).natAbs = n := by
  cases hc <;> simp

theorem Sign.ne_point (hc : Sign c k) : c ≠ '.' := by
  cases hc <;> decide

theorem Sign.not_isDigit (hc : Sign c k) : Text.isDigit c = false := by
  cases hc <;> rfl

theorem Digits.notMem_point (h : Digits ds) : '.' ∉ ds := fun hmem => by
  have hpoint := h '.' hmem
  cases hpoint

theorem Digits.not_signed (hc : Sign c k) : ¬Digits (c :: ds) := by
  intro h
  have hdigit := h c List.mem_cons_self
  rw [hc.not_isDigit] at hdigit
  cases hdigit

theorem integer?_signed (hc : Sign c k) (ds : List Char) :
    Text.integer? (c :: ds) = (Text.natural? ds).map fun n : ℕ => k * (n : ℤ) := by
  cases hc with
  | plus =>
    simp only [Text.integer?, one_mul]
    cases Text.natural? ds <;> rfl
  | minus =>
    simp only [Text.integer?, neg_one_mul]
    cases Text.natural? ds <;> rfl

theorem integer?_unsigned (h : Unsigned cs) :
    Text.integer? cs = (Text.natural? cs).map fun n : ℕ => (n : ℤ) := by
  unfold Text.integer?
  split
  · exact absurd rfl (h _ _ _ .minus)
  · exact absurd rfl (h _ _ _ .plus)
  · cases Text.natural? cs <;> rfl

/-- Whole units with or without a sign of their own. -/
theorem integer?_eq_some_iff {n : ℤ} : Text.integer? cs = some n ↔
    (Digits cs ∧ cs ≠ [] ∧ n = placeValue cs) ∨
      ∃ c k ds, Sign c k ∧ cs = c :: ds ∧ Digits ds ∧ ds ≠ [] ∧ n = k * placeValue ds := by
  by_cases h : Unsigned cs
  · rw [integer?_unsigned h, Option.map_eq_some_iff]
    simp only [natural?_eq_some_iff]
    constructor
    · rintro ⟨m, ⟨hds, hne, rfl⟩, rfl⟩
      exact .inl ⟨hds, hne, rfl⟩
    · rintro (⟨hds, hne, rfl⟩ | ⟨c, k, ds, hc, hcs, -⟩)
      · exact ⟨_, ⟨hds, hne, rfl⟩, rfl⟩
      · exact absurd hcs (h c k ds hc)
  · simp only [Unsigned, not_forall, not_not] at h
    obtain ⟨c, k, ds, hc, rfl⟩ := h
    rw [integer?_signed hc, Option.map_eq_some_iff]
    simp only [natural?_eq_some_iff]
    constructor
    · rintro ⟨m, ⟨hds, hne, rfl⟩, rfl⟩
      exact .inr ⟨c, k, ds, hc, rfl, hds, hne, rfl⟩
    · rintro (⟨hds, -⟩ | ⟨c', k', ds', hc', hcs, hds, hne, rfl⟩)
      · exact absurd hds (Digits.not_signed hc)
      · obtain ⟨rfl, rfl⟩ := List.cons.inj hcs
        rw [hc.unique hc']
        exact ⟨_, ⟨hds, hne, rfl⟩, rfl⟩

/-! ## The parts of a text -/

theorem wholePart_append (hds : '.' ∉ ds) (hcs : cs = [] ∨ cs.head? = some '.') :
    wholePart (ds ++ cs) = ds ∧ fractionPart (ds ++ cs) = cs.drop 1 := by
  have hall : ∀ c ∈ ds, (c != '.') = true := by
    intro c hc
    rw [bne_iff_ne]
    exact ne_of_mem_of_not_mem hc hds
  have hstop : cs.takeWhile (· != '.') = [] ∧ cs.dropWhile (· != '.') = cs := by
    cases cs with
    | nil => exact ⟨rfl, rfl⟩
    | cons c cs =>
      have hc : c = '.' := by simpa using hcs
      subst hc
      exact ⟨rfl, rfl⟩
  rw [wholePart, fractionPart, List.takeWhile_append_of_pos hall, List.dropWhile_append_of_pos hall,
    hstop.1, hstop.2, List.append_nil]
  exact ⟨rfl, rfl⟩

/-- A text is its whole units, with nothing behind them, or with a point and a fraction. -/
theorem parts (cs : List Char) : '.' ∉ wholePart cs ∧
    (cs = wholePart cs ∧ fractionPart cs = [] ∨ cs = wholePart cs ++ '.' :: fractionPart cs) := by
  constructor
  · intro hmem
    have hne := List.mem_takeWhile_imp hmem
    simp at hne
  · have hsplit : wholePart cs ++ cs.dropWhile (· != '.') = cs := List.takeWhile_append_dropWhile
    rw [fractionPart]
    cases hd : cs.dropWhile (· != '.') with
    | nil =>
      rw [hd, List.append_nil] at hsplit
      exact .inl ⟨hsplit.symm, rfl⟩
    | cons c ds =>
      have hc := List.head?_dropWhile_not (· != '.') cs
      rw [hd] at hc hsplit
      have hpoint : c = '.' := by simpa using hc
      subst hpoint
      exact .inr hsplit.symm

theorem Fraction.cases_parts (h : Fraction places cs x) :
    (cs = [] ∨ cs.head? = some '.') ∧ Digits (cs.drop 1) ∧ (cs.drop 1).length ≤ places ∧
      x = placeValue (cs.drop 1) / 10 ^ (cs.drop 1).length := by
  cases h with
  | none => exact ⟨.inl rfl, by simp [Digits], Nat.zero_le _, by simp [placeValue]⟩
  | point hds hlen => exact ⟨.inr rfl, hds, hlen, rfl⟩

/-- What stands behind the whole units of a text. -/
theorem exists_fraction (hds : Digits (fractionPart cs)) (hlen : (fractionPart cs).length ≤ places) :
    ∃ tail, cs = wholePart cs ++ tail ∧ Fraction places tail
      (placeValue (fractionPart cs) / 10 ^ (fractionPart cs).length) ∧
      (fractionPart cs ≠ [] → tail = '.' :: fractionPart cs) := by
  rcases (parts cs).2 with ⟨hcs, hnil⟩ | hcs
  · refine ⟨[], by rw [List.append_nil]; exact hcs, ?_, fun hne => absurd hnil hne⟩
    rw [hnil]
    simpa [placeValue] using @Fraction.none places
  · exact ⟨_, hcs, .point hds hlen, fun _ => rfl⟩

theorem numeral_iff : Numeral places cs x ↔
    Digits (fractionPart cs) ∧ (fractionPart cs).length ≤ places ∧
      ¬(wholePart cs = [] ∧ fractionPart cs = []) ∧ Digits (wholePart cs) ∧
        x = placeValue (wholePart cs) +
          placeValue (fractionPart cs) / 10 ^ (fractionPart cs).length := by
  constructor
  · rintro (⟨hds, hne, hx⟩ | ⟨hne, hx⟩)
    · obtain ⟨hhead, hdigits, hlen, rfl⟩ := hx.cases_parts
      obtain ⟨hwhole, hfraction⟩ := wholePart_append hds.notMem_point hhead
      rw [hwhole, hfraction]
      exact ⟨hdigits, hlen, fun hnil => hne hnil.1, hds, rfl⟩
    · obtain ⟨hhead, hdigits, hlen, rfl⟩ := hx.cases_parts
      obtain ⟨hwhole, hfraction⟩ := @wholePart_append _ [] List.not_mem_nil hhead
      rw [List.nil_append] at hwhole hfraction
      rw [hwhole, hfraction]
      exact ⟨hdigits, hlen, fun hnil => hne hnil.2, by simp [Digits], by simp [placeValue]⟩
  · rintro ⟨hdigits, hlen, hne, hds, rfl⟩
    obtain ⟨tail, hcs, hx, htail⟩ := exists_fraction hdigits hlen
    by_cases hnil : wholePart cs = []
    · have hfraction : fractionPart cs ≠ [] := fun h => hne ⟨hnil, h⟩
      rw [htail hfraction] at hx hcs
      have hnumeral := Numeral.fraction hfraction hx
      rw [hnil, List.nil_append] at hcs
      rw [← hcs] at hnumeral
      rw [hnil]
      simpa [placeValue] using hnumeral
    · have hnumeral := Numeral.whole hds hnil hx
      rw [← hcs] at hnumeral
      exact hnumeral

theorem signedUnits_iff {n : ℕ} : SignedUnits places cs n x ↔
    Digits (fractionPart cs) ∧ (fractionPart cs).length ≤ places ∧
      ∃ c k ds, Sign c k ∧ wholePart cs = c :: ds ∧ Digits ds ∧ ds ≠ [] ∧ n = placeValue ds ∧
        x = k * n + placeValue (fractionPart cs) / 10 ^ (fractionPart cs).length := by
  constructor
  · rintro ⟨hc, hds, hne, hx⟩
    obtain ⟨hhead, hdigits, hlen, rfl⟩ := hx.cases_parts
    have hpoint : '.' ∉ _ :: _ := List.not_mem_cons_of_ne_of_not_mem hc.ne_point.symm hds.notMem_point
    obtain ⟨hwhole, hfraction⟩ := wholePart_append hpoint hhead
    rw [List.cons_append] at hwhole hfraction
    rw [hwhole, hfraction]
    exact ⟨hdigits, hlen, _, _, _, hc, rfl, hds, hne, rfl, rfl⟩
  · rintro ⟨hdigits, hlen, c, k, ds, hc, hwhole, hds, hne, rfl, rfl⟩
    obtain ⟨tail, hcs, hx, -⟩ := exists_fraction hdigits hlen
    have hunits := SignedUnits.mk hc hds hne hx
    rw [hwhole] at hcs
    rw [← List.cons_append, ← hcs] at hunits
    exact hunits

/-! ## The range -/

/-- No number of whole units has the least number of ticks. -/
theorem units_ne_least (h : 0 < places) (n : ℤ) : n * 10 ^ places ≠ -9223372036854775808 := by
  obtain ⟨m, rfl⟩ : ∃ m, places = m + 1 := Nat.exists_eq_succ_of_ne_zero h.ne'
  rw [pow_succ, ← mul_assoc]
  omega

theorem natAbs_le_greatest {n : ℤ} (hle : -9223372036854775808 ≤ n) (hge : n ≤ 9223372036854775807)
    (hne : n ≠ -9223372036854775808) : n.natAbs ≤ Ticks.greatest := by
  unfold Ticks.greatest
  omega

theorem fractionTicks_eq (hlen : ds.length ≤ places) :
    (fractionTicks places ds : ℚ) = placeValue ds / 10 ^ ds.length * 10 ^ places := by
  obtain ⟨m, rfl⟩ := Nat.exists_eq_add_of_le hlen
  rw [fractionTicks, digitsValue_eq, Nat.add_sub_cancel_left, pow_add]
  push_cast
  field_simp

theorem counts_of_eq (hval : (t.val : ℚ) = x * 10 ^ places) (hne : t.val ≠ -9223372036854775808) :
    Counts places x t := by
  refine ⟨?_, hval⟩
  rw [← hval, ← Int.cast_abs, Int.abs_eq_natAbs, Int.cast_natCast, Nat.cast_le]
  exact natAbs_le_greatest t.least_le t.le_greatest hne

/-- Whole units and a fraction have a number of ticks when the units alone and both together are in the
range. -/
theorem exists_units_iff (h : 0 < places) {n : ℤ} {f : ℕ} (hf : (f : ℚ) = x * 10 ^ places) :
    (∃ u : Ticks, u.val = n * 10 ^ places ∧ t.val = u.val + f) ↔
      n.natAbs * 10 ^ places ≤ Ticks.greatest ∧ Counts places (n + x) t := by
  have hnat : (n * 10 ^ places).natAbs = n.natAbs * 10 ^ places := by
    rw [Int.natAbs_mul, Int.natAbs_pow]
    rfl
  have hsum : (((n * 10 ^ places + f : ℤ)) : ℚ) = (n + x) * 10 ^ places := by
    push_cast
    rw [hf, add_mul]
  constructor
  · rintro ⟨u, hu, ht⟩
    have hunits := units_ne_least h n
    have hleast := u.least_le
    refine ⟨?_, counts_of_eq ?_ ?_⟩
    · rw [← hnat, ← hu]
      exact natAbs_le_greatest hleast u.le_greatest (hu ▸ hunits)
    · rw [ht, hu, hsum]
    · -- what is added to the units only leads away from the least number
      rw [← hu] at hunits
      omega
  · rintro ⟨hn, -, ht⟩
    rw [← hnat, Ticks.greatest] at hn
    refine ⟨⟨n * 10 ^ places, by omega, by omega⟩, rfl, ?_⟩
    have hval : (t.val : ℚ) = ((n * 10 ^ places + f : ℤ) : ℚ) := ht.trans hsum.symm
    exact Int.cast_injective hval

theorem Counts.units_le {n : ℕ} (h : Counts places (n + x) t) (hx : 0 ≤ x) :
    n * 10 ^ places ≤ Ticks.greatest := by
  have hpow : (0 : ℚ) ≤ 10 ^ places := by positivity
  have hle : (n * 10 ^ places : ℚ) ≤ (n + x) * 10 ^ places :=
    mul_le_mul_of_nonneg_right (le_add_of_nonneg_right hx) hpow
  have hrange := (le_abs_self _).trans h.1
  exact_mod_cast hle.trans hrange

theorem counts_sign (hc : Sign c k) :
    Counts places (k * x) t ↔ ∃ m, Counts places x m ∧ t.val = k * m.val := by
  have hone : (k : ℚ) * k = 1 ∧ |(k : ℚ)| = 1 := by
    cases hc <;> simp
  have habs : |k * x * 10 ^ places| = |x * 10 ^ places| := by
    rw [mul_assoc, abs_mul, hone.2, one_mul]
  constructor
  · rintro ⟨hrange, ht⟩
    have hm : ((k * t.val : ℤ) : ℚ) = x * 10 ^ places := by
      rw [Int.cast_mul, ht, mul_assoc, ← mul_assoc, hone.1, one_mul]
    rw [habs] at hrange
    have hbound : |k * t.val| ≤ (Ticks.greatest : ℤ) := by
      rw [← hm] at hrange
      exact_mod_cast hrange
    rw [Ticks.greatest, abs_le] at hbound
    refine ⟨⟨k * t.val, by omega, by omega⟩, ⟨hrange, hm⟩, ?_⟩
    show t.val = k * (k * t.val)
    cases hc <;> ring
  · rintro ⟨m, ⟨hrange, hm⟩, ht⟩
    refine ⟨habs ▸ hrange, ?_⟩
    rw [ht, Int.cast_mul, hm, mul_assoc]

/-! ## Behind the first sign -/

theorem sum?_eq_some_iff {n : ℤ} {f : ℕ} :
    ((Ticks.ofInt? n).bind fun u => Ticks.ofInt? (u.val + f)) = some t ↔
      ∃ u : Ticks, u.val = n ∧ t.val = u.val + f := by
  rw [Option.bind_eq_some_iff]
  refine exists_congr fun u => ?_
  rw [Ticks.ofInt?_eq_some_iff, Ticks.ofInt?_eq_some_iff, eq_comm (a := n), eq_comm (b := t.val)]

/-- The whole units of a text count as they do where they stand alone, and for none without any. -/
theorem magnitude?_eq_some_iff_parts : magnitude? places cs = some t ↔
    Digits (fractionPart cs) ∧ (fractionPart cs).length ≤ places ∧
      ¬(wholePart cs = [] ∧ fractionPart cs = []) ∧ ∃ n : ℤ,
        (wholePart cs = [] ∧ n = 0 ∨ Text.integer? (wholePart cs) = some n) ∧
        ∃ u : Ticks, u.val = n * 10 ^ places ∧
          t.val = u.val + fractionTicks places (fractionPart cs) := by
  have hempty : ((wholePart cs).isEmpty && (fractionPart cs).isEmpty) = true ↔
      wholePart cs = [] ∧ fractionPart cs = [] := by
    rw [Bool.and_eq_true, List.isEmpty_iff, List.isEmpty_iff]
  have hfraction : (!(decide ((fractionPart cs).length ≤ places) &&
      (fractionPart cs).all Text.isDigit)) = true ↔
        ¬((fractionPart cs).length ≤ places ∧ Digits (fractionPart cs)) := by
    rw [Bool.not_eq_true', ← Bool.not_eq_true, Bool.and_eq_true, decide_eq_true_eq, List.all_eq_true]
    rfl
  have hblank : ∀ n : ℤ, Text.integer? [] ≠ some n := by simp [Text.integer?, Text.natural?]
  unfold magnitude?
  dsimp only
  by_cases hnone : wholePart cs = [] ∧ fractionPart cs = []
  · rw [if_pos (hempty.2 hnone)]
    simp [hnone]
  rw [if_neg (hempty.not.2 hnone)]
  by_cases hdigits : (fractionPart cs).length ≤ places ∧ Digits (fractionPart cs)
  · rw [if_neg (hfraction.not.2 (not_not.2 hdigits))]
    by_cases hnil : wholePart cs = []
    · have hne : fractionPart cs ≠ [] := fun h => hnone ⟨hnil, h⟩
      rw [if_pos (List.isEmpty_iff.2 hnil)]
      show ((Ticks.ofInt? (0 * 10 ^ places)).bind fun u => _) = some t ↔ _
      rw [sum?_eq_some_iff]
      simp only [hnil, hne, hblank, hdigits, and_false, not_false_eq_true, true_and, or_false,
        exists_eq_left]
    · rw [if_neg (by simpa using hnil)]
      show ((Text.integer? (wholePart cs)).bind fun n =>
        (Ticks.ofInt? (n * 10 ^ places)).bind fun u => _) = some t ↔ _
      rw [Option.bind_eq_some_iff]
      simp only [sum?_eq_some_iff, hnil, hdigits, true_and, false_and, false_or, not_false_eq_true]
  · rw [if_pos (hfraction.2 hdigits)]
    simp only [reduceCtorEq, false_iff]
    exact fun h => hdigits ⟨h.2.1, h.1⟩

/-- What is read behind the first sign: a number without a sign, or whole units with another one. -/
theorem magnitude?_eq_some_iff (h : 0 < places) : magnitude? places cs = some t ↔
    (∃ x, Numeral places cs x ∧ Counts places x t) ∨
      ∃ n x, SignedUnits places cs n x ∧ n * 10 ^ places ≤ Ticks.greatest ∧ Counts places x t := by
  rw [magnitude?_eq_some_iff_parts]
  simp only [numeral_iff, signedUnits_iff]
  constructor
  · rintro ⟨hdigits, hlen, hne, n, hn, hsum⟩
    rw [exists_units_iff h (fractionTicks_eq hlen)] at hsum
    obtain ⟨hunits, hcounts⟩ := hsum
    have hcases : Digits (wholePart cs) ∧ n = placeValue (wholePart cs) ∨
        ∃ c k ds, Sign c k ∧ wholePart cs = c :: ds ∧ Digits ds ∧ ds ≠ [] ∧
          n = k * placeValue ds := by
      rcases hn with ⟨hnil, rfl⟩ | hn
      · rw [hnil]
        exact .inl ⟨by simp [Digits], rfl⟩
      · exact (integer?_eq_some_iff.1 hn).imp_left fun hw => ⟨hw.1, hw.2.2⟩
    rcases hcases with ⟨hds, rfl⟩ | ⟨c, k, ds, hc, hwhole, hds, hds', rfl⟩
    · exact .inl ⟨_, ⟨hdigits, hlen, hne, hds, rfl⟩, by exact_mod_cast hcounts⟩
    · rw [hc.natAbs_mul] at hunits
      refine .inr ⟨_, _, ⟨hdigits, hlen, c, k, ds, hc, hwhole, hds, hds', rfl, rfl⟩, hunits, ?_⟩
      exact_mod_cast hcounts
  · rintro (⟨x, ⟨hdigits, hlen, hne, hds, rfl⟩, hcounts⟩ |
      ⟨n, x, ⟨hdigits, hlen, c, k, ds, hc, hwhole, hds, hds', rfl, rfl⟩, hunits, hcounts⟩)
    · refine ⟨hdigits, hlen, hne, placeValue (wholePart cs), ?_, ?_⟩
      · by_cases hnil : wholePart cs = []
        · rw [hnil]
          exact .inl ⟨rfl, rfl⟩
        · exact .inr (integer?_eq_some_iff.2 (.inl ⟨hds, hnil, rfl⟩))
      · have hnonneg : (0 : ℚ) ≤
            placeValue (fractionPart cs) / 10 ^ (fractionPart cs).length :=
          div_nonneg (Nat.cast_nonneg _) (by positivity)
        rw [exists_units_iff h (fractionTicks_eq hlen)]
        exact ⟨hcounts.units_le hnonneg, by exact_mod_cast hcounts⟩
    · refine ⟨hdigits, hlen, fun hnil => ?_, k * placeValue ds, ?_, ?_⟩
      · rw [hwhole] at hnil
        cases hnil.1
      · exact .inr (integer?_eq_some_iff.2 (.inr ⟨c, k, ds, hc, hwhole, hds, hds', rfl⟩))
      · rw [exists_units_iff h (fractionTicks_eq hlen), hc.natAbs_mul]
        exact ⟨hunits, by exact_mod_cast hcounts⟩

/-! ## The whole text -/

theorem Numeral.unique {y : ℚ} (hx : Numeral places cs x) (hy : Numeral places cs y) : x = y := by
  obtain ⟨-, -, -, -, rfl⟩ := numeral_iff.1 hx
  obtain ⟨-, -, -, -, rfl⟩ := numeral_iff.1 hy
  rfl

theorem Numeral.unsigned (h : Numeral places cs x) : Unsigned cs := by
  rintro c k ds hc rfl
  obtain ⟨-, -, -, hwhole, -⟩ := numeral_iff.1 h
  rw [wholePart, List.takeWhile_cons_of_pos (by simpa using hc.ne_point)] at hwhole
  exact Digits.not_signed hc hwhole

theorem SignedUnits.not_unsigned {n : ℕ} (h : SignedUnits places cs n x) : ¬Unsigned cs := by
  obtain ⟨hc, -, -, -⟩ := h
  exact fun hnone => hnone _ _ _ hc rfl

theorem denotes_cons (hc : Sign c k) :
    Denotes places (c :: cs) x ↔ ∃ y, Numeral places cs y ∧ x = k * y := by
  constructor
  · intro h
    cases h with
    | unsigned hx => exact absurd rfl (hx.unsigned c k cs hc)
    | signed hc' hx => exact ⟨_, hx, by rw [hc.unique hc']⟩
  · rintro ⟨y, hy, rfl⟩
    exact .signed hc hy

theorem denotes_of_unsigned (h : Unsigned cs) : Denotes places cs x ↔ Numeral places cs x := by
  constructor
  · intro hx
    cases hx with
    | unsigned hx => exact hx
    | signed hc hx => exact absurd rfl (h _ _ _ hc)
  · exact .unsigned

/-- A text denotes at most one number. -/
theorem Denotes.unique {y : ℚ} (hx : Denotes places cs x) (hy : Denotes places cs y) : x = y := by
  by_cases hcs : Unsigned cs
  · rw [denotes_of_unsigned hcs] at hx hy
    exact hx.unique hy
  · simp only [Unsigned, not_forall, not_not] at hcs
    obtain ⟨c, k, ds, hc, rfl⟩ := hcs
    rw [denotes_cons hc] at hx hy
    obtain ⟨x', hx', rfl⟩ := hx
    obtain ⟨y', hy', rfl⟩ := hy
    rw [hx'.unique hy']

theorem signedTwice_cons (hc : Sign c k) {n : ℕ} :
    SignedTwice places (c :: cs) n x ↔ ∃ y, SignedUnits places cs n y ∧ x = k * y := by
  constructor
  · intro h
    cases h with
    | mk hc' hx => exact ⟨_, hx, by rw [hc.unique hc']⟩
  · rintro ⟨y, hy, rfl⟩
    exact .mk hc hy

/-- No text with two signs is in the grammar. -/
theorem SignedTwice.not_denotes {n : ℕ} (h : SignedTwice places cs n x) (y : ℚ) :
    ¬Denotes places cs y := by
  obtain ⟨hc, hx⟩ := h
  rw [denotes_cons hc]
  rintro ⟨z, hz, -⟩
  exact hx.not_unsigned hz.unsigned

theorem magnitude?_ne_least (h : 0 < places) (ht : magnitude? places cs = some t) :
    t.val ≠ -9223372036854775808 := by
  have hrange : |(t.val : ℚ)| ≤ Ticks.greatest := by
    rcases (magnitude?_eq_some_iff h).1 ht with ⟨x, -, hx⟩ | ⟨n, x, -, -, hx⟩
    · rw [hx.2]
      exact hx.1
    · rw [hx.2]
      exact hx.1
  intro hleast
  rw [hleast, Ticks.greatest] at hrange
  norm_num at hrange

variable {s : String}

theorem read?_signed (h : 0 < places) (hs : Text.trim s.toList = c :: cs) (hc : Sign c k) :
    read? places s = some t ↔ ∃ m, magnitude? places cs = some m ∧ t.val = k * m.val := by
  unfold read?
  rw [hs]
  cases hc with
  | plus =>
    constructor
    · intro ht
      exact ⟨t, ht, (one_mul _).symm⟩
    · rintro ⟨m, hm, ht⟩
      rw [Ticks.ext (ht.trans (one_mul _))]
      exact hm
  | minus =>
    have hneg : ∀ m, magnitude? places cs = some m → m.neg.val = -1 * m.val := by
      intro m hm
      have hne := magnitude?_ne_least h hm
      have hleast := m.least_le
      have hgreatest := m.le_greatest
      rw [neg_one_mul]
      exact (Ticks.val_clamp_eq_iff _).2 ⟨by omega, by omega⟩
    show (magnitude? places cs).map Ticks.neg = some t ↔ _
    rw [Option.map_eq_some_iff]
    refine exists_congr fun m => and_congr_right fun hm => ?_
    rw [← hneg m hm]
    exact ⟨fun ht => by rw [ht], fun ht => Ticks.ext ht.symm⟩

theorem read?_unsigned (hs : Unsigned (Text.trim s.toList)) :
    read? places s = magnitude? places (Text.trim s.toList) := by
  unfold read?
  split
  · next hcs => exact absurd hcs (hs _ _ _ .minus)
  · next hcs => exact absurd hcs (hs _ _ _ .plus)
  · rfl

/-- A text is read when it is in the grammar and its number of ticks is in the range, and exactly this
number is read.  Besides, a text with a second sign in front of its whole units is read, when the units
alone and the whole are in the range.  No such text is in the grammar, and a text that is denotes one
number. -/
theorem read?_eq_some_iff (places : ℕ) (s : String) (h : 0 < places) :
    (∀ t, read? places s = some t ↔
      (∃ x, Denotes places (Text.trim s.toList) x ∧ Counts places x t) ∨
        ∃ n x, SignedTwice places (Text.trim s.toList) n x ∧
          n * 10 ^ places ≤ Ticks.greatest ∧ Counts places x t) ∧
    (∀ n x, SignedTwice places (Text.trim s.toList) n x →
      ∀ y, ¬Denotes places (Text.trim s.toList) y) ∧
    ∀ x y, Denotes places (Text.trim s.toList) x → Denotes places (Text.trim s.toList) y → x = y := by
  refine ⟨fun t => ?_, fun n x hx => hx.not_denotes, fun x y => Denotes.unique⟩
  by_cases hs : Unsigned (Text.trim s.toList)
  · have htwice : ∀ n x, ¬SignedTwice places (Text.trim s.toList) n x := by
      rintro n x hx
      generalize hcs : Text.trim s.toList = cs at hs hx
      obtain ⟨hc, -⟩ := hx
      exact hs _ _ _ hc rfl
    have hunits : ∀ n x, ¬SignedUnits places (Text.trim s.toList) n x :=
      fun n x hx => hx.not_unsigned hs
    rw [read?_unsigned hs, magnitude?_eq_some_iff h]
    simp only [denotes_of_unsigned hs, htwice, hunits, false_and, exists_false]
  · simp only [Unsigned, not_forall, not_not] at hs
    obtain ⟨c, k, cs, hc, hs⟩ := hs
    rw [read?_signed h hs hc, hs]
    simp only [magnitude?_eq_some_iff h, denotes_cons hc, signedTwice_cons hc]
    constructor
    · rintro ⟨m, ⟨x, hx, hm⟩ | ⟨n, x, hx, hn, hm⟩, ht⟩
      · exact .inl ⟨_, ⟨x, hx, rfl⟩, (counts_sign hc).2 ⟨m, hm, ht⟩⟩
      · exact .inr ⟨n, _, ⟨x, hx, rfl⟩, hn, (counts_sign hc).2 ⟨m, hm, ht⟩⟩
    · rintro (⟨_, ⟨x, hx, rfl⟩, hcounts⟩ | ⟨n, _, ⟨x, hx, rfl⟩, hn, hcounts⟩)
      · obtain ⟨m, hm, ht⟩ := (counts_sign hc).1 hcounts
        exact ⟨m, .inl ⟨x, hx, hm⟩, ht⟩
      · obtain ⟨m, hm, ht⟩ := (counts_sign hc).1 hcounts
        exact ⟨m, .inr ⟨n, x, hx, hn, hm⟩, ht⟩

/-- Behind two minus signs, five and a half is read as four and a half. -/
theorem read?_signed_twice :
    (∃ t, read? 6 "--5.5" = some t ∧ t.val = 4500000) ∧
    ∀ y, ¬Denotes 6 (Text.trim "--5.5".toList) y := by
  have htrim : Text.trim "--5.5".toList = ['-', '-', '5', '.', '5'] := by decide +kernel
  have hdigits : Digits ['5'] := by
    intro c hc
    rw [List.mem_singleton.1 hc]
    rfl
  have hfive : placeValue ['5'] = 5 := by decide +kernel
  have htwice : SignedTwice 6 (Text.trim "--5.5".toList) 5 (9 / 2) := by
    have hfraction : Fraction 6 ['.', '5'] (placeValue ['5'] / 10 ^ 1) := .point hdigits (by decide)
    have h := SignedTwice.mk .minus (.mk .minus hdigits (by decide) hfraction)
    rw [hfive] at h
    rw [htrim]
    norm_num at h
    exact h
  have hcounts : Counts 6 (9 / 2) ⟨4500000, by decide, by decide⟩ := by
    constructor <;> norm_num [Ticks.greatest]
  obtain ⟨hread, hgrammar, -⟩ := read?_eq_some_iff 6 "--5.5" (by decide)
  exact ⟨⟨_, (hread _).2 (.inr ⟨5, _, htwice, by decide, hcounts⟩), rfl⟩, hgrammar _ _ htwice⟩

end Decimal
end Observing
