import Observing.Proofs.Numerals
import Observing.Wire.Quantity

/-!
# Decimal texts that are written

A number of ticks is written as whole units, a point and as many digits as there are places.  Read
again, the text gives the number back.  The least number of ticks is the one exception: the ticks in
its text are counted before the sign, and there is one more of them than there can be.

* `Decimal.Written`          the form of such a text, with the number that it stands for;
* `magnitude?_append`        what is read behind the sign;
* `read?_write_of_ne_least`, `read?_write_least`   what is read of a written text;
* `read?_write`, `TimeSpan.parse_text`              numbers and time spans are read back.
-/

namespace Observing
namespace Decimal

/-- The text of a number with all its places: a minus sign in front of a negative one, one or more
digits, and behind a point one digit for each place. -/
def Written (places : ℕ) (n : ℤ) (cs : List Char) : Prop :=
  ∃ whole fraction, cs = (if n < 0 then ['-'] else []) ++ (whole ++ '.' :: fraction) ∧
    Digits whole ∧ whole ≠ [] ∧ Digits fraction ∧ fraction.length = places ∧
      placeValue whole * 10 ^ places + placeValue fraction = n.natAbs

variable {places : ℕ} {n : ℤ} {cs whole fraction : List Char} {c : Char} {t m : Ticks}

/-! ## Digits -/

theorem isDigit_of_isDigit (h : c.isDigit = true) : Text.isDigit c = true := by
  rw [Char.isDigit, Bool.and_eq_true, decide_eq_true_eq, decide_eq_true_eq] at h
  rw [Text.isDigit, Bool.and_eq_true, decide_eq_true_eq, decide_eq_true_eq]
  exact h

theorem isBlank_of_isDigit (h : Text.isDigit c = true) : Text.isBlank c = false := by
  have hzero : '0'.toNat = 48 := rfl
  have hnine : '9'.toNat = 57 := rfl
  rw [Text.isDigit, Bool.and_eq_true, decide_eq_true_eq, decide_eq_true_eq, hzero, hnine] at h
  simp only [Text.isBlank, Bool.or_eq_false_iff, Bool.and_eq_false_iff, decide_eq_false_iff_not,
    beq_eq_false_iff_ne]
  omega

theorem digits_toDigits (n : ℕ) : Digits (Nat.toDigits 10 n) := by
  intro c hc
  exact isDigit_of_isDigit (Nat.isDigit_of_mem_toDigits (by decide) (by decide) hc)

theorem placeValue_toDigits (n : ℕ) : placeValue (Nat.toDigits 10 n) = n := by
  rw [← digitsValue_eq]
  calc Text.digitsValue (Nat.toDigits 10 n)
      = Nat.ofDigitChars 10 (Nat.toDigits 10 n) 0 := Nat.ofDigitChars_eq_foldl.symm
    _ = n := Nat.ofDigitChars_ten_toDigits

theorem digits_lastDigits (places n : ℕ) : Digits (lastDigits places n) := by
  induction places generalizing n with
  | zero =>
    intro c hc
    exact absurd hc List.not_mem_nil
  | succ k ih =>
    intro c hc
    rcases List.mem_append.1 hc with hc | hc
    · exact ih _ c hc
    · rw [List.mem_singleton.1 hc]
      apply isDigit_of_isDigit
      rw [Nat.isDigit_digitChar]
      exact decide_eq_true (Nat.mod_lt n (by decide))

theorem placeValue_lastDigits (places n : ℕ) :
    placeValue (lastDigits places n) = n % 10 ^ places := by
  rw [← digitsValue_eq]
  induction places generalizing n with
  | zero => exact (Nat.mod_one n).symm
  | succ k ih =>
    have hlast : Text.digitValue (Nat.digitChar (n % 10)) = n % 10 :=
      Nat.toNat_digitChar_sub_48_of_lt_ten (Nat.mod_lt n (by decide))
    rw [lastDigits, Text.digitsValue_concat, ih, hlast, Nat.pow_succ', Nat.mod_mul]
    exact Nat.add_comm _ _

/-! ## The written form -/

/-- Writing keeps to the form. -/
theorem written_write (places : ℕ) (n : ℤ) : Written places n (write places n).toList := by
  refine ⟨Nat.toDigits 10 (n.natAbs / 10 ^ places), lastDigits places n.natAbs, ?_,
    digits_toDigits _, Nat.toDigits_ne_nil, digits_lastDigits _ _, length_lastDigits _ _, ?_⟩
  · have hsign : (if n < 0 then "-" else "").toList = if n < 0 then ['-'] else [] := by
      split <;> rfl
    rw [write, writeNat, Nat.toString_eq_ofList_toDigits, String.toList_append, hsign,
      String.toList_append, String.toList_append, String.toList_ofList, String.toList_ofList,
      String.toList_ofList, List.append_assoc]
    rfl
  · rw [placeValue_toDigits, placeValue_lastDigits]
    exact Nat.div_add_mod' _ _

theorem Written.trim_eq (h : Written places n cs) : Text.trim cs = cs := by
  obtain ⟨whole, fraction, rfl, hwhole, -, hfraction, -⟩ := h
  have hall : ∀ c ∈ (if n < 0 then ['-'] else []) ++ (whole ++ '.' :: fraction),
      Text.isBlank c = false := by
    intro c hc
    simp only [List.mem_append, List.mem_cons] at hc
    rcases hc with hc | hc | rfl | hc
    · split at hc
      · rw [List.mem_singleton.1 hc]
        rfl
      · exact absurd hc List.not_mem_nil
    · exact isBlank_of_isDigit (hwhole c hc)
    · rfl
    · exact isBlank_of_isDigit (hfraction c hc)
  exact Text.trim_eq_self (fun c hc => hall c (List.mem_of_mem_head? hc))
    fun c hc => hall c (List.mem_of_mem_getLast? hc)

/-! ## Reading it -/

/-- Digits with all their places are read as they stand, as long as there are not too many ticks. -/
theorem magnitude?_append (hwhole : Digits whole) (hne : whole ≠ []) (hfraction : Digits fraction)
    (hlen : fraction.length = places) : magnitude? places (whole ++ '.' :: fraction) = some m ↔
      m.val = placeValue whole * 10 ^ places + placeValue fraction := by
  obtain ⟨hw, hf⟩ : wholePart (whole ++ '.' :: fraction) = whole ∧
      fractionPart (whole ++ '.' :: fraction) = fraction :=
    wholePart_append hwhole.notMem_point (.inr rfl)
  have hticks : fractionTicks places fraction = placeValue fraction := by
    rw [fractionTicks, hlen, Nat.sub_self, digitsValue_eq]
    exact Nat.mul_one _
  have hunits : Text.integer? whole = some (placeValue whole : ℤ) :=
    integer?_eq_some_iff.2 (.inl ⟨hwhole, hne, rfl⟩)
  rw [magnitude?_eq_some_iff_parts, hw, hf, hticks]
  constructor
  · rintro ⟨-, -, -, n, hn, u, hu, hm⟩
    have hn : n = placeValue whole := by
      rcases hn with ⟨hnil, -⟩ | hn
      · exact absurd hnil hne
      · rw [hunits] at hn
        exact (Option.some.inj hn).symm
    rw [hm, hu, hn]
  · intro hm
    have hnonneg : (0 : ℤ) ≤ placeValue whole * 10 ^ places := by positivity
    have hle : (placeValue whole * 10 ^ places : ℤ) ≤ 9223372036854775807 := by
      have hgreatest := m.le_greatest
      omega
    exact ⟨hfraction, hlen.le, fun hnil => hne hnil.1, placeValue whole, .inr hunits,
      ⟨placeValue whole * 10 ^ places, by omega, hle⟩, rfl, hm⟩

theorem unsigned_append (hwhole : Digits whole) (hne : whole ≠ []) :
    Unsigned (whole ++ '.' :: fraction) := by
  intro c k ds hc hcs
  cases whole with
  | nil => exact hne rfl
  | cons d whole =>
    obtain ⟨rfl, -⟩ := List.cons.inj hcs
    exact Digits.not_signed hc hwhole

/-- What is read of a written text is what is read behind its sign. -/
theorem Written.read?_iff {s : String} (h : Written places n s.toList) :
    read? places s = some t ↔ ∃ m : Ticks, m.val = n.natAbs ∧ t = if n < 0 then m.neg else m := by
  have htrim := h.trim_eq
  obtain ⟨whole, fraction, hs, hwhole, hne, hfraction, hlen, hval⟩ := h
  have hmagnitude : ∀ m : Ticks, magnitude? places (whole ++ '.' :: fraction) = some m ↔
      m.val = n.natAbs := by
    intro m
    rw [magnitude?_append hwhole hne hfraction hlen, ← hval]
    push_cast
    rfl
  by_cases hn : n < 0
  · rw [if_pos hn] at hs
    have hread : read? places s = (magnitude? places (whole ++ '.' :: fraction)).map Ticks.neg := by
      rw [read?, htrim, hs]
      rfl
    rw [hread, Option.map_eq_some_iff]
    refine exists_congr fun m => ?_
    rw [hmagnitude, if_pos hn, eq_comm (a := t)]
  · rw [if_neg hn, List.nil_append] at hs
    have hread : read? places s = magnitude? places (whole ++ '.' :: fraction) := by
      rw [← hs, ← htrim]
      apply read?_unsigned
      rw [htrim, hs]
      exact unsigned_append hwhole hne
    rw [hread, hmagnitude]
    simp only [if_neg hn]
    constructor
    · intro ht
      exact ⟨t, ht, rfl⟩
    · rintro ⟨m, hm, rfl⟩
      exact hm

theorem read?_write_of_ne_least (places : ℕ) (ht : t.val ≠ -9223372036854775808) :
    read? places (write places t.val) = some t := by
  have hleast := t.least_le
  have hgreatest := t.le_greatest
  rw [(written_write places t.val).read?_iff]
  refine ⟨⟨t.val.natAbs, by omega, by omega⟩, rfl, ?_⟩
  split
  · ext
    show t.val = max _ (min (-(t.val.natAbs : ℤ)) _)
    omega
  · ext
    show t.val = (t.val.natAbs : ℤ)
    omega

theorem read?_write_least (places : ℕ) (ht : t.val = -9223372036854775808) :
    read? places (write places t.val) = none := by
  rw [Option.eq_none_iff_forall_ne_some]
  intro u hu
  obtain ⟨m, hm, -⟩ := (written_write places t.val).read?_iff.1 hu
  have hgreatest := m.le_greatest
  rw [ht] at hm
  omega

/-- Every number of ticks is written in the form with all its places, and read back from it; the least
one alone is refused.  Different numbers are written differently. -/
theorem read?_write (places : ℕ) (t : Ticks) :
    Written places t.val (write places t.val).toList ∧
    read? places (write places t.val) =
      (if t.val = -9223372036854775808 then none else some t) ∧
    ∀ u : Ticks, write places u.val = write places t.val ↔ u = t := by
  have hread : ∀ u : Ticks, read? places (write places u.val) =
      if u.val = -9223372036854775808 then none else some u := by
    intro u
    split
    · next hu => exact read?_write_least places hu
    · next hu => exact read?_write_of_ne_least places hu
  refine ⟨written_write places t.val, hread t, fun u => ⟨fun htext => ?_, fun h => by rw [h]⟩⟩
  have heq := hread u
  rw [htext, hread t] at heq
  -- of two texts that are refused, each is that of the least number
  split at heq <;> split at heq
  · next ht hu => exact Ticks.ext (hu.trans ht.symm)
  · cases heq
  · cases heq
  · exact (Option.some.inj heq).symm

theorem write_natCast (places n : ℕ) : write places n = writeNat places n := by
  rw [write, if_neg (by omega), Int.natAbs_natCast]
  exact String.empty_append

end Decimal

/-- A time span is read back from its text. -/
theorem TimeSpan.parse_text (t : TimeSpan) : parse t.text = .ok t := by
  have hval : t.ticks.val = t.micros := rfl
  have hread : Decimal.read? 6 t.text = some t.ticks := by
    rw [text, ← Decimal.write_natCast, ← hval]
    exact Decimal.read?_write_of_ne_least 6 (by omega)
  rw [parse, hread]
  show (if t.ticks.val < 0 then _ else _) = _
  rw [if_neg (by omega), hval, ofMicros_micros]

end Observing
