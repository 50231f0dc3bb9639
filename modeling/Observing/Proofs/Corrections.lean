import Mathlib.Algebra.Order.Ring.Int
import Mathlib.Order.Bounds.Basic
import Observing.Digest

/-!
# What corrections come to

Corrections are made one after another, and no class is ever left with less than none.  What a class
ends with thus depends on the order of its own corrections, but not on how they are mixed with those of
other classes: it is the greatest of what all of them leave and of what the last ones alone add up to.

* `balance`                        a number changed again and again, and never left below none;
* `TimeCorrection.change`          the signed amount of a correction;
* `CategorizedTime.Covers`         a class has whatever its corrections give back;
* `isGreatest_balance`             the balance in closed form;
* `get_corrected`, `micros_get_corrected`   what corrections come to, class by class;
* `Invoice.finalCharge_eq`         the final charge.
-/

namespace Observing

/-! ## Balances -/

/-- The balance after a change. -/
def settle (b d : ℤ) : ℤ := max 0 (b + d)

/-- The balance after changes, made in their order. -/
def balance (x : ℤ) (ds : List ℤ) : ℤ := ds.foldl settle x

/-- No balance on the way is beyond the greatest span. -/
def WithinRange (x : ℤ) (ds : List ℤ) : Prop := ∀ b ∈ ds.scanl settle x, b ≤ Ticks.greatest

/-- What changes may come to: what all of them leave, and what those behind any of them add up to. -/
def outcomes (x : ℤ) (ds : List ℤ) : Set ℤ :=
  {y | y = x + ds.sum ∨ ∃ k, 1 ≤ k ∧ k ≤ ds.length ∧ y = ds.sum - (ds.take k).sum}

variable {x y d : ℤ} {ds : List ℤ}

instance (x : ℤ) (ds : List ℤ) : Decidable (WithinRange x ds) :=
  inferInstanceAs (Decidable (∀ b ∈ ds.scanl settle x, b ≤ Ticks.greatest))

theorem withinRange_cons :
    WithinRange x (d :: ds) ↔ x ≤ Ticks.greatest ∧ WithinRange (settle x d) ds := by
  rw [WithinRange, List.scanl_cons, List.forall_mem_cons]
  rfl

theorem WithinRange.start (h : WithinRange x ds) : x ≤ Ticks.greatest := by
  cases ds with
  | nil => exact h x (List.mem_singleton_self x)
  | cons d ds => exact (withinRange_cons.1 h).1

/-- What the changes behind the first may come to from the balance behind it. -/
theorem mem_outcomes_cons : y ∈ outcomes x (d :: ds) ↔
    y = x + d + ds.sum ∨ y = ds.sum ∨ ∃ k, 1 ≤ k ∧ k ≤ ds.length ∧ y = ds.sum - (ds.take k).sum := by
  constructor
  · rintro (hy | ⟨k, hk, hlen, hy⟩)
    · rw [List.sum_cons] at hy
      exact .inl (by omega)
    · obtain ⟨j, rfl⟩ : ∃ j, k = j + 1 := ⟨k - 1, by omega⟩
      rw [List.take_succ_cons, List.sum_cons, List.sum_cons] at hy
      rw [List.length_cons] at hlen
      cases j with
      | zero =>
        rw [List.take_zero, List.sum_nil] at hy
        exact .inr (.inl (by omega))
      | succ j => exact .inr (.inr ⟨j + 1, by omega, by omega, by omega⟩)
  · rintro (rfl | rfl | ⟨k, hk, hlen, rfl⟩)
    · exact .inl (by rw [List.sum_cons, add_assoc])
    · refine .inr ⟨1, le_rfl, Nat.le_add_left 1 _, ?_⟩
      rw [List.take_succ_cons, List.take_zero, List.sum_cons, List.sum_cons, List.sum_nil]
      omega
    · refine .inr ⟨k + 1, Nat.le_add_left 1 k, Nat.succ_le_succ hlen, ?_⟩
      rw [List.take_succ_cons, List.sum_cons, List.sum_cons]
      omega

/-- The balance is the greatest of what changes may come to. -/
theorem isGreatest_balance (x : ℤ) (ds : List ℤ) : IsGreatest (outcomes x ds) (balance x ds) := by
  induction ds generalizing x with
  | nil =>
    constructor
    · exact .inl (add_zero x).symm
    · rintro y (rfl | ⟨k, hk, hlen, -⟩)
      · exact (add_zero x).le
      · exact absurd (hk.trans hlen) (by decide)
  | cons d ds ih =>
    obtain ⟨hmem, hupper⟩ := ih (settle x d)
    have hbalance : balance x (d :: ds) = balance (settle x d) ds := rfl
    have hsettle : settle x d = max 0 (x + d) := rfl
    rw [hbalance]
    constructor
    · rw [mem_outcomes_cons]
      rcases hmem with hall | hrest
      · -- the balance behind the first change is what it leaves, or none
        rcases le_total 0 (x + d) with hpos | hneg
        · exact .inl (by omega)
        · exact .inr (.inl (by omega))
      · exact .inr (.inr hrest)
    · intro y hy
      have hall := hupper (.inl rfl)
      rcases mem_outcomes_cons.1 hy with hy | hy | hy
      · omega
      · omega
      · exact hupper (.inr hy)

theorem add_sum_le_balance (x : ℤ) (ds : List ℤ) : x + ds.sum ≤ balance x ds :=
  (isGreatest_balance x ds).2 (.inl rfl)

/-! ## The corrections of one class -/

namespace TimeCorrection

/-- What a correction changes: an amount that is given back counts below none. -/
def change (k : TimeCorrection) : ℤ :=
  match k.op with
  | .add => k.amount.micros
  | .subtract => -k.amount.micros

/-- The span after a correction of it. -/
def apply (a : TimeSpan) (k : TimeCorrection) : TimeSpan :=
  match k.op with
  | .add => a + k.amount
  | .subtract => a.minus k.amount

/-- The corrections of a class. -/
def ofClass (c : ChargeClass) (ks : List TimeCorrection) : List TimeCorrection :=
  ks.filter (·.chargeClass = c)

/-- What the corrections of a class change, in their order. -/
def changes (c : ChargeClass) (ks : List TimeCorrection) : List ℤ := (ofClass c ks).map change

/-- The time that corrections add to a class. -/
def added (c : ChargeClass) (ks : List TimeCorrection) : ℕ :=
  (((ofClass c ks).filter (·.op = .add)).map (·.amount.micros)).sum

variable {c : ChargeClass} {k : TimeCorrection} {ks : List TimeCorrection}

theorem change_of_add (h : k.op = .add) : k.change = k.amount.micros := by
  unfold change
  rw [h]

theorem change_of_subtract (h : k.op = .subtract) : k.change = -k.amount.micros := by
  unfold change
  rw [h]

theorem apply_of_add (h : k.op = .add) (a : TimeSpan) : apply a k = a + k.amount := by
  unfold apply
  rw [h]

theorem apply_of_subtract (h : k.op = .subtract) (a : TimeSpan) : apply a k = a.minus k.amount := by
  unfold apply
  rw [h]

theorem micros_apply (a : TimeSpan) (k : TimeCorrection) :
    ((apply a k).micros : ℤ) = min (settle a.micros k.change) Ticks.greatest := by
  have hle := a.micros_le
  cases hop : k.op with
  | add =>
    rw [apply_of_add hop, change_of_add hop, TimeSpan.micros_add, settle]
    omega
  | subtract =>
    rw [apply_of_subtract hop, change_of_subtract hop, TimeSpan.micros_minus, settle]
    omega

theorem micros_apply_of_le {a : TimeSpan} (h : settle a.micros k.change ≤ Ticks.greatest) :
    ((apply a k).micros : ℤ) = settle a.micros k.change := by
  rw [micros_apply]
  exact min_eq_left h

/-- A correction is made in full unless it gives back more than there is. -/
theorem settle_eq_iff (a : TimeSpan) (k : TimeCorrection) :
    settle a.micros k.change = a.micros + k.change ↔ (k.op = .subtract → k.amount ≤ a) := by
  have hamount : k.amount ≤ a ↔ k.amount.micros ≤ a.micros := Iff.rfl
  rw [hamount, settle]
  cases hop : k.op with
  | add =>
    rw [change_of_add hop]
    exact iff_of_true (by omega) nofun
  | subtract =>
    rw [change_of_subtract hop]
    constructor
    · intro hfull _
      omega
    · intro hle
      have hle := hle rfl
      omega

theorem ofClass_cons_of_eq (h : k.chargeClass = c) : ofClass c (k :: ks) = k :: ofClass c ks :=
  List.filter_cons_of_pos (by simpa using h)

theorem ofClass_cons_of_ne (h : k.chargeClass ≠ c) : ofClass c (k :: ks) = ofClass c ks :=
  List.filter_cons_of_neg (by simpa using h)

theorem changes_cons_of_eq (h : k.chargeClass = c) :
    changes c (k :: ks) = k.change :: changes c ks := by
  rw [changes, ofClass_cons_of_eq h]
  rfl

theorem changes_cons_of_ne (h : k.chargeClass ≠ c) : changes c (k :: ks) = changes c ks := by
  rw [changes, ofClass_cons_of_ne h]
  rfl

theorem ofClass_ofClass (c : ChargeClass) (ks : List TimeCorrection) :
    ofClass c (ofClass c ks) = ofClass c ks := by
  rw [ofClass, ofClass, List.filter_filter]
  simp only [Bool.and_self]

/-- Without too much time on the way, the span ends with the balance. -/
theorem micros_foldl_apply {a : TimeSpan} (h : WithinRange a.micros (ks.map change)) :
    ((ks.foldl apply a).micros : ℤ) = balance a.micros (ks.map change) := by
  induction ks generalizing a with
  | nil => rfl
  | cons k ks ih =>
    rw [List.map_cons, withinRange_cons] at h
    have hstep := micros_apply_of_le h.2.start
    rw [List.foldl_cons, ih (by rw [hstep]; exact h.2), hstep]
    rfl

theorem micros_foldl_apply_le (ks : List TimeCorrection) (a : TimeSpan) :
    (ks.foldl apply a).micros ≤
      a.micros + ((ks.filter (·.op = .add)).map (·.amount.micros)).sum := by
  induction ks generalizing a with
  | nil => exact Nat.le_refl _
  | cons k ks ih =>
    refine (ih (apply a k)).trans ?_
    cases hop : k.op with
    | add =>
      have hstep : (apply a k).micros ≤ a.micros + k.amount.micros := by
        rw [apply_of_add hop]
        exact Nat.min_le_left _ _
      rw [List.filter_cons_of_pos (by simpa using hop), List.map_cons, List.sum_cons]
      omega
    | subtract =>
      have hstep : (apply a k).micros ≤ a.micros := by
        rw [apply_of_subtract hop]
        exact Nat.sub_le _ _
      rw [List.filter_cons_of_neg (by simp [hop])]
      omega

end TimeCorrection

/-! ## All classes -/

namespace CategorizedTime

open TimeCorrection

variable {c : ChargeClass} {k : TimeCorrection} {ks : List TimeCorrection} {t : CategorizedTime}

theorem corrected_cons (t : CategorizedTime) (k : TimeCorrection) (ks : List TimeCorrection) :
    t.corrected (k :: ks) = (t.adjust k.op k.chargeClass k.amount).corrected ks := rfl

theorem get_adjust_self (t : CategorizedTime) (h : k.chargeClass = c) :
    (t.adjust k.op k.chargeClass k.amount).get c = apply (t.get c) k := by
  subst h
  cases hop : k.op with
  | add =>
    rw [apply_of_add hop]
    exact get_add_self t _ _
  | subtract =>
    rw [apply_of_subtract hop]
    exact get_subtract_self t _ _

theorem get_adjust_of_ne (t : CategorizedTime) (h : k.chargeClass ≠ c) :
    (t.adjust k.op k.chargeClass k.amount).get c = t.get c := by
  cases k.op with
  | add => exact get_add_of_ne t h.symm _
  | subtract => exact get_subtract_of_ne t h.symm _

/-- Each class is corrected for itself. -/
theorem get_corrected (t : CategorizedTime) (ks : List TimeCorrection) (c : ChargeClass) :
    (t.corrected ks).get c = (ofClass c ks).foldl apply (t.get c) := by
  induction ks generalizing t with
  | nil => rfl
  | cons k ks ih =>
    rw [corrected_cons, ih]
    by_cases hc : k.chargeClass = c
    · rw [ofClass_cons_of_eq hc, get_adjust_self t hc]
      rfl
    · rw [ofClass_cons_of_ne hc, get_adjust_of_ne t hc]

theorem corrected_congr {ks' : List TimeCorrection} (h : ∀ c, ofClass c ks' = ofClass c ks) :
    t.corrected ks' = t.corrected ks :=
  ext_get fun c => by rw [get_corrected, get_corrected, h]

theorem micros_get_corrected (h : WithinRange (t.get c).micros (changes c ks)) :
    (((t.corrected ks).get c).micros : ℤ) = balance (t.get c).micros (changes c ks) := by
  rw [get_corrected]
  exact micros_foldl_apply h

/-- Whenever a correction gives time of the class back, the class has that time. -/
def Covers (t : CategorizedTime) (c : ChargeClass) (ks : List TimeCorrection) : Prop :=
  ∀ front k back, ks = front ++ k :: back → k.chargeClass = c → k.op = .subtract →
    k.amount ≤ (t.corrected front).get c

theorem covers_nil (t : CategorizedTime) (c : ChargeClass) : t.Covers c [] := by
  intro front k back hnil
  exact absurd hnil.symm (List.append_ne_nil_of_right_ne_nil _ (List.cons_ne_nil k back))

theorem covers_cons : t.Covers c (k :: ks) ↔
    (k.chargeClass = c → k.op = .subtract → k.amount ≤ t.get c) ∧
      (t.adjust k.op k.chargeClass k.amount).Covers c ks := by
  constructor
  · intro h
    refine ⟨h [] k ks rfl, fun front j back hks => ?_⟩
    rw [hks] at h
    exact h (k :: front) j back rfl
  · rintro ⟨hfirst, hrest⟩ front j back hks
    cases front with
    | nil =>
      obtain ⟨rfl, -⟩ := List.cons.inj hks
      exact hfirst
    | cons i front =>
      obtain ⟨rfl, htail⟩ := List.cons.inj hks
      exact hrest front j back htail

/-- Without too much time on the way, a class ends with the sum of its corrections exactly when all of
them are made in full. -/
theorem balance_eq_iff (h : WithinRange (t.get c).micros (changes c ks)) :
    balance (t.get c).micros (changes c ks) = (t.get c).micros + (changes c ks).sum ↔
      t.Covers c ks := by
  induction ks generalizing t with
  | nil => exact iff_of_true (add_zero _).symm (covers_nil t c)
  | cons k ks ih =>
    rw [covers_cons]
    by_cases hc : k.chargeClass = c
    · rw [changes_cons_of_eq hc, withinRange_cons] at h
      have hstep : (((t.adjust k.op k.chargeClass k.amount).get c).micros : ℤ) =
          settle (t.get c).micros k.change := by
        rw [get_adjust_self t hc, micros_apply_of_le h.2.start]
      have hrest := ih (t := t.adjust k.op k.chargeClass k.amount) (by rw [hstep]; exact h.2)
      have hbalance : balance (t.get c).micros (k.change :: changes c ks) =
          balance (settle (t.get c).micros k.change) (changes c ks) := rfl
      have hfirst : (t.get c).micros + k.change ≤ settle (t.get c).micros k.change :=
        le_max_right _ _
      have hle := add_sum_le_balance (settle (t.get c).micros k.change) (changes c ks)
      rw [hstep] at hrest
      rw [changes_cons_of_eq hc, hbalance, List.sum_cons, ← hrest]
      simp only [hc, true_implies, ← settle_eq_iff]
      -- what one correction falls short by is never made up for by the others
      constructor
      · intro hall
        constructor <;> omega
      · rintro ⟨hone, hothers⟩
        omega
    · have hget : (t.adjust k.op k.chargeClass k.amount).get c = t.get c := get_adjust_of_ne t hc
      rw [changes_cons_of_ne hc] at h
      have hrest := ih (t := t.adjust k.op k.chargeClass k.amount) (by rw [hget]; exact h)
      rw [hget] at hrest
      rw [changes_cons_of_ne hc, hrest]
      exact ⟨fun hcovers => ⟨fun h => absurd h hc, hcovers⟩, fun hcovers => hcovers.2⟩

end CategorizedTime

/-! ## The final charge -/

namespace Invoice

open TimeCorrection

/-- The final charge of a class is its execution time with its own corrections.  As long as nothing on
the way is beyond the greatest span, it is the greatest of what all of them leave and of what those
behind any of them add up to, and it is what all of them leave exactly when the class is never short of
what is given back.  It is never more than the execution time and what is added.  The corrections of
other classes have no part in it, so that corrections may be reordered as long as those of each class
keep their order. -/
theorem finalCharge_eq (m : CostModel) (h : History) (ks : List TimeCorrection) (c : ChargeClass) :
    (WithinRange ((executionTime m h).get c).micros (changes c ks) →
      IsGreatest (outcomes ((executionTime m h).get c).micros (changes c ks))
        (((ofHistory m h ks).finalCharge.get c).micros : ℤ) ∧
      ((((ofHistory m h ks).finalCharge.get c).micros : ℤ) =
          ((executionTime m h).get c).micros + (changes c ks).sum ↔
        (executionTime m h).Covers c ks)) ∧
    (0 : ℤ) ≤ ((ofHistory m h ks).finalCharge.get c).micros ∧
    ((ofHistory m h ks).finalCharge.get c).micros ≤
      ((executionTime m h).get c).micros + added c ks ∧
    (ofHistory m h ks).finalCharge.get c = (ofHistory m h (ofClass c ks)).finalCharge.get c ∧
    ∀ ks', (∀ d, ofClass d ks' = ofClass d ks) →
      (ofHistory m h ks').finalCharge = (ofHistory m h ks).finalCharge := by
  have hfinal : ∀ ks, (ofHistory m h ks).finalCharge = (executionTime m h).corrected ks := fun _ => rfl
  refine ⟨fun hrange => ?_, Int.natCast_nonneg _, ?_, ?_, fun ks' hks => ?_⟩
  · rw [hfinal, CategorizedTime.micros_get_corrected hrange]
    exact ⟨isGreatest_balance _ _, CategorizedTime.balance_eq_iff hrange⟩
  · rw [hfinal, CategorizedTime.get_corrected]
    exact micros_foldl_apply_le _ _
  · rw [hfinal, hfinal, CategorizedTime.get_corrected, CategorizedTime.get_corrected, ofClass_ofClass]
  · rw [hfinal, hfinal, CategorizedTime.corrected_congr hks]

/-- A minute is given back for the weather where nothing was executed, and 25 seconds are added. -/
def weather : List TimeCorrection :=
  [⟨some "v-1", .program, .subtract, .ofSeconds 60, some "weather"⟩,
    ⟨some "v-1", .partner, .add, .ofSeconds 5, none⟩,
    ⟨some "v-1", .program, .add, .ofSeconds 25, none⟩]

/-- The minute was not there, so that the 25 seconds are charged. -/
theorem finalCharge_eq_weather :
    WithinRange ((executionTime .standard ⟨[]⟩).get .program).micros (changes .program weather) ∧
    IsGreatest (outcomes ((executionTime .standard ⟨[]⟩).get .program).micros
      (changes .program weather)) 25000000 ∧
    ¬(executionTime .standard ⟨[]⟩).Covers .program weather := by
  have hrange : WithinRange ((executionTime .standard ⟨[]⟩).get .program).micros
      (changes .program weather) := by decide +kernel
  have hfinal : ((ofHistory .standard ⟨[]⟩ weather).finalCharge.get .program).micros = 25000000 := by
    decide +kernel
  have hsum : ((executionTime .standard ⟨[]⟩).get .program).micros +
      (changes .program weather).sum = -35000000 := by decide +kernel
  obtain ⟨hclosed, -⟩ := finalCharge_eq .standard ⟨[]⟩ weather .program
  obtain ⟨hgreatest, hcovers⟩ := hclosed hrange
  rw [hfinal] at hgreatest hcovers
  rw [← hcovers, hsum]
  exact ⟨hrange, hgreatest, by decide⟩

end Invoice
end Observing
