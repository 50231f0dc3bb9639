/-!
# Whole numbers of ticks

Every measured quantity is a whole number of its smallest unit.  Such a number has 64 bits and a
sign, and arithmetic that would leave this range stops at the end it runs into.

* `Ticks`          a number in the range;
* `Ticks.clamp`    the number of the range nearest to a whole number;
* `Ticks.ofInt?`   a whole number, if it is in the range;
* `Ticks.ofWord`   the low 64 bits of a natural number, read with a sign.

Main statement: clamping changes exactly the numbers outside the range (`val_clamp_eq_iff`).
-/

namespace Observing

/-- A whole number in the range of 64 bits with a sign. -/
structure Ticks where
  val : Int
  least_le : -9223372036854775808 ≤ val
  le_greatest : val ≤ 9223372036854775807
deriving DecidableEq

namespace Ticks

def greatest : Nat := 9223372036854775807

@[ext] theorem ext {a b : Ticks} (h : a.val = b.val) : a = b := by
  cases a; cases b; cases h; rfl

/-! ## Entering the range -/

theorem min_toNat_le (n : Int) : min n.toNat greatest ≤ greatest := Nat.min_le_right _ _

def clamp (n : Int) : Ticks :=
  ⟨max (-9223372036854775808) (min n 9223372036854775807), by omega, by omega⟩

/-- The number `n`, if it is in the range. -/
def ofInt? (n : Int) : Option Ticks :=
  if h : -9223372036854775808 ≤ n ∧ n ≤ 9223372036854775807 then some ⟨n, h.1, h.2⟩ else none

/-- The low 64 bits of `n`, the topmost of them read as the sign. -/
def ofWord (n : Nat) : Ticks :=
  clamp (Int.bmod n 18446744073709551616)

theorem val_clamp (n : Int) :
    (clamp n).val = max (-9223372036854775808) (min n 9223372036854775807) := rfl

theorem val_clamp_eq_iff (n : Int) :
    (clamp n).val = n ↔ -9223372036854775808 ≤ n ∧ n ≤ 9223372036854775807 := by
  rw [val_clamp]; omega

@[simp] theorem clamp_val (a : Ticks) : clamp a.val = a :=
  ext ((val_clamp_eq_iff a.val).2 ⟨a.least_le, a.le_greatest⟩)

theorem ofInt?_eq_some_iff {n : Int} {a : Ticks} : ofInt? n = some a ↔ n = a.val := by
  constructor
  · intro h
    unfold ofInt? at h
    split at h
    · cases h; rfl
    · cases h
  · rintro rfl
    simp [ofInt?, a.least_le, a.le_greatest]

@[simp] theorem ofInt?_val (a : Ticks) : ofInt? a.val = some a :=
  ofInt?_eq_some_iff.2 rfl

/-! ## Arithmetic -/

instance : OfNat Ticks 0 := ⟨⟨0, by decide, by decide⟩⟩

instance : Inhabited Ticks := ⟨0⟩

/-- The sum, stopped at the ends of the range. -/
def add (a b : Ticks) : Ticks := clamp (a.val + b.val)

/-- The difference, stopped at the ends of the range. -/
def sub (a b : Ticks) : Ticks := clamp (a.val - b.val)

/-- The opposite number, stopped at the upper end of the range. -/
def neg (a : Ticks) : Ticks := clamp (-a.val)

end Ticks
end Observing
