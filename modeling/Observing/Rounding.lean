/-!
# Numbers of 53 significant bits

Distances on the sky and quantities given as plain numbers are worked out with 53 significant bits:
each operation gives the exact result, rounded once.

* `Rounding.significant`   the number of 53 significant bits nearest to a rational number;
* `Rounding.root`          the one nearest to a square root;
* `Rounding.nearest`       the whole number nearest to a rational number, halves away from zero;
* `Rounding.places`        the whole number of `10 ^ -k` nearest to a rational number.

Main statements: `root n` of `floorRoot` is the greatest number whose square does not exceed `n`
(`floorRoot_sq_le`, `lt_succ_floorRoot_sq`), and a quotient is rounded by at most half a unit
(`nearestEven_bounds`).
-/

namespace Observing
namespace Rounding

-- Powers are those of the core library, also where an algebraic one is at hand.
attribute [local instance (high)] instPowNat

/-! ## Whole numbers -/

/-- The whole number nearest to `a / b`, a half going to the even neighbour. -/
def nearestEven (a b : Nat) : Nat :=
  if 2 * (a % b) < b then a / b
  else if b < 2 * (a % b) then a / b + 1
  else a / b + a / b % 2

/-- The whole number nearest to `a / b`, a half going up. -/
def nearestUp (a b : Nat) : Nat :=
  (2 * a + b) / (2 * b)

theorem nearestEven_bounds (a : Nat) {b : Nat} (hb : 0 < b) :
    2 * a ≤ 2 * (b * nearestEven a b) + b ∧ 2 * (b * nearestEven a b) ≤ 2 * a + b := by
  have hdiv := Nat.div_add_mod a b
  have hlt := Nat.mod_lt a hb
  have hpar : a / b % 2 = 0 ∨ a / b % 2 = 1 := by omega
  unfold nearestEven
  split
  · omega
  · split
    · rw [Nat.mul_add]; omega
    · rcases hpar with h | h <;> rw [h, Nat.mul_add] <;> omega

/-- The greatest number whose square is at most `n`. -/
def floorRoot (n : Nat) : Nat :=
  if h : n = 0 then 0
  else
    let r := 2 * floorRoot (n / 4)
    if (r + 1) * (r + 1) ≤ n then r + 1 else r
termination_by n
decreasing_by omega

theorem floorRoot_bounds (n : Nat) :
    floorRoot n * floorRoot n ≤ n ∧ n < (floorRoot n + 1) * (floorRoot n + 1) := by
  induction n using Nat.strongRecOn with
  | _ n ih =>
    rw [floorRoot]
    split
    · subst n; decide
    · obtain ⟨hl, hu⟩ := ih (n / 4) (by omega)
      generalize floorRoot (n / 4) = s at hl hu
      have hlow : 2 * s * (2 * s) ≤ n := by
        have : 2 * s * (2 * s) = 4 * (s * s) := by rw [Nat.mul_mul_mul_comm]
        omega
      have hhigh : n < (2 * s + 1 + 1) * (2 * s + 1 + 1) := by
        have : (2 * s + 1 + 1) * (2 * s + 1 + 1) = 4 * ((s + 1) * (s + 1)) := by
          rw [show 2 * s + 1 + 1 = 2 * (s + 1) by omega, Nat.mul_mul_mul_comm]
        omega
      dsimp only
      split <;> omega

theorem floorRoot_sq_le (n : Nat) : floorRoot n * floorRoot n ≤ n :=
  (floorRoot_bounds n).1

theorem lt_succ_floorRoot_sq (n : Nat) : n < (floorRoot n + 1) * (floorRoot n + 1) :=
  (floorRoot_bounds n).2

/-! ## Rational numbers -/

def binary (m : Nat) (e : Int) : Rat :=
  if 0 ≤ e then ((m * 2 ^ e.toNat : Nat) : Rat) else mkRat m (2 ^ (-e).toNat)

/-- The exponent `e` for which `a / b` lies between `2 ^ 52 * 2 ^ e` and `2 ^ 53 * 2 ^ e`. -/
def scale (a b : Nat) : Int :=
  let e : Int := (a.log2 : Int) - (b.log2 : Int) - 53
  if a * 2 ^ (-e).toNat < b * 2 ^ (53 + e.toNat) then e else e + 1

/-- The number of 53 significant bits nearest to `a / b`. -/
def quotient (a b : Nat) : Rat :=
  if a = 0 then 0
  else
    let e := scale a b
    binary (nearestEven (a * 2 ^ (-e).toNat) (b * 2 ^ e.toNat)) e

/-- The number of 53 significant bits nearest to `x`. -/
def significant (x : Rat) : Rat :=
  if x.num < 0 then -quotient x.num.natAbs x.den else quotient x.num.natAbs x.den

/-- The number of 53 significant bits nearest to the square root of `x`.  The root is cut off after
more bits than that; the bit appended says whether something was cut off. -/
def root (x : Rat) : Rat :=
  let a := x.num.toNat
  let b := x.den
  let k := 64 + b.log2
  let n := a * 4 ^ k / b
  let r := floorRoot n
  let inexact := if r * r * b = a * 4 ^ k then 0 else 1
  quotient (2 * r + inexact) (2 ^ (k + 1))

/-- The whole number nearest to `x`, a half going away from zero. -/
def nearest (x : Rat) : Int :=
  if x.num < 0 then -(nearestUp x.num.natAbs x.den : Int) else nearestUp x.num.natAbs x.den

/-- The whole number of `10 ^ -places` nearest to a number that is not negative, a half going to the
even neighbour. -/
def places (places : Nat) (x : Rat) : Nat :=
  nearestEven (x.num.toNat * 10 ^ places) x.den

end Rounding
end Observing
