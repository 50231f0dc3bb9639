import Observing.Text
import Observing.Ticks

/-!
# Decimal text of a fixed number of places

A number of ticks is shown in a larger unit of `10 ^ places` ticks.

* `Decimal.write`   an optional minus sign, the whole units, a point and exactly `places` digits;
* `Decimal.read?`   the ticks that a text denotes, if it denotes a whole number of them.

A text with more than `places` digits behind the point is refused and never rounded.  One sign is
taken off the front; the whole units behind it are an integer of their own, so that a second sign
in front of them is read as well.
-/

namespace Observing
namespace Decimal

-- Powers are those of the core library, also where an algebraic one is at hand.
attribute [local instance (high)] instPowNat

/-! ## Writing -/

/-- The last `places` decimal digits of `n`, zeros in front included. -/
def lastDigits : (places : Nat) → (n : Nat) → List Char
  | 0, _ => []
  | places + 1, n => lastDigits places (n / 10) ++ [Nat.digitChar (n % 10)]

theorem length_lastDigits (places n : Nat) : (lastDigits places n).length = places := by
  induction places generalizing n with
  | zero => rfl
  | succ k ih => simp [lastDigits, ih]

def writeNat (places : Nat) (n : Nat) : String :=
  toString (n / 10 ^ places) ++ "." ++ String.ofList (lastDigits places n)

/-- The text of a number of ticks: a minus sign stands in front of a negative one. -/
def write (places : Nat) (n : Int) : String :=
  (if n < 0 then "-" else "") ++ writeNat places n.natAbs

/-! ## Reading -/

/-- The part of a text in front of the first point. -/
def wholePart (cs : List Char) : List Char :=
  cs.takeWhile (· != '.')

/-- The part of a text behind the first point, empty where there is none. -/
def fractionPart (cs : List Char) : List Char :=
  (cs.dropWhile (· != '.')).drop 1

/-- The ticks that the digits behind the point stand for. -/
def fractionTicks (places : Nat) (cs : List Char) : Nat :=
  Text.digitsValue cs * 10 ^ (places - cs.length)

/-- The ticks that a text without its leading sign denotes.  The units alone and the whole have to
be in the range. -/
def magnitude? (places : Nat) (cs : List Char) : Option Ticks := do
  let whole := wholePart cs
  let fraction := fractionPart cs
  if whole.isEmpty && fraction.isEmpty then none
  else if !(fraction.length ≤ places && fraction.all Text.isDigit) then none
  else
    let units ← if whole.isEmpty then some 0 else Text.integer? whole
    let ticks ← Ticks.ofInt? (units * 10 ^ places)
    Ticks.ofInt? (ticks.val + fractionTicks places fraction)

/-- The ticks that a text denotes, blanks around it left aside. -/
def read? (places : Nat) (s : String) : Option Ticks :=
  match Text.trim s.toList with
  | '-' :: cs => (magnitude? places cs).map Ticks.neg
  | '+' :: cs => magnitude? places cs
  | cs => magnitude? places cs

end Decimal
end Observing
