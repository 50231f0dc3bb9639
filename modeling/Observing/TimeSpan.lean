import Observing.Decimal

/-!
# Time spans

A time span is a number of microseconds that is never negative.  Sums and products stop at the
greatest number of ticks, so that adding up spans never turns a long one into a short one.

* `TimeSpan.ofMicros`, `ofMillis`, `ofSeconds`, `ofMinutes`  a span from a number of units;
* `+`, `TimeSpan.minus`, `times`, `divide`, `TimeSpan.sum`    arithmetic;
* `TimeSpan.text`, `TimeSpan.minutes`, `TimeSpan.parse`       seconds and minutes as text.

Main statements: addition is commutative and associative with neutral element zero, and a sum is
the exact sum, stopped at the greatest span (`micros_sum`).
-/

namespace Observing

/-- A length of time in whole microseconds. -/
structure TimeSpan where
  micros : Nat
  micros_le : micros ≤ Ticks.greatest
deriving DecidableEq

namespace TimeSpan

-- Sums are those of the core library, also where an algebraic one is at hand.
attribute [local instance (high)] Zero.ofOfNat0

@[ext] theorem ext {a b : TimeSpan} (h : a.micros = b.micros) : a = b := by
  cases a; cases b; cases h; rfl

/-! ## Spans from numbers of units -/

instance : OfNat TimeSpan 0 := ⟨⟨0, Nat.zero_le _⟩⟩

instance : Inhabited TimeSpan := ⟨0⟩

@[simp] theorem micros_zero : (0 : TimeSpan).micros = 0 := rfl

/-- The span of `n` microseconds: none for a negative number, the greatest span for one beyond it. -/
def ofMicros (n : Int) : TimeSpan :=
  ⟨min n.toNat Ticks.greatest, Ticks.min_toNat_le n⟩

def ofMillis (n : Int) : TimeSpan := ofMicros (n * 1000)

def ofSeconds (n : Int) : TimeSpan := ofMicros (n * 1000000)

def ofMinutes (n : Int) : TimeSpan := ofSeconds (n * 60)

theorem micros_ofMicros (n : Int) : (ofMicros n).micros = min n.toNat Ticks.greatest := rfl

@[simp] theorem ofMicros_micros (t : TimeSpan) : ofMicros t.micros = t := by
  ext; simp [micros_ofMicros, Nat.min_eq_left t.micros_le]

/-! ## Arithmetic -/

def add (a b : TimeSpan) : TimeSpan :=
  ⟨min (a.micros + b.micros) Ticks.greatest, Nat.min_le_right _ _⟩

instance : Add TimeSpan := ⟨add⟩

/-- What is left of a span when another is taken off, at least none. -/
def minus (a b : TimeSpan) : TimeSpan :=
  ⟨a.micros - b.micros, Nat.le_trans (Nat.sub_le _ _) a.micros_le⟩

def times (a : TimeSpan) (n : Int) : TimeSpan := ofMicros (a.micros * n)

/-- The whole microseconds in the `n`-th part of a span; the span itself unless `n` is positive. -/
def divide (a : TimeSpan) (n : Int) : TimeSpan :=
  ⟨if n ≤ 0 then a.micros else a.micros / n.toNat, by
    split
    · exact a.micros_le
    · exact Nat.le_trans (Nat.div_le_self _ _) a.micros_le⟩

def sum (ts : List TimeSpan) : TimeSpan := ts.foldl (· + ·) 0

theorem micros_add (a b : TimeSpan) :
    (a + b).micros = min (a.micros + b.micros) Ticks.greatest := rfl

theorem micros_minus (a b : TimeSpan) : (a.minus b).micros = a.micros - b.micros := rfl

theorem add_comm (a b : TimeSpan) : a + b = b + a := by
  ext; simp [micros_add, Nat.add_comm]

theorem add_assoc (a b c : TimeSpan) : a + b + c = a + (b + c) := by
  ext; simp only [micros_add]; omega

@[simp] theorem add_zero (a : TimeSpan) : a + 0 = a := by
  ext; simp [micros_add, Nat.min_eq_left a.micros_le]

@[simp] theorem zero_add (a : TimeSpan) : 0 + a = a := by
  rw [add_comm, add_zero]

theorem micros_foldl_add (ts : List TimeSpan) (a : TimeSpan) :
    (ts.foldl (· + ·) a).micros = min (a.micros + (ts.map micros).sum) Ticks.greatest := by
  induction ts generalizing a with
  | nil => simp [Nat.min_eq_left a.micros_le]
  | cons t ts ih => simp only [List.foldl_cons, ih, micros_add, List.map_cons, List.sum_cons]; omega

theorem micros_sum (ts : List TimeSpan) :
    (sum ts).micros = min (ts.map micros).sum Ticks.greatest := by
  simp [sum, micros_foldl_add]

/-! ## Order -/

instance : LE TimeSpan := ⟨fun a b => a.micros ≤ b.micros⟩

instance : LT TimeSpan := ⟨fun a b => a.micros < b.micros⟩

instance (a b : TimeSpan) : Decidable (a ≤ b) := inferInstanceAs (Decidable (a.micros ≤ b.micros))

instance (a b : TimeSpan) : Decidable (a < b) := inferInstanceAs (Decidable (a.micros < b.micros))

def longer (a b : TimeSpan) : TimeSpan := if a ≤ b then b else a

/-- The greatest span of a list, if the list has any. -/
def longest? : List TimeSpan → Option TimeSpan
  | [] => none
  | t :: ts => some (ts.foldl longer t)

/-! ## Text -/

def text (t : TimeSpan) : String := Decimal.writeNat 6 t.micros

/-- The minutes of a span, rounded to two places, a half going up. -/
def minutes (t : TimeSpan) : String :=
  Decimal.writeNat 2 ((t.micros * 100 + 30000000) / 60000000)

/-- Why a text is no time span. -/
inductive ParseError
  | malformed (given : String)
  | negative (given : String)
deriving DecidableEq

def ParseError.message : ParseError → String
  | .malformed given => "invalid seconds: " ++ given
  | .negative given => "time span cannot be negative: " ++ given

def parse (given : String) : Except ParseError TimeSpan :=
  match Decimal.read? 6 given with
  | none => .error (.malformed given)
  | some ticks => if ticks.val < 0 then .error (.negative given) else .ok (ofMicros ticks.val)

end TimeSpan
end Observing
