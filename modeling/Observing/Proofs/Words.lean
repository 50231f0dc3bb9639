import Observing.Proofs.CanonicalCycle
import Observing.Proofs.Exposures

/-!
# Arithmetic in words

Plans are computed with numbers of 64 bits, and exposures are counted with 32.  An operation whose result
does not fit, that takes more away than there is, or that divides by none, has no result here; neither has
an index beyond a list.  So a computation that has a result stayed in range from the beginning to the end.

* `Word.add?`, `mul?`, `sub?`, `div?`, `mod?`   the operations;
* `Word.gcd?`, `lcm?`, `ceilDiv?`               what is computed with them has the mathematical result;
* `Cycle.period?`, `Cycle.reduce?`              the reduction of a cycle, with its remainders and indices;
* `Decimal.write?`                              the text of a number of ticks.
-/

namespace Observing
namespace Word

variable {a b n d : ℕ}

/-! ## Operations -/

/-- A number, if it has 64 bits at most. -/
def ofNat? (n : ℕ) : Option ℕ := if n < 2 ^ 64 then some n else none

/-- A number, if it has 32 bits at most. -/
def half? (n : ℕ) : Option ℕ := if n < 2 ^ 32 then some n else none

/-- A number, if it has 64 bits at most and the topmost is left for the sign. -/
def signed? (n : ℕ) : Option ℕ := if n < 2 ^ 63 then some n else none

def add? (a b : ℕ) : Option ℕ := ofNat? (a + b)

def mul? (a b : ℕ) : Option ℕ := ofNat? (a * b)

def sub? (a b : ℕ) : Option ℕ := if b ≤ a then some (a - b) else none

def div? (a b : ℕ) : Option ℕ := if b = 0 then none else some (a / b)

def mod? (a b : ℕ) : Option ℕ := if b = 0 then none else some (a % b)

/-- The sum, stopped at the greatest word. -/
def stoppedAdd (a b : ℕ) : ℕ := min (a + b) (2 ^ 64 - 1)

/-- The product, stopped at the greatest word. -/
def stoppedMul (a b : ℕ) : ℕ := min (a * b) (2 ^ 64 - 1)

theorem half?_eq (h : n < 2 ^ 32) : half? n = some n := if_pos h

theorem add?_eq (h : a + b < 2 ^ 64) : add? a b = some (a + b) := if_pos h

theorem mul?_eq (h : a * b < 2 ^ 64) : mul? a b = some (a * b) := if_pos h

theorem sub?_eq (h : b ≤ a) : sub? a b = some (a - b) := if_pos h

theorem div?_eq (h : 0 < b) : div? a b = some (a / b) := if_neg h.ne'

theorem mod?_eq (h : 0 < b) : mod? a b = some (a % b) := if_neg h.ne'

theorem stoppedAdd_eq (h : a + b < 2 ^ 64) : stoppedAdd a b = a + b :=
  Nat.min_eq_left (Nat.le_sub_one_of_lt h)

theorem stoppedMul_eq (h : a * b < 2 ^ 64) : stoppedMul a b = a * b :=
  Nat.min_eq_left (Nat.le_sub_one_of_lt h)

/-- The product of two numbers of 32 bits has room left in 64. -/
theorem mul_le (ha : a < 2 ^ 32) (hb : b < 2 ^ 32) : a * b ≤ (2 ^ 32 - 1) * (2 ^ 32 - 1) :=
  Nat.mul_le_mul (Nat.le_sub_one_of_lt ha) (Nat.le_sub_one_of_lt hb)

theorem mul_lt (ha : a < 2 ^ 32) (hb : b < 2 ^ 32) : a * b < 2 ^ 64 :=
  (mul_le ha hb).trans_lt (by decide)

example : mul? (2 ^ 32) (2 ^ 32) = none := by decide

/-! ## Divisors and multiples -/

/-- The greatest common divisor, by repeated remainders. -/
def gcd? (a b : ℕ) : Option ℕ :=
  if b = 0 then some a
  else
    match _h : mod? a b with
    | none => none
    | some r => gcd? b r
termination_by b
decreasing_by
  rename_i hb
  rw [mod?_eq (Nat.pos_of_ne_zero hb)] at _h
  cases _h
  exact Nat.mod_lt _ (Nat.pos_of_ne_zero hb)

theorem gcd?_eq (a b : ℕ) : gcd? a b = some (Nat.gcd a b) := by
  fun_induction gcd? a b with
  | case1 a => rw [Nat.gcd_zero_right]
  | case2 a b hb h =>
    rw [mod?_eq (Nat.pos_of_ne_zero hb)] at h
    cases h
  | case3 a b hb r h ih =>
    rw [mod?_eq (Nat.pos_of_ne_zero hb)] at h
    cases h
    rw [ih, Nat.gcd_comm b, ← Nat.gcd_rec, Nat.gcd_comm b]

/-- The least common multiple: a number, divided by the greatest common divisor, times the other. -/
def lcm? (a b : ℕ) : Option ℕ := do
  mul? (← div? a (← gcd? a b)) b

theorem lcm_le (a b : ℕ) : Nat.lcm a b ≤ a * b := Nat.div_le_self _ _

theorem lcm?_eq (ha : 0 < a) (h : a * b < 2 ^ 64) : lcm? a b = some (Nat.lcm a b) := by
  have hquotient : a / Nat.gcd a b * b = Nat.lcm a b :=
    Nat.div_mul_right_comm (Nat.gcd_dvd_left a b) b
  have hfits : a / Nat.gcd a b * b < 2 ^ 64 := by
    rw [hquotient]
    exact (lcm_le a b).trans_lt h
  rw [lcm?, gcd?_eq]
  show (do mul? (← div? a (Nat.gcd a b)) b) = _
  rw [div?_eq (Nat.gcd_pos_of_pos_left b ha)]
  show mul? (a / Nat.gcd a b) b = _
  rw [mul?_eq hfits, hquotient]

/-- The quotient, one more where a remainder is left, and none where nothing is divided by. -/
def ceilDiv? (n d : ℕ) : Option ℕ := do
  if d = 0 then return 0
  let quotient ← div? n d
  if 0 < (← mod? n d) then add? quotient 1 else return quotient

theorem ceilDiv?_eq (h : n < 2 ^ 32) (d : ℕ) : ceilDiv? n d = some (ceilDiv n d) := by
  by_cases hd : d = 0
  · rw [ceilDiv?, ceilDiv, if_pos hd, if_pos hd]
    rfl
  · have hpos : 0 < d := Nat.pos_of_ne_zero hd
    have hquotient : n / d ≤ n := Nat.div_le_self n d
    have hsplit := Nat.div_add_mod n d
    rw [ceilDiv?, ceilDiv, if_neg hd, if_neg hd, div?_eq hpos, mod?_eq hpos]
    show (if 0 < n % d then add? (n / d) 1 else some (n / d)) = _
    by_cases hrest : 0 < n % d
    · have hmore : (n + d - 1) / d = n / d + 1 := by
        rw [Nat.div_eq_iff hpos, Nat.succ_mul, Nat.mul_comm]
        have hlt := Nat.mod_lt n hpos
        omega
      rw [if_pos hrest, add?_eq (by omega), hmore]
    · have hsame : (n + d - 1) / d = n / d := by
        rw [Nat.div_eq_iff hpos, Nat.mul_comm]
        omega
      rw [if_neg hrest, hsame]

end Word

/-! ## Lists -/

section

variable {α β : Type} {l : List α}

theorem mapM_eq_some_map {f : α → Option β} {g : α → β} (h : ∀ a ∈ l, f a = some (g a)) :
    l.mapM f = some (l.map g) := by
  induction l with
  | nil => rfl
  | cons a l ih =>
    obtain ⟨ha, hl⟩ := List.forall_mem_cons.1 h
    rw [List.mapM_cons, ha, ih hl]
    rfl

theorem allM_eq_some_all {f : α → Option Bool} {g : α → Bool} (h : ∀ a ∈ l, f a = some (g a)) :
    l.allM f = some (l.all g) := by
  induction l with
  | nil => rfl
  | cons a l ih =>
    obtain ⟨ha, hl⟩ := List.forall_mem_cons.1 h
    rw [List.allM, ha, List.all_cons]
    cases g a with
    | false => rfl
    | true => exact ih hl

theorem findM?_eq_some_find? {f : α → Option Bool} {g : α → Bool}
    (h : ∀ a ∈ l, f a = some (g a)) : l.findM? f = some (l.find? g) := by
  induction l with
  | nil => rfl
  | cons a l ih =>
    obtain ⟨ha, hl⟩ := List.forall_mem_cons.1 h
    rw [List.findM?, ha, List.find?_cons]
    cases g a with
    | true => rfl
    | false => exact ih hl

end

/-! ## Cycles -/

namespace Cycle

variable {α : Type} {l : List α} {p : ℕ}

/-- A list consists of copies of its beginning when every value is that at the remainder of its index. -/
theorem hasPeriod_iff (hp : 0 < p) (hle : p ≤ l.length) :
    HasPeriod l p ↔ l.length % p = 0 ∧ ∀ i < l.length, l[i]? = l[i % p]? := by
  have hne : l ≠ [] := List.ne_nil_of_length_pos (hp.trans_le hle)
  have htake : ∀ i, walk (l.take p) i = l[i % p]? := by
    intro i
    have hlt : i % p < p := Nat.mod_lt i hp
    rw [walk, List.length_take, Nat.min_eq_left hle, List.getElem?_take_of_lt hlt]
  constructor
  · intro h
    refine ⟨h.1, fun i hi => ?_⟩
    rw [← walk_of_lt hi, ← walk_take_of_hasPeriod hne h, htake]
  · rintro ⟨hdvd, hsame⟩
    have hwalk : walk l = walk (l.take p) := by
      funext i
      have hlt : i % l.length < l.length := Nat.mod_lt i (hp.trans_le hle)
      rw [htake, walk, hsame _ hlt, Nat.mod_mod_of_dvd i (Nat.dvd_of_mod_eq_zero hdvd)]
    refine hasPeriod_of_periodic hp hle (Nat.dvd_of_mod_eq_zero hdvd) ?_
    have hperiodic := walk_periodic (l.take p)
    rwa [← hwalk, List.length_take, Nat.min_eq_left hle] at hperiodic

variable [DecidableEq α]

/-- The value at every index is that at its remainder. -/
def repeats? (l : List α) (p : ℕ) : Option Bool := do
  if (← Word.mod? l.length p) = 0 then
    (List.range l.length).allM fun i => do
      return (← l[i]?) = (← l[← Word.mod? i p]?)
  else return false

/-- The length of the shortest list that is repeated. -/
def period? (l : List α) : Option ℕ := do
  return (← ((List.range l.length).map (· + 1)).findM? (repeats? l)).getD l.length

def reduce? (l : List α) : Option (List α) := do
  let cycle := unwrap (collapse l)
  return cycle.take (← period? cycle)

theorem repeats?_eq (hp : 0 < p) (hle : p ≤ l.length) :
    repeats? l p = some (decide (HasPeriod l p)) := by
  rw [repeats?, Word.mod?_eq hp]
  show (if l.length % p = 0 then _ else some false) = _
  by_cases hdvd : l.length % p = 0
  · have hall : (List.range l.length).allM (fun i => do
        return decide ((← l[i]?) = (← l[← Word.mod? i p]?))) =
        some ((List.range l.length).all fun i => decide (l[i]? = l[i % p]?)) := by
      refine allM_eq_some_all fun i hi => ?_
      have hlt : i < l.length := List.mem_range.1 hi
      have hrest : i % p < l.length := (Nat.mod_lt i hp).trans_le hle
      rw [Word.mod?_eq hp, List.getElem?_eq_getElem hlt]
      show (do return decide (l[i] = (← l[i % p]?))) = _
      rw [List.getElem?_eq_getElem hrest]
      show some (decide (l[i] = l[i % p])) = _
      simp only [Option.some.injEq]
    rw [if_pos hdvd, hall]
    refine congrArg some ?_
    rw [Bool.eq_iff_iff, List.all_eq_true, decide_eq_true_eq, hasPeriod_iff hp hle]
    simp [hdvd]
  · rw [if_neg hdvd]
    refine congrArg some (decide_eq_false fun h => hdvd h.1).symm

theorem period?_eq (l : List α) : period? l = some (period l) := by
  have hfind : ((List.range l.length).map (· + 1)).findM? (repeats? l) =
      some (((List.range l.length).map (· + 1)).find? fun p => decide (HasPeriod l p)) := by
    refine findM?_eq_some_find? fun p hp => ?_
    obtain ⟨i, hi, rfl⟩ := List.mem_map.1 hp
    exact repeats?_eq (Nat.succ_pos i) (List.mem_range.1 hi)
  rw [period?, hfind]
  rfl

theorem reduce?_eq (l : List α) : reduce? l = some (reduce l) := by
  rw [reduce?, period?_eq]
  rfl

end Cycle

/-! ## Texts -/

namespace Decimal

/-- The text of a number of ticks, its units and the digits behind the point taken apart by division. -/
def write? (places : ℕ) (n : ℤ) : Option String := do
  let whole ← Word.div? n.natAbs (10 ^ places)
  let rest ← Word.mod? n.natAbs (10 ^ places)
  return (if n < 0 then "-" else "")
    ++ (toString whole ++ "." ++ String.ofList (lastDigits places rest))

theorem lastDigits_mod (places n : ℕ) : lastDigits places (n % 10 ^ places) = lastDigits places n := by
  induction places generalizing n with
  | zero => rfl
  | succ places ih =>
    have hdiv : n % 10 ^ (places + 1) / 10 = n / 10 % 10 ^ places := by
      rw [Nat.pow_succ', Nat.mod_mul_right_div_self]
    have hmod : n % 10 ^ (places + 1) % 10 = n % 10 :=
      Nat.mod_mod_of_dvd n (Dvd.intro_left _ (Nat.pow_succ ..).symm)
    rw [lastDigits, lastDigits, hdiv, hmod, ih]

theorem write?_eq (places : ℕ) (n : ℤ) : write? places n = some (write places n) := by
  have hpos : 0 < 10 ^ places := Nat.pow_pos (by decide)
  rw [write?, Word.div?_eq hpos, Word.mod?_eq hpos]
  show some (_ ++ (_ ++ String.ofList (lastDigits places (n.natAbs % 10 ^ places)))) = _
  rw [lastDigits_mod]
  rfl

end Decimal
end Observing
