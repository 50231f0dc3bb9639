import Observing.History

/-!
# Charged time

Time split by who is charged for it, and the corrections that are made to it by hand.

* `CategorizedTime`                 a span for each charge class;
* `CategorizedTime.add`, `subtract`  time charged and given back, never below none;
* `CategorizedTime.corrected`       corrections made one after another;
* `CategorizedTime.sum`             the sum of a list, class by class.

Main statements: charging changes only its own class (`get_add_of_ne`, `get_subtract_of_ne`), and
sums may be taken in any order (`CategorizedTime.plus_comm`, `plus_assoc`).
-/

namespace Observing

structure CategorizedTime where
  program : TimeSpan
  partner : TimeSpan
  nonCharged : TimeSpan
deriving DecidableEq

namespace CategorizedTime

instance : OfNat CategorizedTime 0 := ⟨⟨0, 0, 0⟩⟩

instance : Inhabited CategorizedTime := ⟨0⟩

def get (t : CategorizedTime) : ChargeClass → TimeSpan
  | .program => t.program
  | .partner => t.partner
  | .nonCharged => t.nonCharged

theorem ext_get {a b : CategorizedTime} (h : ∀ c, a.get c = b.get c) : a = b := by
  obtain ⟨_, _, _⟩ := a
  obtain ⟨_, _, _⟩ := b
  have hp := h .program
  have hq := h .partner
  have hn := h .nonCharged
  simp only [get] at hp hq hn
  rw [hp, hq, hn]

def set (t : CategorizedTime) (c : ChargeClass) (amount : TimeSpan) : CategorizedTime :=
  match c with
  | .program => { t with program := amount }
  | .partner => { t with partner := amount }
  | .nonCharged => { t with nonCharged := amount }

theorem get_set_self (t : CategorizedTime) (c : ChargeClass) (a : TimeSpan) :
    (t.set c a).get c = a := by
  cases c <;> rfl

theorem get_set_of_ne (t : CategorizedTime) {c d : ChargeClass} (h : d ≠ c) (a : TimeSpan) :
    (t.set c a).get d = t.get d := by
  cases c <;> cases d <;> first | rfl | exact absurd rfl h

def total (t : CategorizedTime) : TimeSpan := t.program + t.partner + t.nonCharged

def add (t : CategorizedTime) (c : ChargeClass) (amount : TimeSpan) : CategorizedTime :=
  t.set c (t.get c + amount)

/-- Time given back to a class, at most what it has. -/
def subtract (t : CategorizedTime) (c : ChargeClass) (amount : TimeSpan) : CategorizedTime :=
  t.set c ((t.get c).minus amount)

theorem get_add_self (t : CategorizedTime) (c : ChargeClass) (a : TimeSpan) :
    (t.add c a).get c = t.get c + a :=
  get_set_self ..

theorem get_add_of_ne (t : CategorizedTime) {c d : ChargeClass} (h : d ≠ c) (a : TimeSpan) :
    (t.add c a).get d = t.get d :=
  get_set_of_ne _ h _

theorem get_subtract_self (t : CategorizedTime) (c : ChargeClass) (a : TimeSpan) :
    (t.subtract c a).get c = (t.get c).minus a :=
  get_set_self ..

theorem get_subtract_of_ne (t : CategorizedTime) {c d : ChargeClass} (h : d ≠ c) (a : TimeSpan) :
    (t.subtract c a).get d = t.get d :=
  get_set_of_ne _ h _

/-! ## Sums -/

def plus (a b : CategorizedTime) : CategorizedTime :=
  ⟨a.program + b.program, a.partner + b.partner, a.nonCharged + b.nonCharged⟩

instance : Add CategorizedTime := ⟨plus⟩

def sum (ts : List CategorizedTime) : CategorizedTime := ts.foldl (· + ·) 0

theorem get_plus (a b : CategorizedTime) (c : ChargeClass) : (a + b).get c = a.get c + b.get c := by
  cases c <;> rfl

theorem plus_comm (a b : CategorizedTime) : a + b = b + a :=
  ext_get fun c => by rw [get_plus, get_plus, TimeSpan.add_comm]

theorem plus_assoc (a b c : CategorizedTime) : a + b + c = a + (b + c) :=
  ext_get fun d => by simp only [get_plus, TimeSpan.add_assoc]

theorem get_zero (c : ChargeClass) : (0 : CategorizedTime).get c = 0 := by
  cases c <;> rfl

end CategorizedTime

/-! ## Corrections -/

inductive CorrectionOp
  | add
  | subtract
deriving DecidableEq

instance : Named CorrectionOp where
  values := [.add, .subtract]
  name
    | .add => "add"
    | .subtract => "subtract"

/-- A change of charged time made by hand. -/
structure TimeCorrection where
  visitId : Option String
  chargeClass : ChargeClass
  op : CorrectionOp
  amount : TimeSpan
  comment : Option String
deriving DecidableEq

namespace CategorizedTime

/-- Time added to a class or given back to it. -/
def adjust (t : CategorizedTime) (op : CorrectionOp) (c : ChargeClass) (amount : TimeSpan) :
    CategorizedTime :=
  match op with
  | .add => t.add c amount
  | .subtract => t.subtract c amount

/-- The time after corrections, made in the order given. -/
def corrected (t : CategorizedTime) (corrections : List TimeCorrection) : CategorizedTime :=
  corrections.foldl (fun t k => t.adjust k.op k.chargeClass k.amount) t

end CategorizedTime
end Observing
