import Observing.Rounding
import Observing.Text
import Observing.Ticks

/-!
# JSON documents

* `Json`             a document; an object keeps its fields as they were written, repeated ones included;
* `Json.isReadable`  no part of a document is unreadable;
* `Json.within`      a document without what is nested too deep;
* `Json.condensed`   a document with nothing in place of an empty object under a single name;
* `Json.number`      the number that digits denote.

A number without point and exponent is an integer as long as it fits into 64 bits, with or without a
sign.  Every other number has 53 significant bits.  One that is too great for them is unreadable: it
is well formed, and does no harm where it is passed over.

Main statement: what is nested too deep is left out once and for all (`within_within`).
-/

namespace Observing

/-- A document. -/
inductive Json
  | null
  | bool (value : Bool)
  | integer (value : Int)
  | decimal (value : Rat)
  | text (value : String)
  | list (items : List Json)
  | object (fields : List (String × Json))
  /-- A part that is well formed and denotes nothing. -/
  | unreadable

namespace Json

-- Powers are those of the core library, also where an algebraic one is at hand.
attribute [local instance (high)] instPowNat

instance : Inhabited Json := ⟨null⟩

mutual

def isReadable : Json → Bool
  | unreadable => false
  | list items => itemsReadable items
  | object fields => fieldsReadable fields
  | null | bool _ | integer _ | decimal _ | text _ => true

def itemsReadable : List Json → Bool
  | [] => true
  | j :: js => j.isReadable && itemsReadable js

def fieldsReadable : List (String × Json) → Bool
  | [] => true
  | (_, j) :: fs => j.isReadable && fieldsReadable fs

end

/-! ## Depth -/

/-- The document in which lists and objects are nested `depth` times at most.  Deeper ones are
unreadable. -/
def within : (depth : Nat) → Json → Json
  | 0, list _ | 0, object _ => unreadable
  | depth + 1, list items => list (items.map (within depth))
  | depth + 1, object fields => object (fields.map fun (name, j) => (name, within depth j))
  | _, j => j

theorem within_within (depth : Nat) (j : Json) : (j.within depth).within depth = j.within depth := by
  induction depth generalizing j with
  | zero => cases j <;> rfl
  | succ depth ih => cases j <;> simp [within, ih]

/-! ## Empty objects -/

mutual

/-- The document with nothing in place of every empty object that is the only field of another. -/
def condensed : Json → Json
  | object [(name, object [])] => object [(name, null)]
  | object fields => object (fieldsCondensed fields)
  | list items => list (itemsCondensed items)
  | j => j

/-- The items, each with nothing in place of such objects. -/
def itemsCondensed : List Json → List Json
  | [] => []
  | j :: js => j.condensed :: itemsCondensed js

/-- The fields, the value of each with nothing in place of such objects. -/
def fieldsCondensed : List (String × Json) → List (String × Json)
  | [] => []
  | (name, j) :: fs => (name, j.condensed) :: fieldsCondensed fs

end

/-! ## Numbers -/

/-- The number that the leading digits denote behind those read before, as far as it fits into 64
bits, and the number of digits that were used. -/
def leading : (before : Nat) → List Char → Nat × Nat
  | n, [] => (n, 0)
  | n, c :: cs =>
    let next := 10 * n + Text.digitValue c
    if next ≤ Text.greatestWord then
      let (m, used) := leading next cs
      (m, used + 1)
    else (n, 0)

def powerOfTen (k : Nat) : Rat := Rounding.significant ((10 ^ k : Nat) : Rat)

/-- The number `n * 10 ^ e` with 53 significant bits, unless it is too great for eleven bits of
exponent.  Numbers too small for them are zero. -/
def scaled? (n : Nat) (e : Int) : Option Rat :=
  let x := Rounding.significant (n : Rat)
  if n = 0 then some 0
  else if 308 < e then none
  else if 0 ≤ e then
    let y := Rounding.significant (x * powerOfTen e.toNat)
    if y < ((2 ^ (1024 : Nat) : Nat) : Rat) then some y else none
  else if -308 ≤ e then some (Rounding.significant (x / powerOfTen (-e).toNat))
  else if -400 ≤ e then
    let y := Rounding.significant (x / powerOfTen 308)
    some (Rounding.significant (y / powerOfTen (-e - 308).toNat))
  else some 0

/-- The number written with the given sign, digits in front of the point, digits behind it and
exponent. -/
def number (negative : Bool) (whole : List Char) (fraction : Option (List Char))
    (exponent : Option Int) : Json :=
  let n := Text.digitsValue whole
  if fraction.isNone && exponent.isNone && !negative && n ≤ Text.greatestWord then
    integer n
  else if fraction.isNone && exponent.isNone && negative && 0 < n && n ≤ Ticks.greatest + 1 then
    integer (-(n : Int))
  else
    let (m, used) := leading 0 whole
    let (m, behind) := leading m (fraction.getD [])
    let e : Int := (whole.length - used : Nat) - (behind : Int) + exponent.getD 0
    match scaled? m e with
    | some x => decimal (if negative then -x else x)
    | none => unreadable

end Json
end Observing
