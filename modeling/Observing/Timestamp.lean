import Observing.Decimal

/-!
# Timestamps

A moment in universal time, to the nanosecond.  Within a leap second the nanoseconds of the second
before it go on counting from a thousand million, so that moments are ordered by their two numbers.

* `Timestamp.ofCivil?`  the moment at which calendars and clocks show given numbers;
* `Timestamp.parse?`    reads a date, a time and a zone in the form of RFC 3339, with some slack;
* `Timestamp.text`      the same form in universal time, with no more digits than needed.

Main statement: the order of moments is total (`le_total`) and antisymmetric (`le_antisymm`).
-/

namespace Observing

/-- A moment, as seconds from the beginning of 1970 and nanoseconds behind them. -/
structure Timestamp where
  seconds : Int
  nanos : Nat
deriving DecidableEq

namespace Timestamp

-- Powers are those of the core library, also where an algebraic one is at hand.
attribute [local instance (high)] instPowNat

/-! ## Order -/

protected def LE (a b : Timestamp) : Prop :=
  a.seconds < b.seconds ∨ a.seconds = b.seconds ∧ a.nanos ≤ b.nanos

instance : LE Timestamp := ⟨Timestamp.LE⟩

instance (a b : Timestamp) : Decidable (a ≤ b) :=
  inferInstanceAs (Decidable (_ ∨ _))

theorem le_def {a b : Timestamp} :
    a ≤ b ↔ a.seconds < b.seconds ∨ a.seconds = b.seconds ∧ a.nanos ≤ b.nanos := Iff.rfl

theorem le_refl (a : Timestamp) : a ≤ a := by
  rw [le_def]; omega

theorem le_trans {a b c : Timestamp} (hab : a ≤ b) (hbc : b ≤ c) : a ≤ c := by
  rw [le_def] at *; omega

theorem le_total (a b : Timestamp) : a ≤ b ∨ b ≤ a := by
  rw [le_def, le_def]; omega

theorem le_antisymm {a b : Timestamp} (hab : a ≤ b) (hba : b ≤ a) : a = b := by
  rw [le_def] at *
  obtain ⟨s, n⟩ := a
  obtain ⟨s', n'⟩ := b
  simp only [mk.injEq] at *
  omega

/-! ## Calendar -/

def isLeap (year : Int) : Bool :=
  year % 4 = 0 && (year % 100 != 0 || year % 400 = 0)

def daysIn (year : Int) (month : Nat) : Nat :=
  if month = 2 then (if isLeap year then 29 else 28)
  else if month = 4 ∨ month = 6 ∨ month = 9 ∨ month = 11 then 30
  else 31

/-- The days from the first of January 1970 to a date.  Years are counted from March, so that the
leap day is the last of its year. -/
def daysFromCivil (year : Int) (month day : Nat) : Int :=
  let y := if month ≤ 2 then year - 1 else year
  let era := y.fdiv 400
  let ofEra := y - era * 400
  let ofYear : Int := (153 * ((month : Int) + (if month ≤ 2 then 9 else -3)) + 2) / 5 + day - 1
  era * 146097 + (ofEra * 365 + ofEra / 4 - ofEra / 100 + ofYear) - 719468

/-- The date that lies the given days behind the first of January 1970. -/
def civilFromDays (days : Int) : Int × Nat × Nat :=
  let z := days + 719468
  let era := z.fdiv 146097
  let ofEra := z - era * 146097
  let yearOfEra := (ofEra - ofEra / 1460 + ofEra / 36524 - ofEra / 146096) / 365
  let ofYear := ofEra - (365 * yearOfEra + yearOfEra / 4 - yearOfEra / 100)
  let shifted := (5 * ofYear + 2) / 153
  let day := ofYear - (153 * shifted + 2) / 5 + 1
  let month := if shifted < 10 then shifted + 3 else shifted - 9
  let year := yearOfEra + era * 400 + (if month ≤ 2 then 1 else 0)
  (year, month.toNat, day.toNat)

def yearInRange (year : Int) : Bool :=
  -262143 ≤ year && year ≤ 262142

/-- The moment at which calendar and clock show the given numbers, where they are `offset` seconds
ahead of universal time.  Second 60 is a leap second. -/
def ofCivil? (year : Int) (month day hour minute second nanos : Nat) (offset : Int) :
    Option Timestamp :=
  if yearInRange year && 1 ≤ month && month ≤ 12 && 1 ≤ day && day ≤ daysIn year month
      && hour ≤ 23 && minute ≤ 59 && second ≤ 60 && -86400 < offset && offset < 86400 then
    let leap := second = 60
    let clock : Int := 3600 * hour + 60 * minute + (if leap then 59 else second)
    let seconds := 86400 * daysFromCivil year month day + clock - offset
    if yearInRange (civilFromDays (seconds.fdiv 86400)).1 then
      some ⟨seconds, if leap then nanos + 1000000000 else nanos⟩
    else none
  else none

/-! ## Reading -/

/-- The number at the front of a text, of at least one and at most `width` digits. -/
def number? (width : Nat) (cs : List Char) : Option (Nat × List Char) :=
  let digits := (cs.take width).takeWhile Text.isDigit
  if digits.isEmpty then none else some (Text.digitsValue digits, cs.drop digits.length)

def field? (width : Nat) (cs : List Char) : Option (Nat × List Char) :=
  number? width (Text.trimLeft cs)

/-- A year: four digits at most, any number of them behind a sign. -/
def year? (cs : List Char) : Option (Int × List Char) :=
  match Text.trimLeft cs with
  | '-' :: r => (number? r.length r).map fun (n, r) => (-(n : Int), r)
  | '+' :: r => (number? r.length r).map fun (n, r) => ((n : Int), r)
  | r => (number? 4 r).map fun (n, r) => ((n : Int), r)

/-- The text behind a separator, blanks in front of which are left aside. -/
def separator? (c : Char) (cs : List Char) : Option (List Char) :=
  match Text.trimLeft cs with
  | d :: r => if d = c then some r else none
  | [] => none

/-- The nanoseconds behind a point, if there is one.  Digits behind the ninth are dropped. -/
def fraction? : List Char → Option (Nat × List Char)
  | '.' :: cs =>
    (number? 9 cs).map fun (n, r) =>
      (n * 10 ^ (9 - (cs.length - r.length)), r.dropWhile Text.isDigit)
  | cs => some (0, cs)

/-- The sign of a zone and the text behind it. -/
def zoneSign? : List Char → Option (Int × List Char)
  | '+' :: r => some (1, r)
  | '-' :: r => some (-1, r)
  | '−' :: r => some (-1, r)
  | _ => none

def twoDigits? : List Char → Option (Nat × List Char)
  | a :: b :: r =>
    if Text.isDigit a && Text.isDigit b then some (Text.digitsValue [a, b], r) else none
  | _ => none

/-- The seconds that a zone is ahead of universal time. -/
def zone? (cs : List Char) : Option (Int × List Char) :=
  match cs with
  | 'Z' :: r => some (0, r)
  | 'z' :: r => some (0, r)
  | _ =>
    if (cs.take 3).map Char.toUpper = ['U', 'T', 'C'] then some (0, cs.drop 3)
    else do
      let (sign, r) ← zoneSign? cs
      let (hours, r) ← twoDigits? r
      let (minutes, r) ← twoDigits? (r.dropWhile fun c => c == ':' || Text.isBlank c)
      if minutes ≤ 59 then some (sign * (3600 * hours + 60 * minutes), r) else none

def parse? (s : String) : Option Timestamp := do
  let (year, r) ← year? s.toList
  let r ← separator? '-' r
  let (month, r) ← field? 2 r
  let r ← separator? '-' r
  let (day, r) ← field? 2 r
  let r ← match r with
    | c :: r => if c = 'T' ∨ c = 't' ∨ c = ' ' then some r else none
    | [] => none
  let (hour, r) ← field? 2 r
  let r ← separator? ':' r
  let (minute, r) ← field? 2 r
  let r ← separator? ':' r
  let (second, r) ← field? 2 r
  let (nanos, r) ← fraction? r
  let (offset, r) ← zone? (Text.trimLeft r)
  if (Text.trimLeft r).isEmpty then ofCivil? year month day hour minute second nanos offset
  else none

/-! ## Writing -/

/-- A number with zeros in front, `width` digits at least. -/
def padded (width n : Nat) : String :=
  if n < 10 ^ width then String.ofList (Decimal.lastDigits width n) else toString n

/-- A year: four digits, or with its sign outside of the range that those have. -/
def yearText (year : Int) : String :=
  if 0 ≤ year ∧ year ≤ 9999 then padded 4 year.toNat
  else (if year < 0 then "-" else "+") ++ padded 4 year.natAbs

/-- The digits behind the point, in groups of three and no more of them than needed. -/
def fractionText (nanos : Nat) : String :=
  if nanos = 0 then ""
  else if nanos % 1000000 = 0 then "." ++ padded 3 (nanos / 1000000)
  else if nanos % 1000 = 0 then "." ++ padded 6 (nanos / 1000)
  else "." ++ padded 9 nanos

def text (t : Timestamp) : String :=
  let (year, month, day) := civilFromDays (t.seconds.fdiv 86400)
  let clock := (t.seconds.fmod 86400).toNat
  let second := clock % 60 + t.nanos / 1000000000
  yearText year ++ "-" ++ padded 2 month ++ "-" ++ padded 2 day ++ "T" ++ padded 2 (clock / 3600)
    ++ ":" ++ padded 2 (clock / 60 % 60) ++ ":" ++ padded 2 second
    ++ fractionText (t.nanos % 1000000000) ++ "Z"

end Timestamp
end Observing
