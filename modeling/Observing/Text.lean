/-!
# Blanks, digits and columns of text

* `Text.isBlank`       the characters with the white-space property;
* `Text.trim`          a text without the blanks at its two ends;
* `Text.digitsValue`   the number a run of decimal digits denotes;
* `Text.word?`         a natural number of 64 bits;
* `Text.padRight`      a column of a given width.

Main statements: trimming keeps a text that starts and ends without a blank (`trim_eq_self`), and a
digit added on the right multiplies the number by ten (`digitsValue_concat`).
-/

namespace Observing
namespace Text

/-! ## Blanks -/

/-- The characters with the Unicode property `White_Space`. -/
def isBlank (c : Char) : Bool :=
  (9 ≤ c.toNat && c.toNat ≤ 13) || c.toNat == 0x20 || c.toNat == 0x85 || c.toNat == 0xA0
    || c.toNat == 0x1680 || (0x2000 ≤ c.toNat && c.toNat ≤ 0x200A) || c.toNat == 0x2028
    || c.toNat == 0x2029 || c.toNat == 0x202F || c.toNat == 0x205F || c.toNat == 0x3000

theorem isBlank_of_isWhitespace {c : Char} (h : c.isWhitespace) : isBlank c := by
  simp only [Char.isWhitespace, Bool.or_eq_true, decide_eq_true_eq] at h
  rcases h with ((rfl | rfl) | rfl) | rfl <;> decide

def trimLeft (cs : List Char) : List Char :=
  cs.dropWhile isBlank

/-- A text without the blanks at its two ends. -/
def trim (cs : List Char) : List Char :=
  (trimLeft (trimLeft cs).reverse).reverse

theorem trimLeft_eq_self {cs : List Char} (h : ∀ c ∈ cs.head?, isBlank c = false) :
    trimLeft cs = cs := by
  cases cs with
  | nil => rfl
  | cons c r => simp [trimLeft, h c (by simp)]

theorem trim_eq_self {cs : List Char} (hl : ∀ c ∈ cs.head?, isBlank c = false)
    (hr : ∀ c ∈ cs.getLast?, isBlank c = false) : trim cs = cs := by
  rw [trim, trimLeft_eq_self hl, trimLeft_eq_self (by simpa using hr), List.reverse_reverse]

/-! ## Digits -/

def isDigit (c : Char) : Bool :=
  '0'.toNat ≤ c.toNat && c.toNat ≤ '9'.toNat

def digitValue (c : Char) : Nat :=
  c.toNat - '0'.toNat

/-- The number that a run of decimal digits denotes. -/
def digitsValue (cs : List Char) : Nat :=
  cs.foldl (fun n c => 10 * n + digitValue c) 0

@[simp] theorem digitsValue_nil : digitsValue [] = 0 := rfl

theorem digitsValue_concat (cs : List Char) (c : Char) :
    digitsValue (cs ++ [c]) = 10 * digitsValue cs + digitValue c := by
  simp [digitsValue]

def natural? (cs : List Char) : Option Nat :=
  if !cs.isEmpty && cs.all isDigit then some (digitsValue cs) else none

/-- A natural number of at most `greatest`; a plus sign may stand in front of it. -/
def naturalUpTo? (greatest : Nat) (s : String) : Option Nat :=
  let digits :=
    match s.toList with
    | '+' :: cs => cs
    | cs => cs
  (natural? digits).bind fun n => if n ≤ greatest then some n else none

def greatestWord : Nat := 18446744073709551615

def word? (s : String) : Option Nat := naturalUpTo? greatestWord s

/-- One or more digits behind at most one sign. -/
def integer? : List Char → Option Int
  | '-' :: cs => (natural? cs).map fun n => -(n : Int)
  | '+' :: cs => (natural? cs).map fun n => (n : Int)
  | cs => (natural? cs).map fun n => (n : Int)

/-! ## Columns -/

/-- The text with blanks behind, at least `width` characters long. -/
def padRight (width : Nat) (s : String) : String :=
  s ++ String.ofList (List.replicate (width - s.length) ' ')

end Text
end Observing
