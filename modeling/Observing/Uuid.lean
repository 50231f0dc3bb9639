import Observing.Sha1

/-!
# Universally unique identifiers

* `Uuid.named`   the identifier that a name has in a namespace;
* `Uuid.text`    its 32 hexadecimal digits in groups of 8, 4, 4, 4 and 12;
* `Uuid.parse?`  reads the digits with or without hyphens, in braces, or as a URN.

Main statement: the text of an identifier has 36 characters (`length_chars`).
-/

namespace Observing

/-- An identifier of 128 bits. -/
structure Uuid where
  value : BitVec 128
deriving DecidableEq

namespace Uuid

-- Powers are those of the core library, also where an algebraic one is at hand.
attribute [local instance (high)] instPowNat

/-! ## Names -/

/-- The first sixteen bytes of a list as one number. -/
def ofBytes (bytes : List UInt8) : Uuid :=
  ⟨BitVec.ofNat 128 ((bytes.take 16).foldl (fun n b => 256 * n + b.toNat) 0)⟩

/-- The identifier with the marks of a name hashed by SHA-1: version 5, variant 2. -/
def marked (u : Uuid) : Uuid :=
  ⟨u.value &&& 0xFFFFFFFFFFFF0FFF3FFFFFFFFFFFFFFF#128 ||| 0x00000000000050008000000000000000#128⟩

def bytes (u : Uuid) : List UInt8 :=
  Sha1.bytesOf 16 u.value.toNat

def named (space : Uuid) (name : String) : Uuid :=
  (ofBytes (Sha1.digest (space.bytes ++ name.toUTF8.data.toList))).marked

/-! ## Text -/

def hexDigits : (k : Nat) → (n : Nat) → List Char
  | 0, _ => []
  | k + 1, n => hexDigits k (n / 16) ++ [Nat.digitChar (n % 16)]

theorem length_hexDigits (k n : Nat) : (hexDigits k n).length = k := by
  induction k generalizing n with
  | zero => rfl
  | succ k ih => simp [hexDigits, ih]

def chars (u : Uuid) : List Char :=
  let n := u.value.toNat
  hexDigits 8 (n / 16 ^ (24 : Nat)) ++ '-' :: hexDigits 4 (n / 16 ^ (20 : Nat))
    ++ '-' :: hexDigits 4 (n / 16 ^ (16 : Nat)) ++ '-' :: hexDigits 4 (n / 16 ^ (12 : Nat))
    ++ '-' :: hexDigits 12 n

theorem length_chars (u : Uuid) : u.chars.length = 36 := by
  simp [chars, length_hexDigits]

def text (u : Uuid) : String := String.ofList u.chars

/-- The number that a hexadecimal digit of either case stands for. -/
def hexValue? (c : Char) : Option Nat :=
  if '0' ≤ c ∧ c ≤ '9' then some (c.toNat - '0'.toNat)
  else if 'a' ≤ c ∧ c ≤ 'f' then some (c.toNat - 'a'.toNat + 10)
  else if 'A' ≤ c ∧ c ≤ 'F' then some (c.toNat - 'A'.toNat + 10)
  else none

def hexNumber? (cs : List Char) : Option Nat :=
  cs.foldlM (fun n c => (hexValue? c).map (16 * n + ·)) 0

def ofDigits? (cs : List Char) : Option Uuid :=
  if cs.length = 32 then (hexNumber? cs).map fun n => ⟨BitVec.ofNat 128 n⟩ else none

/-- The identifier with the given digits in hyphenated groups. -/
def ofGroups? (cs : List Char) : Option Uuid :=
  if cs.length = 36 ∧ [8, 13, 18, 23].all (fun i => cs[i]? == some '-') then
    ofDigits? (cs.take 8 ++ (cs.drop 9).take 4 ++ (cs.drop 14).take 4 ++ (cs.drop 19).take 4
      ++ cs.drop 24)
  else none

/-- The identifier that a text denotes: 32 digits, or hyphenated groups, bare, in braces or behind
the scheme of a URN, which may be written in letters of either case. -/
def parse? (s : String) : Option Uuid :=
  let cs := s.toList
  if cs.length = 32 then ofDigits? cs
  else if cs.length = 36 then ofGroups? cs
  else if cs.length = 38 ∧ cs.head? = some '\x7b' ∧ cs.getLast? = some '\x7d' then
    ofGroups? (cs.drop 1).dropLast
  else if cs.length = 45 ∧ (cs.take 9).map Char.toLower = "urn:uuid:".toList then ofGroups? (cs.drop 9)
  else none

end Uuid
end Observing
