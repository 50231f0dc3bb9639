/-!
# The hash function SHA-1

* `Sha1.padding`   the message filled up to whole blocks of 64 bytes;
* `Sha1.compress`  one block worked into the five words of the state;
* `Sha1.digest`    the twenty bytes of the state after all blocks.

Main statement: a padded message is a whole number of blocks (`length_padding`).
-/

namespace Observing
namespace Sha1

/-- The five words carried from block to block. -/
structure State where
  a : UInt32
  b : UInt32
  c : UInt32
  d : UInt32
  e : UInt32
deriving DecidableEq

def State.initial : State :=
  ⟨0x67452301, 0xEFCDAB89, 0x98BADCFE, 0x10325476, 0xC3D2E1F0⟩

/-! ## Bytes and words -/

/-- The lowest `k` bytes of `n`, the highest first. -/
def bytesOf : (k : Nat) → (n : Nat) → List UInt8
  | 0, _ => []
  | k + 1, n => bytesOf k (n / 256) ++ [UInt8.ofNat n]

/-- Bytes taken four at a time. -/
def wordsOf : List UInt8 → List UInt32
  | w :: x :: y :: z :: rest =>
    (w.toUInt32 <<< 24 ||| x.toUInt32 <<< 16 ||| y.toUInt32 <<< 8 ||| z.toUInt32) :: wordsOf rest
  | _ => []

/-- The message, a one bit, zeros up to the end of a block and the length in bits. -/
def padding (message : List UInt8) : List UInt8 :=
  message ++ 0x80 :: List.replicate ((119 - message.length % 64) % 64) 0
    ++ bytesOf 8 (8 * message.length)

theorem length_bytesOf (k n : Nat) : (bytesOf k n).length = k := by
  induction k generalizing n with
  | zero => rfl
  | succ k ih => simp [bytesOf, ih]

theorem length_padding (message : List UInt8) : 64 ∣ (padding message).length := by
  simp only [padding, List.length_append, List.length_cons, List.length_replicate, length_bytesOf]
  omega

/-! ## Compression -/

def rotate (x : UInt32) (k : UInt32) : UInt32 :=
  x <<< k ||| x >>> (32 - k)

/-- Further words of the schedule, the newest in front. -/
def extend : (count : Nat) → (newest : List UInt32) → List UInt32
  | 0, w => w
  | count + 1, w =>
    extend count (rotate (w.getD 2 0 ^^^ w.getD 7 0 ^^^ w.getD 13 0 ^^^ w.getD 15 0) 1 :: w)

/-- The eighty words that a block of sixteen is spread over. -/
def schedule (block : List UInt32) : List UInt32 :=
  (extend 64 block.reverse).reverse

def State.round (s : State) (t : Nat) (w : UInt32) : State :=
  let (f, k) : UInt32 × UInt32 :=
    if t < 20 then (s.b &&& s.c ||| ~~~s.b &&& s.d, 0x5A827999)
    else if t < 40 then (s.b ^^^ s.c ^^^ s.d, 0x6ED9EBA1)
    else if t < 60 then (s.b &&& s.c ||| s.b &&& s.d ||| s.c &&& s.d, 0x8F1BBCDC)
    else (s.b ^^^ s.c ^^^ s.d, 0xCA62C1D6)
  ⟨rotate s.a 5 + f + s.e + k + w, s.a, rotate s.b 30, s.c, s.d⟩

/-- The rounds from number `t` on, one for each word. -/
def State.rounds (s : State) (t : Nat) : List UInt32 → State
  | [] => s
  | w :: ws => (s.round t w).rounds (t + 1) ws

def compress (s : State) (block : List UInt32) : State :=
  let r := s.rounds 0 (schedule block)
  ⟨s.a + r.a, s.b + r.b, s.c + r.c, s.d + r.d, s.e + r.e⟩

/-- The next `blocks` blocks of sixteen words worked into the state. -/
def State.absorb (s : State) : (blocks : Nat) → List UInt32 → State
  | 0, _ => s
  | blocks + 1, ws => (compress s (ws.take 16)).absorb blocks (ws.drop 16)

def digest (message : List UInt8) : List UInt8 :=
  let padded := padding message
  let s := State.initial.absorb (padded.length / 64) (wordsOf padded)
  [s.a, s.b, s.c, s.d, s.e].flatMap fun w => bytesOf 4 w.toNat

end Sha1
end Observing
