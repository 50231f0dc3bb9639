import Observing.Json

/-!
# Reading JSON

A text is cut into tokens, and the tokens are put together to a document.  Numbers that are too great,
quoted texts with half a character in them and whatever is nested too deep are unreadable parts.

* `Json.tokens?`      the tokens of a text;
* `Json.build?`       the document that tokens make up;
* `Json.parseDeep?`   the two together, however deep lists and objects are nested;
* `Json.parse?`       the document that a text denotes.
-/

namespace Observing
namespace Json

/-- The smallest pieces of a document. -/
inductive Token
  | listStart
  | listEnd
  | objectStart
  | objectEnd
  | comma
  | colon
  /-- A text in quotes, unless it has half a character. -/
  | quoted (text : Option String)
  | scalar (value : Json)

/-! ## Quoted texts -/

def hexWord? (a b c d : Char) : Option Nat := do
  let digit (c : Char) : Option Nat :=
    if '0' ≤ c ∧ c ≤ '9' then some (c.toNat - '0'.toNat)
    else if 'a' ≤ c ∧ c ≤ 'f' then some (c.toNat - 'a'.toNat + 10)
    else if 'A' ≤ c ∧ c ≤ 'F' then some (c.toNat - 'A'.toNat + 10)
    else none
  return 4096 * (← digit a) + 256 * (← digit b) + 16 * (← digit c) + (← digit d)

def unescape? : Char → Option Char
  | '"' => some '"'
  | '\\' => some '\\'
  | '/' => some '/'
  | 'b' => some '\x08'
  | 'f' => some '\x0c'
  | 'n' => some '\n'
  | 'r' => some '\r'
  | 't' => some '\t'
  | _ => none

/-- The character in front of a quoted text, and the rest of the text.  Characters outside of the
basic plane are written as two halves; a half on its own is no character. -/
def character? : List Char → Option (Option Char × List Char)
  | '\\' :: 'u' :: a :: b :: c :: d :: cs => do
    let n ← hexWord? a b c d
    if 0xD800 ≤ n ∧ n < 0xDC00 then
      match cs with
      | '\\' :: 'u' :: a :: b :: c :: d :: behind =>
        let m ← hexWord? a b c d
        if 0xDC00 ≤ m ∧ m < 0xE000 then
          some (Char.ofNat (0x10000 + 0x400 * (n - 0xD800) + (m - 0xDC00)), behind)
        else some (none, cs)
      | _ => some (none, cs)
    else if 0xDC00 ≤ n ∧ n < 0xE000 then some (none, cs)
    else some (Char.ofNat n, cs)
  | '\\' :: c :: cs => (unescape? c).map fun c => (some c, cs)
  | c :: cs => if c = '\\' ∨ c.toNat < 0x20 then none else some (c, cs)
  | [] => none

theorem length_of_character? {cs rest : List Char} {c : Option Char}
    (h : character? cs = some (c, rest)) : rest.length < cs.length := by
  unfold character? at h
  split at h
  · simp only [Option.bind_eq_bind, Option.bind_eq_some_iff] at h
    obtain ⟨n, -, h⟩ := h
    split at h
    · split at h
      · simp only [Option.bind_eq_some_iff] at h
        obtain ⟨m, -, h⟩ := h
        split at h <;>
        · simp only [Option.some.injEq, Prod.mk.injEq] at h
          obtain ⟨-, rfl⟩ := h
          simp only [List.length_cons]; omega
      · cases h; simp only [List.length_cons]; omega
    · split at h <;>
      · cases h; simp only [List.length_cons]; omega
  · obtain ⟨_, -, h⟩ := Option.map_eq_some_iff.1 h
    cases h; simp only [List.length_cons]; omega
  · split at h
    · cases h
    · cases h; simp
  · cases h

/-- The characters up to the closing quote, and what is behind it. -/
def string? (cs : List Char) : Option (List (Option Char) × List Char) :=
  if cs.head? = some '"' then some ([], cs.tail)
  else
    match _h : character? cs with
    | none => none
    | some (c, rest) => (string? rest).map fun (s, rest) => (c :: s, rest)
termination_by cs.length
decreasing_by exact length_of_character? _h

theorem length_of_string? {cs rest : List Char} {s : List (Option Char)}
    (h : string? cs = some (s, rest)) : rest.length < cs.length := by
  fun_induction string? cs generalizing s rest with
  | case1 cs hq =>
    cases cs with
    | nil => cases hq
    | cons c cs => cases h; simp
  | case2 => cases h
  | case3 cs hq c mid hc ih =>
    obtain ⟨⟨s', rest'⟩, hs, h⟩ := Option.map_eq_some_iff.1 h
    cases h
    exact Nat.lt_trans (ih hs) (length_of_character? hc)

/-- The text of the given characters, unless one of them is half of one. -/
def wholeText? (s : List (Option Char)) : Option String := (s.mapM id).map String.ofList

/-! ## Numbers -/

/-- The digits in front of a text, one at least, and what is behind them. -/
def digits? (cs : List Char) : Option (List Char × List Char) :=
  let digits := cs.takeWhile Text.isDigit
  if digits.isEmpty then none else some (digits, cs.dropWhile Text.isDigit)

theorem length_of_digits? {cs digits rest : List Char} (h : digits? cs = some (digits, rest)) :
    rest.length < cs.length := by
  unfold digits? at h
  dsimp only at h
  split at h
  · cases h
  · rename_i hd
    cases h
    have hsum := congrArg List.length (List.takeWhile_append_dropWhile (p := Text.isDigit) (l := cs))
    rw [List.length_append] at hsum
    have : 0 < (cs.takeWhile Text.isDigit).length := by
      rw [List.length_pos_iff]; simpa using hd
    omega

/-- The digits in front of the point: a zero is the only one. -/
def wholeDigits? : List Char → Option (List Char × List Char)
  | '0' :: cs => if (cs.head?.map Text.isDigit).getD false then none else some (['0'], cs)
  | cs => digits? cs

theorem length_of_wholeDigits? {cs digits rest : List Char}
    (h : wholeDigits? cs = some (digits, rest)) : rest.length < cs.length := by
  unfold wholeDigits? at h
  split at h
  · split at h
    · cases h
    · cases h; simp
  · exact length_of_digits? h

/-- The digits behind a point, where there is one. -/
def fractionDigits? : List Char → Option (Option (List Char) × List Char)
  | '.' :: cs => (digits? cs).map fun (digits, rest) => (some digits, rest)
  | cs => some (none, cs)

theorem length_of_fractionDigits? {cs rest : List Char} {digits : Option (List Char)}
    (h : fractionDigits? cs = some (digits, rest)) : rest.length ≤ cs.length := by
  unfold fractionDigits? at h
  split at h
  · obtain ⟨⟨d, r⟩, hd, h⟩ := Option.map_eq_some_iff.1 h
    cases h
    have := length_of_digits? hd
    simp only [List.length_cons]; omega
  · cases h; exact Nat.le_refl _

/-- The digits of an exponent with the sign in front of them. -/
def signedDigits? : List Char → Option (Int × List Char)
  | '-' :: cs => (digits? cs).map fun (digits, rest) => (-(Text.digitsValue digits : Int), rest)
  | '+' :: cs => (digits? cs).map fun (digits, rest) => ((Text.digitsValue digits : Int), rest)
  | cs => (digits? cs).map fun (digits, rest) => ((Text.digitsValue digits : Int), rest)

theorem length_of_signedDigits? {cs rest : List Char} {e : Int}
    (h : signedDigits? cs = some (e, rest)) : rest.length < cs.length := by
  unfold signedDigits? at h
  split at h <;>
  · obtain ⟨⟨d, r⟩, hd, h⟩ := Option.map_eq_some_iff.1 h
    cases h
    have := length_of_digits? hd
    simp only [List.length_cons] at *; omega

def exponent? : List Char → Option (Option Int × List Char)
  | 'e' :: cs => (signedDigits? cs).map fun (e, rest) => (some e, rest)
  | 'E' :: cs => (signedDigits? cs).map fun (e, rest) => (some e, rest)
  | cs => some (none, cs)

theorem length_of_exponent? {cs rest : List Char} {e : Option Int}
    (h : exponent? cs = some (e, rest)) : rest.length ≤ cs.length := by
  unfold exponent? at h
  split at h
  · obtain ⟨⟨d, r⟩, hd, h⟩ := Option.map_eq_some_iff.1 h
    cases h
    have := length_of_signedDigits? hd
    simp only [List.length_cons]; omega
  · obtain ⟨⟨d, r⟩, hd, h⟩ := Option.map_eq_some_iff.1 h
    cases h
    have := length_of_signedDigits? hd
    simp only [List.length_cons]; omega
  · cases h; exact Nat.le_refl _

/-- The number in front of a text, and what is behind it. -/
def numeral? (negative : Bool) (cs : List Char) : Option (Json × List Char) := do
  let (whole, cs) ← wholeDigits? cs
  let (fraction, cs) ← fractionDigits? cs
  let (exponent, cs) ← exponent? cs
  return (number negative whole fraction exponent, cs)

theorem length_of_numeral? {negative : Bool} {cs rest : List Char} {value : Json}
    (h : numeral? negative cs = some (value, rest)) : rest.length < cs.length := by
  simp only [numeral?, Option.bind_eq_bind, Option.bind_eq_some_iff] at h
  obtain ⟨⟨_, _⟩, hw, ⟨_, _⟩, hf, ⟨_, _⟩, he, h⟩ := h
  cases h
  have hwhole := length_of_wholeDigits? hw
  have hfraction := length_of_fractionDigits? hf
  have hexponent := length_of_exponent? he
  dsimp only at *
  omega

/-! ## Tokens -/

/-- The token in front of a text that does not start with a blank, and what is behind it. -/
def token? : List Char → Option (Token × List Char)
  | '[' :: cs => some (.listStart, cs)
  | ']' :: cs => some (.listEnd, cs)
  | '\x7b' :: cs => some (.objectStart, cs)
  | '\x7d' :: cs => some (.objectEnd, cs)
  | ',' :: cs => some (.comma, cs)
  | ':' :: cs => some (.colon, cs)
  | '"' :: cs => (string? cs).map fun (s, rest) => (.quoted (wholeText? s), rest)
  | 'n' :: 'u' :: 'l' :: 'l' :: cs => some (.scalar .null, cs)
  | 't' :: 'r' :: 'u' :: 'e' :: cs => some (.scalar (.bool true), cs)
  | 'f' :: 'a' :: 'l' :: 's' :: 'e' :: cs => some (.scalar (.bool false), cs)
  | '-' :: cs => (numeral? true cs).map fun (value, rest) => (.scalar value, rest)
  | cs => (numeral? false cs).map fun (value, rest) => (.scalar value, rest)

theorem length_of_token? {cs rest : List Char} {t : Token} (h : token? cs = some (t, rest)) :
    rest.length < cs.length := by
  unfold token? at h
  split at h <;> try (cases h; simp only [List.length_cons]; omega)
  · obtain ⟨⟨s, r⟩, hs, h⟩ := Option.map_eq_some_iff.1 h
    cases h
    have := length_of_string? hs
    simp only [List.length_cons]; omega
  · obtain ⟨⟨s, r⟩, hs, h⟩ := Option.map_eq_some_iff.1 h
    cases h
    have := length_of_numeral? hs
    simp only [List.length_cons]; omega
  · obtain ⟨⟨s, r⟩, hs, h⟩ := Option.map_eq_some_iff.1 h
    cases h
    exact length_of_numeral? hs

def isBlank (c : Char) : Bool :=
  c = ' ' || c = '\n' || c = '\t' || c = '\r'

def tokens? : (cs : List Char) → Option (List Token)
  | [] => some []
  | c :: tail =>
    if isBlank c then tokens? tail
    else
      match _h : token? (c :: tail) with
      | none => none
      | some (token, rest) => (tokens? rest).map (token :: ·)
termination_by cs => cs.length
decreasing_by
  · simp
  · exact length_of_token? _h

/-! ## Documents -/

/-- A list or an object that is not closed yet, its parts in reverse order. -/
inductive Frame
  | list (items : List Json)
  | object (fields : List (Option String × Json)) (name : Option String)

/-- What the next token may be. -/
inductive Expect
  /-- A value. -/
  | value
  /-- A value, or the end of the list just begun. -/
  | firstItem
  /-- The name of a field, or the end of the object just begun. -/
  | firstName
  /-- The name of a field. -/
  | name
  /-- The colon behind a name. -/
  | colon (name : Option String)
  /-- A comma or the end of what is open. -/
  | comma
deriving DecidableEq

/-- A document that is being put together: what is open, the innermost in front, what is expected,
and the whole once it is complete. -/
structure Draft where
  frames : List Frame
  expect : Expect
  whole : Option Json

namespace Draft

/-- A value that is complete joins what is open. -/
def place (d : Draft) (value : Json) : Draft :=
  match d.frames with
  | [] => ⟨[], .comma, some value⟩
  | .list items :: outer => ⟨.list (value :: items) :: outer, .comma, none⟩
  | .object fields name :: outer => ⟨.object ((name, value) :: fields) none :: outer, .comma, none⟩

def enter (d : Draft) (frame : Frame) (expect : Expect) : Draft :=
  ⟨frame :: d.frames, expect, none⟩

def close (outer : List Frame) (value : Json) : Draft :=
  place ⟨outer, .value, none⟩ value

/-- The object with the given fields.  It is unreadable if one of its names is. -/
def objectOf (fields : List (Option String × Json)) : Json :=
  match fields.mapM fun (name, value) => name.map fun name => (name, value) with
  | some fields => .object fields
  | none => .unreadable

def closeList (d : Draft) : Option Draft :=
  match d.frames with
  | .list items :: outer => some (close outer (.list items.reverse))
  | .object _ _ :: _ | [] => none

def closeObject (d : Draft) : Option Draft :=
  match d.frames with
  | .object fields _ :: outer => some (close outer (objectOf fields.reverse))
  | .list _ :: _ | [] => none

def takeValue (d : Draft) : Token → Option Draft
  | .scalar value => some (d.place value)
  | .quoted (some s) => some (d.place (.text s))
  | .quoted none => some (d.place .unreadable)
  | .listStart => some (d.enter (.list []) .firstItem)
  | .objectStart => some (d.enter (.object [] none) .firstName)
  | .listEnd | .objectEnd | .comma | .colon => none

def takeName (d : Draft) : Token → Option Draft
  | .quoted name => some { d with expect := .colon name }
  | _ => none

def take (d : Draft) (t : Token) : Option Draft :=
  match d.expect with
  | .value => d.takeValue t
  | .firstItem =>
    match t with
    | .listEnd => d.closeList
    | _ => d.takeValue t
  | .firstName =>
    match t with
    | .objectEnd => d.closeObject
    | _ => d.takeName t
  | .name => d.takeName t
  | .colon name =>
    match t, d.frames with
    | .colon, .object fields _ :: outer => some ⟨.object fields name :: outer, .value, none⟩
    | _, _ => none
  | .comma =>
    match t, d.frames with
    | .comma, .list _ :: _ => some { d with expect := .value }
    | .comma, .object _ _ :: _ => some { d with expect := .name }
    | .listEnd, _ => d.closeList
    | .objectEnd, _ => d.closeObject
    | _, _ => none

end Draft

def build? (ts : List Token) : Option Json := do
  let d ← ts.foldlM Draft.take ⟨[], .value, none⟩
  d.whole

/-- The document that a text denotes, however deep lists and objects are nested in it. -/
def parseDeep? (s : String) : Option Json := do
  build? (← tokens? s.toList)

/-- Lists and objects may be nested this deep. -/
def maxDepth : Nat := 127

def parse? (s : String) : Option Json := (parseDeep? s).map (within maxDepth)

end Json
end Observing
