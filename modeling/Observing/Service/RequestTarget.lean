import Observing.Text

/-!
# Request targets

* `RequestTarget`             the path and the query of a request;
* `RequestTarget.parse?`      the target that a text denotes;
* `RequestTarget.parameters`  the names and values in the query.

A target is a path with an optional query, or such a path behind a scheme and an authority, or an
authority alone.  A fragment is left out.  An authority is a host, which may have a user in front and
a port behind (`RequestTarget.authorityOk`).  In the names and values of a query a plus sign is a blank,
and a byte may be written as two hexadecimal digits behind a percent sign.

Main statement: text without percent signs is its own value (`percentDecoded_of_notMem`).
-/

namespace Observing

structure RequestTarget where
  path : List Char
  query : List Char
deriving DecidableEq

namespace RequestTarget

/-! ## Authorities -/

def isSchemeChar (c : Char) : Bool := c.isAlphanum || c ∈ "+-.".toList

/-- A character that may stand in an authority and means nothing there but itself. -/
def isHostChar (c : Char) : Bool := c.isAlphanum || c ∈ "!$&'()*+,-.;=_~".toList

/-- What was met in an authority so far. -/
structure Authority where
  /-- The colons behind the user and the brackets. -/
  colons : Nat := 0
  /-- There is an opening bracket. -/
  opened : Bool := false
  /-- There is a closing bracket. -/
  closed : Bool := false
  /-- There is a percent sign behind the user and the brackets. -/
  percent : Bool := false
  /-- The last character is the sign between user and host. -/
  atHost : Bool := false

namespace Authority

/-- What was met with one character more, if the character may stand there. -/
def next? (a : Authority) (c : Char) : Option Authority :=
  let a := { a with atHost := false }
  match c with
  | ':' => if a.colons < 8 then some { a with colons := a.colons + 1 } else none
  | '[' => if a.percent || a.opened then none else some { a with opened := true }
  | ']' =>
    if a.opened && !a.closed then some { a with closed := true, colons := 0, percent := false }
    else none
  | '@' => some { a with colons := 0, percent := false, atHost := true }
  | '%' => some { a with percent := true }
  | c => if isHostChar c then some a else none

/-- The authority may end here: its brackets are closed, its host has no percent sign and is behind
the user, and one colon at most is in front of a port. -/
def isEnd (a : Authority) : Bool :=
  a.opened == a.closed && a.colons ≤ 1 && !a.atHost && !a.percent

end Authority

def authorityOk (cs : List Char) : Bool :=
  match cs.foldlM Authority.next? {} with
  | some a => !cs.isEmpty && a.isEnd
  | none => false

/-! ## Reading -/

def isPathChar (c : Char) : Bool :=
  32 < c.toNat && c ∉ ['#', '<', '>', '?', Char.ofNat 96]

def isQueryChar (c : Char) : Bool :=
  32 < c.toNat && c ∉ ['"', '#', '<', '>']

/-- The target of a path and a query without an authority in front. -/
def ofPath? (cs : List Char) : Option RequestTarget :=
  let path := cs.takeWhile (· ≠ '?')
  let query := (cs.drop path.length).drop 1
  if path.all isPathChar && query.all isQueryChar then some ⟨path, query⟩ else none

def parse? (s : String) : Option RequestTarget :=
  let whole := s.toList.takeWhile (· ≠ '#')
  if whole.head? = some '/' then ofPath? whole
  else
    let scheme := whole.takeWhile isSchemeChar
    match whole.drop scheme.length with
    | ':' :: '/' :: '/' :: cs =>
      let authority := cs.takeWhile fun c => c ≠ '/' && c ≠ '?'
      if scheme.length ≤ 64 && authorityOk authority then ofPath? (cs.drop authority.length)
      else none
    | _ => if authorityOk s.toList then some ⟨[], []⟩ else none

/-! ## Parameters -/

def hexDigit? (c : Char) : Option Nat :=
  if Text.isDigit c then some (Text.digitValue c)
  else if 'a' ≤ c ∧ c ≤ 'f' then some (c.toNat - 'a'.toNat + 10)
  else if 'A' ≤ c ∧ c ≤ 'F' then some (c.toNat - 'A'.toNat + 10)
  else none

/-- The text with the bytes in place of their hexadecimal digits.  A percent sign that is not
followed by two of them stands for itself. -/
def percentDecoded : List Char → List Char
  | '%' :: a :: b :: cs =>
    match hexDigit? a, hexDigit? b with
    | some m, some n => Char.ofNat (16 * m + n) :: percentDecoded cs
    | _, _ => '%' :: percentDecoded (a :: b :: cs)
  | c :: cs => c :: percentDecoded cs
  | [] => []

theorem percentDecoded_of_notMem {cs : List Char} (h : '%' ∉ cs) : percentDecoded cs = cs := by
  induction cs with
  | nil => rfl
  | cons c cs ih =>
    rw [List.mem_cons, not_or] at h
    rw [percentDecoded, ih h.2]
    rintro a b r rfl
    exact absurd rfl h.1

/-- The text that a name or a value in a query denotes. -/
def decoded (cs : List Char) : String :=
  String.ofList (percentDecoded (cs.map fun c => if c = '+' then ' ' else c))

def splitAtChar (separator : Char) : List Char → List (List Char)
  | [] => [[]]
  | c :: cs =>
    if c = separator then [] :: splitAtChar separator cs
    else
      match splitAtChar separator cs with
      | first :: rest => (c :: first) :: rest
      | [] => [[c]]

/-- The name and the value of a parameter, which is empty where there is none. -/
def parameter (cs : List Char) : String × String :=
  let name := cs.takeWhile (· ≠ '=')
  (decoded name, decoded ((cs.drop name.length).drop 1))

def parameters (t : RequestTarget) : List (String × String) :=
  ((splitAtChar '&' t.query).filter fun cs => !cs.isEmpty).map parameter

end RequestTarget
end Observing
