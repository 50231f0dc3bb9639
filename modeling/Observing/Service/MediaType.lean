/-!
# Media types

* `MediaType`         a type, a subtype and the suffix behind its last plus sign;
* `MediaType.parse?`  the media type that a text names;
* `MediaType.isJson`  a media type of JSON documents.

Behind a semicolon there are parameters.  They have to be well formed (`MediaType.parametersOk`) and
mean nothing else here.
-/

namespace Observing

structure MediaType where
  type : List Char
  subtype : List Char
  suffix : Option (List Char)
deriving DecidableEq

namespace MediaType

def isNameChar (c : Char) : Bool :=
  c.isAlphanum || c ∈ "!#$%&'*+-.^_`|~".toList

/-! ## Parameters -/

/-- Where in the list of parameters a text is. -/
inductive Place
  | before
  | name
  | equals
  | value
  | quote
  | quoted
  | behind
deriving DecidableEq

/-- A character that may stand between quotes: a printable one of ASCII. -/
def isPrintable (c : Char) : Bool := 31 < c.toNat && c.toNat < 127

/-- The place behind a character, if the character may stand there.  Between quotes there is at least
one character, which may be a quote itself. -/
def Place.next? : Place → Char → Option Place
  | .before, c => if c = ' ' then some .before else if isNameChar c then some .name else none
  | .name, c => if c = '=' then some .equals else if isNameChar c then some .name else none
  | .equals, c => if c = '"' then some .quote else if isNameChar c then some .value else none
  | .value, c => if c = ';' then some .before else if isNameChar c then some .value else none
  | .quote, c => if isPrintable c then some .quoted else none
  | .quoted, c => if c = '"' then some .behind else if isPrintable c then some .quoted else none
  | .behind, c => if c = ';' then some .before else if c = ' ' then some .behind else none

def Place.isEnd : Place → Bool
  | .before | .equals | .value | .behind => true
  | .name | .quote | .quoted => false

def parametersOk (cs : List Char) : Bool :=
  match cs.foldlM Place.next? Place.before with
  | some place => place.isEnd
  | none => false

/-! ## Media types -/

/-- A subtype and its suffix.  A plus sign at the beginning starts no suffix. -/
def splitSuffix (cs : List Char) : List Char × Option (List Char) :=
  let back := cs.reverse
  match back.dropWhile (· ≠ '+') with
  | '+' :: front =>
    if front.isEmpty then (cs, none)
    else (front.reverse, some (back.takeWhile (· ≠ '+')).reverse)
  | _ => (cs, none)

/-- The media type that a text names.  Letters are taken as small ones. -/
def parse? (s : String) : Option MediaType :=
  let cs := s.toList.map Char.toLower
  let type := cs.takeWhile isNameChar
  match cs.drop type.length with
  | '/' :: rest =>
    let name := rest.takeWhile isNameChar
    let (subtype, suffix) := splitSuffix name
    match rest.drop name.length with
    | [] => if type.isEmpty then none else some ⟨type, subtype, suffix⟩
    | ';' :: parameters =>
      if type.isEmpty || name.isEmpty || !parametersOk parameters then none
      else some ⟨type, subtype, suffix⟩
    | _ => none
  | _ => none

/-- A media type of JSON documents, by its subtype or by its suffix. -/
def isJson (m : MediaType) : Bool :=
  m.type = "application".toList &&
    (m.subtype = "json".toList || m.suffix = some "json".toList)

end MediaType
end Observing
