import Observing.Json
import Observing.Named

/-!
# Values as documents

* `Encode`, `Decode`   how values of a type stand in a document;
* `Malformed`          why a document does not denote a value;
* `Reading`            reads the fields of a record, given by their names or by their order;
* `variant?`           the name of an alternative and what belongs to it.

A record may be written as an object, the fields that it does not know being left aside, or as a list
of its fields in order.  A field that it knows must not be there twice.

Main statements: named values, options and lists are read back as they were written
(`decode_encode_named`, `decode_encode_option`, `decode_encode_list`).
-/

namespace Observing

/-- Why a document does not denote a value. -/
inductive Malformed
  /-- Something of another shape is expected. -/
  | shape
  /-- A text is no decimal number of the quantity's precision. -/
  | invalidDecimal (given : String)
  /-- A time span is below none. -/
  | negativeTimeSpan
  /-- A wavelength is not above none. -/
  | wavelengthNotPositive
deriving DecidableEq

def Malformed.message? : Malformed → Option String
  | .shape => none
  | .invalidDecimal given => some ("invalid decimal quantity: " ++ given)
  | .negativeTimeSpan => some "time span cannot be negative"
  | .wavelengthNotPositive => some "wavelength must be positive"

/-- What comes of reading a document. -/
abbrev Decoded (α : Type) := Except Malformed α

class Encode (α : Type) where
  encode : α → Json

class Decode (α : Type) where
  decode : Json → Decoded α

export Encode (encode)
export Decode (decode)

/-- What is written is read back. -/
class Faithful (α : Type) [Encode α] [Decode α] : Prop where
  decode_encode : ∀ a : α, decode (encode a) = .ok a

export Faithful (decode_encode)

/-! ## Simple values -/

instance : Encode Bool := ⟨Json.bool⟩

instance : Decode Bool where
  decode
    | .bool b => .ok b
    | _ => .error .shape

instance : Faithful Bool := ⟨fun _ => rfl⟩

instance : Encode String := ⟨Json.text⟩

instance : Decode String where
  decode
    | .text s => .ok s
    | _ => .error .shape

instance : Faithful String := ⟨fun _ => rfl⟩

/-- Any number, with 53 significant bits. -/
instance : Decode Rat where
  decode
    | .integer n => .ok (Rounding.significant n)
    | .decimal x => .ok x
    | _ => .error .shape

def decodeNat (greatest : Nat) : Json → Decoded Nat
  | .integer n => if 0 ≤ n ∧ n ≤ greatest then .ok n.toNat else .error .shape
  | _ => .error .shape

def decodeWord : Json → Decoded Nat := decodeNat Text.greatestWord

def decodeHalfWord : Json → Decoded Nat := decodeNat 4294967295

/-- A whole number of ticks. -/
instance : Decode Ticks where
  decode
    | .integer n =>
      match Ticks.ofInt? n with
      | some t => .ok t
      | none => .error .shape
    | _ => .error .shape

instance : Encode Ticks := ⟨fun t => .integer t.val⟩

instance : Faithful Ticks := ⟨fun t => by simp [encode, decode]⟩

instance : Encode Nat := ⟨fun n => .integer n⟩

/-! ## Options and lists -/

def decodeOption {α : Type} (read : Json → Decoded α) : Json → Decoded (Option α)
  | .null => .ok none
  | j => (read j).map some

def decodeItems {α : Type} (read : Json → Decoded α) : List Json → Decoded (List α)
  | [] => .ok []
  | j :: js => do
    let a ← read j
    let as ← decodeItems read js
    return a :: as

def decodeList {α : Type} (read : Json → Decoded α) : Json → Decoded (List α)
  | .list items => decodeItems read items
  | _ => .error .shape

instance {α : Type} [Decode α] : Decode (Option α) := ⟨decodeOption decode⟩

instance {α : Type} [Decode α] : Decode (List α) := ⟨decodeList decode⟩

instance {α : Type} [Encode α] : Encode (Option α) where
  encode
    | some a => encode a
    | none => .null

instance {α : Type} [Encode α] : Encode (List α) := ⟨fun as => .list (as.map encode)⟩

theorem decode_encode_list {α : Type} [Encode α] [Decode α] [Faithful α] (as : List α) :
    decode (encode as) = .ok as := by
  change decodeItems decode (as.map encode) = .ok as
  induction as with
  | nil => rfl
  | cons a as ih => rw [List.map_cons, decodeItems, decode_encode, ih]; rfl

instance {α : Type} [Encode α] [Decode α] [Faithful α] : Faithful (List α) :=
  ⟨decode_encode_list⟩

/-- An option is read back when the value in it is and is not written as nothing. -/
theorem decode_encode_option {α : Type} [Encode α] [Decode α] [Faithful α]
    (h : ∀ a : α, encode a ≠ Json.null) (o : Option α) : decode (encode o) = .ok o := by
  cases o with
  | none => rfl
  | some a =>
    change decodeOption decode (encode a) = .ok (some a)
    unfold decodeOption
    split
    · rename_i heq; exact absurd heq (h a)
    · rw [decode_encode]; rfl

/-! ## Alternatives -/

/-- The name of an alternative, and what belongs to it where something does. -/
def variant? : Json → Option (String × Option Json)
  | .text name => some (name, none)
  | .object [(name, j)] => some (name, some j)
  | _ => none

/-- A named value: its name, or an object that holds nothing under its name. -/
def decodeNamed {α : Type} [Named α] (j : Json) : Decoded α :=
  match variant? j with
  | some (name, none) | some (name, some .null) =>
    match Named.ofName? name with
    | some a => .ok a
    | none => .error .shape
  | _ => .error .shape

instance {α : Type} [Named α] : Encode α := ⟨fun a => .text (Named.name a)⟩

instance {α : Type} [Named α] : Decode α := ⟨decodeNamed⟩

theorem decode_encode_named {α : Type} [Named α] (a : α) : decode (encode a) = .ok a := by
  change decodeNamed (.text (Named.name a)) = _
  simp [decodeNamed, variant?, Named.ofName?_name]

instance {α : Type} [Named α] : Faithful α := ⟨decode_encode_named⟩

/-! ## Records -/

/-- The fields of a record that are still to be read. -/
inductive Record
  | named (fields : List (String × Json))
  | ordered (items : List Json)

/-- Reads fields. -/
abbrev Reading := StateT Record (Except Malformed)

namespace Reading

/-- The next field, which has the given name, if it is there. -/
def field? (name : String) : Reading (Option Json) := fun r =>
  match r with
  | .named fields =>
    match fields.filter fun f => f.1 = name with
    | [] => .ok (none, r)
    | [f] => .ok (some f.2, r)
    | _ => .error .shape
  | .ordered [] => .ok (none, r)
  | .ordered (j :: js) => .ok (some j, .ordered js)

def fieldBy {α : Type} (read : Json → Decoded α) (name : String) : Reading α := do
  match ← field? name with
  | some j => read j
  | none => throw .shape

/-- A field with a value to be used where it is not there. -/
def fieldOrBy {α : Type} (read : Json → Decoded α) (name : String) (standard : α) : Reading α := do
  match ← field? name with
  | some j => read j
  | none => return standard

/-- A field that may be missing or hold nothing. -/
def maybeBy {α : Type} (read : Json → Decoded α) (name : String) : Reading (Option α) :=
  fieldOrBy (decodeOption read) name none

/-- A field that may hold nothing, and that only an object may leave out. -/
def nullableBy {α : Type} (read : Json → Decoded α) (name : String) : Reading (Option α) := fun r =>
  match r with
  | .ordered [] => .error .shape
  | .ordered (_ :: _) | .named _ => maybeBy read name r

variable {α : Type} [Decode α]

def field (name : String) : Reading α := fieldBy decode name

def fieldOr (name : String) (standard : α) : Reading α := fieldOrBy decode name standard

def maybe (name : String) : Reading (Option α) := maybeBy decode name

def nullable (name : String) : Reading (Option α) := nullableBy decode name

theorem bind_apply {α β : Type} (x : Reading α) (f : α → Reading β) (r : Record) :
    (x >>= f) r = (x r).bind fun p => f p.1 p.2 := rfl

theorem pure_apply {α : Type} (a : α) (r : Record) : (pure a : Reading α) r = .ok (a, r) := rfl

/-- A field that an object holds once is read as what it holds denotes. -/
theorem fieldBy_named {α : Type} (read : Json → Decoded α) {name : String}
    {fields : List (String × Json)} {j : Json} {a : α}
    (hone : fields.filter (fun f => f.1 = name) = [(name, j)]) (hread : read j = .ok a) :
    fieldBy read name (.named fields) = .ok (a, .named fields) := by
  simp only [fieldBy, bind_apply, field?, hone]
  change (liftM (read j) : Reading α) _ = _
  rw [hread]; rfl

theorem fieldOrBy_named {α : Type} (read : Json → Decoded α) {name : String} (standard : α)
    {fields : List (String × Json)} {j : Json} {a : α}
    (hone : fields.filter (fun f => f.1 = name) = [(name, j)]) (hread : read j = .ok a) :
    fieldOrBy read name standard (.named fields) = .ok (a, .named fields) := by
  simp only [fieldOrBy, bind_apply, field?, hone]
  change (liftM (read j) : Reading α) _ = _
  rw [hread]; rfl

/-- A field that an object does not hold has its standard value. -/
theorem fieldOrBy_absent {α : Type} (read : Json → Decoded α) {name : String} (standard : α)
    {fields : List (String × Json)} (hnone : fields.filter (fun f => f.1 = name) = []) :
    fieldOrBy read name standard (.named fields) = .ok (standard, .named fields) := by
  simp only [fieldOrBy, bind_apply, field?, hnone]
  rfl

def finish {α : Type} (r : Decoded (α × Record)) : Decoded α :=
  match r with
  | .ok (a, .named _) | .ok (a, .ordered []) => .ok a
  | .ok (_, .ordered (_ :: _)) => .error .shape
  | .error e => .error e

def record {α : Type} (read : Reading α) : Json → Decoded α
  | .object fields => finish (read (.named fields))
  | .list items => finish (read (.ordered items))
  | _ => .error .shape

/-- A record whose fields depend on one of them.  It is taken as a whole before they are known, so that
nothing in it may be unreadable, and that an alternative to which nothing belongs may also be written
with an empty object under its name. -/
def whole {α : Type} (read : Reading α) (j : Json) : Decoded α :=
  if j.isReadable then record read j.condensed else .error .shape

end Reading

def object (fields : List (String × Json)) : Json := .object fields

/-- A field that is written only when it holds a value. -/
def present {α : Type} [Encode α] (name : String) : Option α → List (String × Json)
  | some a => [(name, encode a)]
  | none => []

end Observing
