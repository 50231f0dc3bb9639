import Observing.Angle
import Observing.Json.Codec
import Observing.TimeSpan
import Observing.Timestamp
import Observing.Uuid
import Observing.Wavelength

/-!
# Quantities in documents

A quantity is written as an object with its ticks and its decimal text.  It is read from such an
object, by any of the names that ticks have, from a decimal text, or from a plain number in the unit
of the text.

Main statements: time spans, angles and dithers are read back as they were written (the `Faithful`
instances), whatever their decimal text says (`decode_timeSpan`, `decode_angle`, `decode_dither`); of
wavelengths those above none (`decode_wavelength_iff`).
-/

namespace Observing

-- Powers are those of the core library, also where an algebraic one is at hand.
attribute [local instance (high)] instPowNat

def ticksNames : List String := ["base", "microseconds", "microarcseconds", "picometers"]

def ticksOfUnits (places : Nat) (x : Rat) : Ticks :=
  .clamp (Rounding.nearest (Rounding.significant (x * ((10 ^ places : Nat) : Rat))))

/-- The ticks that a document denotes, where a unit has `10 ^ places` of them. -/
def decodeTicks (places : Nat) : Json → Decoded Ticks
  | .integer n => .ok (ticksOfUnits places (Rounding.significant n))
  | .decimal x => .ok (ticksOfUnits places x)
  | .text s =>
    match Decimal.read? places s with
    | some t => .ok t
    | none => .error (.invalidDecimal s)
  | .object fields =>
    match fields.filter fun f => f.1 ∈ ticksNames with
    | [f] => if Json.fieldsReadable fields then decode f.2 else .error .shape
    | _ => .error .shape
  | .null | .bool _ | .list _ | .unreadable => .error .shape

theorem decodeTicks_object (places : Nat) {name unit : String} (t : Ticks) (s : String)
    (hname : name ∈ ticksNames) (hunit : unit ∉ ticksNames) :
    decodeTicks places (object [(name, encode t), (unit, .text s)]) = .ok t := by
  have hread : Json.fieldsReadable [(name, encode t), (unit, .text s)] = true := rfl
  simp [decodeTicks, object, hname, hunit, hread, decode_encode]

/-! ## Time spans -/

instance : Encode TimeSpan where
  encode t := object [("microseconds", .integer t.micros), ("seconds", .text t.text)]

/-- The time span of the given ticks, which may not be negative. -/
def timeSpanOfTicks (t : Ticks) : Decoded TimeSpan :=
  if t.val < 0 then .error .negativeTimeSpan else .ok (.ofMicros t.val)

instance : Decode TimeSpan := ⟨fun j => (decodeTicks 6 j).bind timeSpanOfTicks⟩

def TimeSpan.ticks (t : TimeSpan) : Ticks :=
  ⟨t.micros, by omega, by have := t.micros_le; unfold Ticks.greatest at this; omega⟩

theorem timeSpanOfTicks_ticks (t : TimeSpan) : timeSpanOfTicks t.ticks = .ok t := by
  have hnot : ¬ t.ticks.val < 0 := by simp [TimeSpan.ticks]
  rw [timeSpanOfTicks, if_neg hnot]
  exact congrArg Except.ok (TimeSpan.ofMicros_micros t)

theorem decode_timeSpan (t : TimeSpan) (s : String) :
    decode (object [("microseconds", .integer t.micros), ("seconds", .text s)]) = .ok t := by
  change (decodeTicks 6 (object [("microseconds", encode t.ticks), ("seconds", .text s)])).bind
    timeSpanOfTicks = _
  rw [decodeTicks_object 6 t.ticks s (by decide) (by decide)]
  exact timeSpanOfTicks_ticks t

instance : Faithful TimeSpan := ⟨fun t => decode_timeSpan t t.text⟩

/-! ## Angles and offsets -/

instance : Encode Angle where
  encode a := object [("microarcseconds", encode a.micro), ("arcseconds", .text a.arcseconds)]

instance : Decode Angle where
  decode j := (decodeTicks 6 j).map Angle.mk

theorem decode_angle (a : Angle) (s : String) :
    decode (object [("microarcseconds", .integer a.micro.val), ("arcseconds", .text s)]) =
      .ok a := by
  change (decodeTicks 6 (object [("microarcseconds", encode a.micro), ("arcseconds", .text s)])).map
    Angle.mk = _
  rw [decodeTicks_object 6 a.micro s (by decide) (by decide)]
  rfl

instance : Faithful Angle := ⟨fun a => decode_angle a a.arcseconds⟩

instance : Encode Offset where
  encode o := object [("p", encode o.p), ("q", encode o.q)]

instance : Decode Offset where
  decode := Reading.record do
    let p ← .fieldOr "p" 0
    let q ← .fieldOr "q" 0
    return ⟨p, q⟩

instance : Faithful Offset where
  decode_encode o := by
    change Reading.finish ((do
      let p ← Reading.fieldOr "p" 0
      let q ← Reading.fieldOr "q" 0
      return (⟨p, q⟩ : Offset) : Reading Offset) (.named [("p", encode o.p), ("q", encode o.q)])) = _
    rw [Reading.bind_apply, Reading.fieldOr,
      Reading.fieldOrBy_named _ _ (by simp) (decode_encode o.p)]
    change Reading.finish (((Reading.fieldOr "q" 0 : Reading Angle) >>= _) _) = _
    rw [Reading.bind_apply, Reading.fieldOr,
      Reading.fieldOrBy_named _ _ (by simp) (decode_encode o.q)]
    rfl

/-! ## Wavelengths and dithers -/

instance : Encode Wavelength where
  encode w := object [("picometers", .integer w.picometers), ("nanometers", .text w.nanometers)]

/-- The wavelength of the given ticks, which have to be above none. -/
def wavelengthOfTicks (t : Ticks) : Decoded Wavelength :=
  if t.val ≤ 0 then .error .wavelengthNotPositive else .ok (.ofPicometers t.val)

instance : Decode Wavelength := ⟨fun j => (decodeTicks 3 j).bind wavelengthOfTicks⟩

def Wavelength.ticks (w : Wavelength) : Ticks :=
  ⟨w.picometers, by omega, by have := w.picometers_le; unfold Ticks.greatest at this; omega⟩

theorem wavelengthOfTicks_ticks_iff (w : Wavelength) :
    wavelengthOfTicks w.ticks = .ok w ↔ 0 < w.picometers := by
  unfold wavelengthOfTicks
  split
  · rename_i hnone
    have hnot : ¬ 0 < w.picometers := by simpa [Wavelength.ticks] using hnone
    simp [hnot]
  · rename_i hsome
    have hpos : 0 < w.picometers := by simpa [Wavelength.ticks, Nat.pos_iff_ne_zero] using hsome
    exact iff_of_true (congrArg Except.ok (Wavelength.ofPicometers_picometers w)) hpos

/-- A wavelength of none is written like any other, and refused. -/
theorem decode_wavelength_iff (w : Wavelength) (s : String) :
    decode (object [("picometers", .integer w.picometers), ("nanometers", .text s)]) = .ok w ↔
      0 < w.picometers := by
  change (decodeTicks 3 (object [("picometers", encode w.ticks), ("nanometers", .text s)])).bind
    wavelengthOfTicks = _ ↔ _
  rw [decodeTicks_object 3 w.ticks s (by decide) (by decide)]
  exact wavelengthOfTicks_ticks_iff w

instance : Encode Dither where
  encode d := object [("picometers", encode d.picometers), ("nanometers", .text d.nanometers)]

instance : Decode Dither where
  decode j := (decodeTicks 3 j).map Dither.mk

theorem decode_dither (d : Dither) (s : String) :
    decode (object [("picometers", .integer d.picometers.val), ("nanometers", .text s)]) =
      .ok d := by
  change (decodeTicks 3 (object [("picometers", encode d.picometers), ("nanometers", .text s)])).map
    Dither.mk = _
  rw [decodeTicks_object 3 d.picometers s (by decide) (by decide)]
  rfl

instance : Faithful Dither := ⟨fun d => decode_dither d d.nanometers⟩

/-! ## Identifiers and moments -/

instance : Encode Uuid := ⟨fun u => .text u.text⟩

instance : Decode Uuid where
  decode
    | .text s =>
      match Uuid.parse? s with
      | some u => .ok u
      | none => .error .shape
    | _ => .error .shape

instance : Encode Timestamp := ⟨fun t => .text t.text⟩

instance : Decode Timestamp where
  decode
    | .text s =>
      match Timestamp.parse? s with
      | some t => .ok t
      | none => .error .shape
    | _ => .error .shape

end Observing
