import Observing.Decimal

/-!
# Wavelengths and wavelength dithers

A wavelength is a number of picometers that is never negative; a dither is a shift of either sign.

* `Wavelength.shift`           a wavelength moved by a dither, stopped at zero;
* `Wavelength.text`, `Dither.text`  nanometers with three places.
-/

namespace Observing

/-- A shift of a wavelength in whole picometers. -/
structure Dither where
  picometers : Ticks
deriving DecidableEq

namespace Dither

instance : OfNat Dither 0 := ⟨⟨0⟩⟩

instance : Inhabited Dither := ⟨0⟩

def ofNanometers (n : Int) : Dither := ⟨Ticks.clamp (n * 1000)⟩

/-- The shift by the same amount the other way. -/
def opposite (d : Dither) : Dither := ⟨d.picometers.neg⟩

def nanometers (d : Dither) : String := Decimal.write 3 d.picometers.val

def text (d : Dither) : String := d.nanometers ++ " nm"

end Dither

/-- A wavelength in whole picometers. -/
structure Wavelength where
  picometers : Nat
  picometers_le : picometers ≤ Ticks.greatest

namespace Wavelength

@[ext] theorem ext {a b : Wavelength} (h : a.picometers = b.picometers) : a = b := by
  cases a; cases b; cases h; rfl

instance : DecidableEq Wavelength := fun _ _ => decidable_of_iff _ Wavelength.ext_iff.symm

instance : Inhabited Wavelength := ⟨⟨0, Nat.zero_le _⟩⟩

/-- The wavelength of `n` picometers, between zero and the greatest number of ticks. -/
def ofPicometers (n : Int) : Wavelength :=
  ⟨min n.toNat Ticks.greatest, Ticks.min_toNat_le n⟩

def ofNanometers (n : Int) : Wavelength := ofPicometers (n * 1000)

theorem picometers_ofPicometers (n : Int) :
    (ofPicometers n).picometers = min n.toNat Ticks.greatest := rfl

@[simp] theorem ofPicometers_picometers (w : Wavelength) : ofPicometers w.picometers = w := by
  ext; simp [picometers_ofPicometers, Nat.min_eq_left w.picometers_le]

def shift (w : Wavelength) (d : Dither) : Wavelength :=
  ofPicometers (w.picometers + d.picometers.val)

def nanometers (w : Wavelength) : String := Decimal.writeNat 3 w.picometers

def text (w : Wavelength) : String := w.nanometers ++ " nm"

end Wavelength
end Observing
