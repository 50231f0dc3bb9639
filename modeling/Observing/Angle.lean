import Observing.Decimal
import Observing.Rounding

/-!
# Angles and offsets

An angle is a number of microarcseconds of either sign.  An offset of the telescope has one angle
across the slit, `p`, and one along it, `q`.

* `Angle.text`, `Offset.text`  the angles in arcseconds;
* `Offset.distance`            how far apart two offsets are, in arcseconds.

Main statement: an offset is at no distance from itself (`distance_self`).
-/

namespace Observing

/-- An angle in whole microarcseconds. -/
structure Angle where
  micro : Ticks
deriving DecidableEq

namespace Angle

instance : OfNat Angle 0 := ⟨⟨0⟩⟩

instance : Inhabited Angle := ⟨0⟩

def ofArcseconds (n : Int) : Angle := ⟨Ticks.clamp (n * 1000000)⟩

def arcseconds (a : Angle) : String := Decimal.write 6 a.micro.val

def text (a : Angle) : String := a.arcseconds ++ "″"

/-- The arcseconds from one angle to another, with 53 significant bits. -/
def separation (a b : Angle) : Rat :=
  Rounding.significant (Rounding.significant (a.micro.sub b.micro).val / 1000000)

end Angle

/-- Where the telescope points, relative to the target. -/
structure Offset where
  p : Angle
  q : Angle
deriving DecidableEq

namespace Offset

instance : OfNat Offset 0 := ⟨⟨0, 0⟩⟩

instance : Inhabited Offset := ⟨0⟩

def alongSlit (q : Angle) : Offset := ⟨0, q⟩

def text (o : Offset) : String := "(" ++ o.p.text ++ ", " ++ o.q.text ++ ")"

/-- The arcseconds between two offsets, with 53 significant bits. -/
def distance (a b : Offset) : Rat :=
  Rounding.root (a.p.separation b.p * a.p.separation b.p + a.q.separation b.q * a.q.separation b.q)

def distanceText (a b : Offset) : String :=
  Decimal.writeNat 6 (Rounding.places 6 (a.distance b))

theorem distance_self (a : Offset) : a.distance a = 0 := by
  have hzero : Rounding.significant (Rounding.significant (0 : Rat) / 1000000) = 0 := by decide +kernel
  have hticks (t : Ticks) : ((t.sub t).val : Rat) = 0 := by
    have : t.sub t = 0 := by ext; simp [Ticks.sub, Ticks.val_clamp]; rfl
    rw [this]; rfl
  have hsep (x : Angle) : x.separation x = 0 := by
    rw [Angle.separation, hticks, hzero]
  rw [distance, hsep, hsep]
  decide +kernel

end Offset
end Observing
