import Observing.Named
import Observing.TimeSpan
import Observing.Wavelength

/-!
# The GMOS spectrographs

The configuration of one exposure with GMOS, at either site: the detector mode, the region read out
and the elements in the beam.
-/

namespace Observing
namespace Gmos

/-! ## Elements in the beam -/

inductive Grating
  | b1200
  | r831
  | b600
  | r600
  | b480
  | r400
  | r150
deriving DecidableEq

def Grating.text : Grating → String
  | .b1200 => "B1200"
  | .r831 => "R831"
  | .b600 => "B600"
  | .r600 => "R600"
  | .b480 => "B480"
  | .r400 => "R400"
  | .r150 => "R150"

def Grating.dispersion : Grating → Nat
  | .b1200 => 26
  | .r831 => 38
  | .b600 => 50
  | .r600 => 52
  | .b480 => 62
  | .r400 => 74
  | .r150 => 193

instance : Named Grating where
  values := [.b1200, .r831, .b600, .r600, .b480, .r400, .r150]
  name
    | .b1200 => "b1200"
    | .r831 => "r831"
    | .b600 => "b600"
    | .r600 => "r600"
    | .b480 => "b480"
    | .r400 => "r400"
    | .r150 => "r150"

inductive Filter
  | gPrime
  | rPrime
  | iPrime
  | zPrime
  | gg455
  | og515
  | rg610
deriving DecidableEq

def Filter.text : Filter → String
  | .gPrime => "g'"
  | .rPrime => "r'"
  | .iPrime => "i'"
  | .zPrime => "z'"
  | .gg455 => "GG455"
  | .og515 => "OG515"
  | .rg610 => "RG610"

instance : Named Filter where
  values := [.gPrime, .rPrime, .iPrime, .zPrime, .gg455, .og515, .rg610]
  name
    | .gPrime => "g_prime"
    | .rPrime => "r_prime"
    | .iPrime => "i_prime"
    | .zPrime => "z_prime"
    | .gg455 => "gg455"
    | .og515 => "og515"
    | .rg610 => "rg610"

/-- The slits, by their width in hundredths of an arcsecond. -/
inductive Slit
  | width25
  | width50
  | width75
  | width100
  | width150
  | width200
  | width500
deriving DecidableEq

instance : Named Slit where
  values := [.width25, .width50, .width75, .width100, .width150, .width200, .width500]
  name
    | .width25 => "long_slit0_25"
    | .width50 => "long_slit0_50"
    | .width75 => "long_slit0_75"
    | .width100 => "long_slit1_00"
    | .width150 => "long_slit1_50"
    | .width200 => "long_slit2_00"
    | .width500 => "long_slit5_00"

/-! ## The detector -/

inductive Binning
  | one
  | two
  | four
deriving DecidableEq

def Binning.count : Binning → Nat
  | .one => 1
  | .two => 2
  | .four => 4

instance : Named Binning where
  values := [.one, .two, .four]
  name
    | .one => "one"
    | .two => "two"
    | .four => "four"

inductive AmpGain
  | low
  | high
deriving DecidableEq

instance : Named AmpGain where
  values := [.low, .high]
  name
    | .low => "low"
    | .high => "high"

inductive AmpReadMode
  | slow
  | fast
deriving DecidableEq

instance : Named AmpReadMode where
  values := [.slow, .fast]
  name
    | .slow => "slow"
    | .fast => "fast"

/-- The regions of the detector that can be read out. -/
inductive Region
  | fullFrame
  | ccd2
  | centralSpectrum
  | centralStamp
deriving DecidableEq

/-- The share of all pixels that lies in a region, as numerator and denominator. -/
def Region.share : Region → Nat × Nat
  | .fullFrame => (1, 1)
  | .ccd2 => (1, 3)
  | .centralSpectrum => (1, 4)
  | .centralStamp => (1, 36)

instance : Named Region where
  values := [.fullFrame, .ccd2, .centralSpectrum, .centralStamp]
  name
    | .fullFrame => "full_frame"
    | .ccd2 => "ccd2"
    | .centralSpectrum => "central_spectrum"
    | .centralStamp => "central_stamp"

structure CcdMode where
  xBin : Binning
  yBin : Binning
  ampGain : AmpGain
  ampReadMode : AmpReadMode
deriving DecidableEq

/-- The slow mode with low gain. -/
def CcdMode.binned (xBin yBin : Binning) : CcdMode := ⟨xBin, yBin, .low, .slow⟩

/-! ## An exposure -/

structure GratingSetting where
  grating : Grating
  wavelength : Wavelength
deriving DecidableEq

structure Config where
  exposure : TimeSpan
  readout : CcdMode
  region : Region
  grating : Option GratingSetting
  filter : Option Filter
  slit : Option Slit
deriving DecidableEq

/-- The configuration with its grating, if it has one, turned by a dither. -/
def Config.dithered (c : Config) (d : Dither) : Config :=
  { c with grating := c.grating.map fun g => { g with wavelength := g.wavelength.shift d } }

end Gmos
end Observing
