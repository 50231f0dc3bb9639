import Observing.Named
import Observing.TimeSpan

/-!
# The Flamingos 2 spectrograph

The configuration of one exposure with Flamingos 2.  The read mode goes with the exposure time.
-/

namespace Observing
namespace Flamingos

inductive Disperser
  | r1200jh
  | r1200hk
  | r3000
deriving DecidableEq

instance : Named Disperser where
  values := [.r1200jh, .r1200hk, .r3000]
  name
    | .r1200jh => "r1200_jh"
    | .r1200hk => "r1200_hk"
    | .r3000 => "r3000"

inductive Filter
  | y
  | j
  | h
  | jh
  | hk
  | kShort
deriving DecidableEq

def Filter.text : Filter → String
  | .y => "Y"
  | .j => "J"
  | .h => "H"
  | .jh => "JH"
  | .hk => "HK"
  | .kShort => "K-short"

instance : Named Filter where
  values := [.y, .j, .h, .jh, .hk, .kShort]
  name
    | .y => "y"
    | .j => "j"
    | .h => "h"
    | .jh => "jh"
    | .hk => "hk"
    | .kShort => "k_short"

/-- The slits, by their width in pixels. -/
inductive Slit
  | width1
  | width2
  | width3
  | width4
  | width6
  | width8
deriving DecidableEq

instance : Named Slit where
  values := [.width1, .width2, .width3, .width4, .width6, .width8]
  name
    | .width1 => "long_slit1"
    | .width2 => "long_slit2"
    | .width3 => "long_slit3"
    | .width4 => "long_slit4"
    | .width6 => "long_slit6"
    | .width8 => "long_slit8"

inductive ReadMode
  | bright
  | medium
  | faint
deriving DecidableEq

instance : Named ReadMode where
  values := [.bright, .medium, .faint]
  name
    | .bright => "bright"
    | .medium => "medium"
    | .faint => "faint"

/-- The read mode that goes with an exposure time: faint beyond 85 seconds, medium beyond 21. -/
def ReadMode.ofExposure (exposure : TimeSpan) : ReadMode :=
  if TimeSpan.ofSeconds 85 < exposure then .faint
  else if TimeSpan.ofSeconds 21 < exposure then .medium
  else .bright

structure Config where
  exposure : TimeSpan
  disperser : Option Disperser
  filter : Filter
  readMode : ReadMode
  slit : Option Slit
deriving DecidableEq

end Flamingos
end Observing
