import Observing.Cost
import Observing.Settings
import Observing.Wire.Quantity

/-!
# Limits, costs and settings in documents

Whatever is not given has its standard value.
-/

namespace Observing

/-! ## Limits and costs -/

instance : Encode Limits where
  encode l := object [
    ("sequence_atom_limit", encode l.atoms),
    ("max_cycle_minutes", encode l.cycleMinutes),
    ("default_future_limit", encode l.defaultFuture),
    ("max_future_limit", encode l.maxFuture)]

def readLimits : Reading Limits := do
  let atoms ← .fieldOrBy decodeWord "sequence_atom_limit" Limits.standard.atoms
  let cycleMinutes ← .fieldOrBy decodeWord "max_cycle_minutes" Limits.standard.cycleMinutes
  let defaultFuture ← .fieldOrBy decodeWord "default_future_limit" Limits.standard.defaultFuture
  let maxFuture ← .fieldOrBy decodeWord "max_future_limit" Limits.standard.maxFuture
  return { atoms, cycleMinutes, defaultFuture, maxFuture }

instance : Decode Limits := ⟨Reading.record readLimits⟩

/-- Costs are given by those that differ from the standard. -/
def readCosts : Reading CostModel := do
  let s := CostModel.standard
  let writeOverhead ← .fieldOr "write_overhead" s.writeOverhead
  let scienceFoldMove ← .fieldOr "science_fold_move" s.scienceFoldMove
  let gcalChange ← .fieldOr "gcal_change" s.gcalChange
  let offsetConstant ← .fieldOr "offset_constant" s.offsetConstant
  let offsetPerArcsec ← .fieldOr "offset_per_arcsec" s.offsetPerArcsec
  let gmosFilterChange ← .fieldOr "gmos_filter_change" s.gmosFilterChange
  let gmosSlitChange ← .fieldOr "gmos_fpu_change" s.gmosSlitChange
  let gmosGratingChange ← .fieldOr "gmos_grating_change" s.gmosGratingChange
  let gmosWavelengthChange ← .fieldOr "gmos_wavelength_change" s.gmosWavelengthChange
  let gmosSlowReadOverhead ← .fieldOr "gmos_slow_read_overhead" s.gmosSlowReadOverhead
  let gmosSlowReadPixels ← .fieldOr "gmos_slow_read_pixels" s.gmosSlowReadPixels
  let gmosFastReadOverhead ← .fieldOr "gmos_fast_read_overhead" s.gmosFastReadOverhead
  let gmosFastReadPixels ← .fieldOr "gmos_fast_read_pixels" s.gmosFastReadPixels
  let gmosSouthReadExtra ← .fieldOr "gmos_south_read_extra" s.gmosSouthReadExtra
  let flamingosFilterChange ← .fieldOr "flamingos2_filter_change" s.flamingosFilterChange
  let flamingosDisperserChange ← .fieldOr "flamingos2_disperser_change" s.flamingosDisperserChange
  let flamingosSlitChange ← .fieldOr "flamingos2_fpu_change" s.flamingosSlitChange
  let flamingosBrightRead ← .fieldOr "flamingos2_bright_read" s.flamingosBrightRead
  let flamingosMediumRead ← .fieldOr "flamingos2_medium_read" s.flamingosMediumRead
  let flamingosFaintRead ← .fieldOr "flamingos2_faint_read" s.flamingosFaintRead
  return {
    writeOverhead, scienceFoldMove, gcalChange, offsetConstant, offsetPerArcsec,
    gmosFilterChange, gmosSlitChange, gmosGratingChange, gmosWavelengthChange,
    gmosSlowReadOverhead, gmosSlowReadPixels, gmosFastReadOverhead, gmosFastReadPixels,
    gmosSouthReadExtra, flamingosFilterChange, flamingosDisperserChange, flamingosSlitChange,
    flamingosBrightRead, flamingosMediumRead, flamingosFaintRead }

/-- Costs are an object in either case. -/
instance : Decode CostModel where
  decode
    | .object fields => Reading.finish (readCosts (.named fields))
    | _ => .error .shape

/-! ## Settings -/

def decodePort : Json → Decoded Nat := decodeNat 65535

instance : Decode Settings where
  decode := Reading.record do
    let s := Settings.standard
    let host ← .fieldOr "host" s.host
    let port ← .fieldOrBy decodePort "port" s.port
    let debug ← .fieldOr "debug" s.debug
    let serverName ← .fieldOr "server_name" s.serverName
    let limits ← readLimits
    return { host, port, debug, serverName, limits }

end Observing
