import Observing.History

/-!
# What a step costs

A step takes the longest of the changes made in front of it, then the exposure, the readout and the
writing of the data.

* `CostModel`                  the fixed times;
* `TelescopeState`             how the previous steps left the telescope;
* `CostModel.estimate`         the time of a step in a state;
* `CostModel.estimateAll`      the times of steps one after another.

Main statements: estimating steps one after another gives each of them a time (`length_estimateAll`)
and can be cut anywhere (`estimateAll_append`).
-/

namespace Observing

/-! ## The state of the telescope -/

/-- Where the science fold sends the beam. -/
inductive Fold
  | sky
  | gcal
deriving DecidableEq

instance : Named Fold where
  values := [.sky, .gcal]
  name
    | .sky => "sky"
    | .gcal => "gcal"

structure TelescopeState where
  instrument : Option InstrumentConfig
  fold : Fold
  offset : Offset
  gcal : Option Gcal.Config
deriving DecidableEq

namespace TelescopeState

def initial : TelescopeState := ⟨none, .sky, 0, none⟩

instance : Inhabited TelescopeState := ⟨initial⟩

/-- The state in which a step leaves the telescope. -/
def after (s : TelescopeState) (instrumentConfig : InstrumentConfig) (stepConfig : StepConfig) :
    TelescopeState :=
  match stepConfig with
  | .science offset _ => { s with instrument := some instrumentConfig, fold := .sky, offset }
  | .gcal config => { s with instrument := some instrumentConfig, fold := .gcal, gcal := some config }
  | .bias | .dark => { s with instrument := some instrumentConfig }

/-- The state in which the executed steps of the visits that count left the telescope. -/
def ofHistory (h : History) (scope : VisitScope) : TelescopeState :=
  (h.executedSteps.filter fun (a, _) => History.inVisit (scope.visit h) a).foldl
    (fun s (_, r) => s.after r.instrumentConfig r.stepConfig) initial

end TelescopeState

/-! ## Fixed times -/

/-- The fixed times that estimates are made of. -/
structure CostModel where
  writeOverhead : TimeSpan
  scienceFoldMove : TimeSpan
  gcalChange : TimeSpan
  offsetConstant : TimeSpan
  offsetPerArcsec : TimeSpan
  gmosFilterChange : TimeSpan
  gmosSlitChange : TimeSpan
  gmosGratingChange : TimeSpan
  gmosWavelengthChange : TimeSpan
  gmosSlowReadOverhead : TimeSpan
  gmosSlowReadPixels : TimeSpan
  gmosFastReadOverhead : TimeSpan
  gmosFastReadPixels : TimeSpan
  gmosSouthReadExtra : TimeSpan
  flamingosFilterChange : TimeSpan
  flamingosDisperserChange : TimeSpan
  flamingosSlitChange : TimeSpan
  flamingosBrightRead : TimeSpan
  flamingosMediumRead : TimeSpan
  flamingosFaintRead : TimeSpan
deriving DecidableEq

namespace CostModel

def standard : CostModel where
  writeOverhead := .ofSeconds 10
  scienceFoldMove := .ofSeconds 15
  gcalChange := .ofSeconds 5
  offsetConstant := .ofSeconds 7
  offsetPerArcsec := .ofMicros 62500
  gmosFilterChange := .ofSeconds 20
  gmosSlitChange := .ofSeconds 60
  gmosGratingChange := .ofSeconds 90
  gmosWavelengthChange := .ofSeconds 10
  gmosSlowReadOverhead := .ofMillis 5100
  gmosSlowReadPixels := .ofSeconds 36
  gmosFastReadOverhead := .ofMillis 3100
  gmosFastReadPixels := .ofSeconds 12
  gmosSouthReadExtra := .ofSeconds 1
  flamingosFilterChange := .ofSeconds 50
  flamingosDisperserChange := .ofSeconds 50
  flamingosSlitChange := .ofSeconds 60
  flamingosBrightRead := .ofSeconds 2
  flamingosMediumRead := .ofSeconds 5
  flamingosFaintRead := .ofSeconds 20

instance : Inhabited CostModel := ⟨standard⟩

/-! ## Changes in front of a step -/

/-- The item for a change, if there is one to make. -/
def change (needed : Bool) (name : String) (cost : TimeSpan) : List ConfigChangeItem :=
  if needed then [⟨name, cost⟩] else []

/-- The time to travel a distance in arcseconds, to the nearest microsecond. -/
def travel (m : CostModel) (distance : Rat) : TimeSpan :=
  .ofMicros (Rounding.nearest
    (Rounding.significant (distance * Rounding.significant m.offsetPerArcsec.micros)))

/-- The time to move from one offset to another. -/
def offsetCost (m : CostModel) (start goal : Offset) : TimeSpan :=
  m.offsetConstant + m.travel (start.distance goal)

def telescopeChanges (m : CostModel) (s : TelescopeState) : StepConfig → List ConfigChangeItem
  | .science offset _ =>
    change (s.fold = .gcal) "science fold" m.scienceFoldMove
      ++ change (offset ≠ s.offset) "offset" (m.offsetCost s.offset offset)
  | .gcal config =>
    change (s.fold = .sky) "science fold" m.scienceFoldMove
      ++ change (s.gcal ≠ some config) "gcal" m.gcalChange
  | .bias | .dark => []

/-- The changes of the grating: a turn of the same grating is cheaper than another grating. -/
def gratingChanges (m : CostModel) :
    (previous next : Option Gmos.GratingSetting) → List ConfigChangeItem
  | none, none => []
  | some a, some b =>
    if a.grating = b.grating then
      change (a.wavelength ≠ b.wavelength) "central wavelength" m.gmosWavelengthChange
    else [⟨"grating", m.gmosGratingChange⟩]
  | some _, none => [⟨"grating", m.gmosGratingChange⟩]
  | none, some _ => [⟨"grating", m.gmosGratingChange⟩]

/-- The changes between two exposures with the same GMOS. -/
def gmosChanges (m : CostModel) (previous next : Gmos.Config) : List ConfigChangeItem :=
  change (previous.filter ≠ next.filter) "filter" m.gmosFilterChange
    ++ change (previous.slit ≠ next.slit) "fpu" m.gmosSlitChange
    ++ m.gratingChanges previous.grating next.grating

def flamingosChanges (m : CostModel) (previous next : Flamingos.Config) : List ConfigChangeItem :=
  change (previous.filter ≠ next.filter) "filter" m.flamingosFilterChange
    ++ change (previous.disperser ≠ next.disperser) "disperser" m.flamingosDisperserChange
    ++ change (previous.slit ≠ next.slit) "fpu" m.flamingosSlitChange

/-- The changes that the instrument has to make.  A change of instrument is free. -/
def instrumentChanges (m : CostModel) :
    (previous : Option InstrumentConfig) → (next : InstrumentConfig) → List ConfigChangeItem
  | some (.gmosNorth previous), .gmosNorth next => m.gmosChanges previous next
  | some (.gmosSouth previous), .gmosSouth next => m.gmosChanges previous next
  | some (.flamingos2 previous), .flamingos2 next => m.flamingosChanges previous next
  | _, _ => []

def configChange (m : CostModel) (s : TelescopeState) (p : ProtoStep) : ConfigChange :=
  .ofItems (m.telescopeChanges s p.stepConfig ++ m.instrumentChanges s.instrument p.instrumentConfig)

/-! ## The detector -/

/-- The time to read out a GMOS detector: that of the pixels goes down with the region and with the
binning. -/
def gmosReadout (m : CostModel) (extra : TimeSpan) (c : Gmos.Config) : TimeSpan :=
  let (overhead, pixels) :=
    match c.readout.ampReadMode with
    | .slow => (m.gmosSlowReadOverhead, m.gmosSlowReadPixels)
    | .fast => (m.gmosFastReadOverhead, m.gmosFastReadPixels)
  let (share, outOf) := c.region.share
  let binned := c.readout.xBin.count * c.readout.yBin.count
  overhead + (pixels.times share).divide ((outOf * binned : Nat) : Int) + extra

def readout (m : CostModel) : InstrumentConfig → TimeSpan
  | .gmosNorth c => m.gmosReadout 0 c
  | .gmosSouth c => m.gmosReadout m.gmosSouthReadExtra c
  | .flamingos2 c =>
    match c.readMode with
    | .bright => m.flamingosBrightRead
    | .medium => m.flamingosMediumRead
    | .faint => m.flamingosFaintRead

/-- The time the detector is busy with an exposure. -/
def detector (m : CostModel) (c : InstrumentConfig) : DetectorEstimate :=
  let readout := m.readout c
  ⟨c.exposure, readout, m.writeOverhead, c.exposure + readout + m.writeOverhead⟩

/-! ## Estimates -/

/-- The time of a step in a state of the telescope. -/
def estimate (m : CostModel) (s : TelescopeState) (p : ProtoStep) : StepEstimate :=
  let changes := m.configChange s p
  let detector := m.detector p.instrumentConfig
  ⟨changes, detector, changes.estimate + detector.total⟩

/-- The times of steps one after another, and the state that they leave. -/
def estimateAll (m : CostModel) :
    TelescopeState → List ProtoStep → List StepEstimate × TelescopeState
  | s, [] => ([], s)
  | s, p :: ps =>
    let rest := m.estimateAll (s.after p.instrumentConfig p.stepConfig) ps
    (m.estimate s p :: rest.1, rest.2)

theorem length_estimateAll (m : CostModel) (s : TelescopeState) (ps : List ProtoStep) :
    (m.estimateAll s ps).1.length = ps.length := by
  induction ps generalizing s with
  | nil => rfl
  | cons p ps ih => simp [estimateAll, ih]

theorem estimateAll_append (m : CostModel) (s : TelescopeState) (ps qs : List ProtoStep) :
    m.estimateAll s (ps ++ qs) =
      ((m.estimateAll s ps).1 ++ (m.estimateAll (m.estimateAll s ps).2 qs).1,
        (m.estimateAll (m.estimateAll s ps).2 qs).2) := by
  induction ps generalizing s with
  | nil => rfl
  | cons p ps ih => simp [estimateAll, ih]

end CostModel
end Observing
