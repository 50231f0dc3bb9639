import Observing.Angle
import Observing.Atom
import Observing.Calibration
import Observing.Charge
import Observing.Command
import Observing.Cost
import Observing.Decimal
import Observing.Digest
import Observing.Engine
import Observing.Generation
import Observing.History
import Observing.Identity
import Observing.Instrument.Flamingos
import Observing.Instrument.Gmos
import Observing.Json
import Observing.Json.Codec
import Observing.Json.Reader
import Observing.Json.Writer
import Observing.Limits
import Observing.Main
import Observing.Named
import Observing.Observation
import Observing.Plan.Imaging
import Observing.Plan.LongSlit
import Observing.Plan.Nod
import Observing.Plan.OffsetCycle
import Observing.Progress
import Observing.Proofs.Chain
import Observing.Proofs.Endless
import Observing.Proofs.Extended
import Observing.Proofs.Failures
import Observing.Proofs.First
import Observing.Proofs.Handout
import Observing.Proofs.Once
import Observing.Proofs.Prediction
import Observing.Proofs.Recording
import Observing.Proofs.Remaining
import Observing.Proofs.Stability
import Observing.Proofs.Tally
import Observing.Proofs.Walk
import Observing.Proofs.Waves
import Observing.Proofs.Yield
import Observing.Report
import Observing.Rounding
import Observing.Service
import Observing.Service.MediaType
import Observing.Service.RequestTarget
import Observing.Session
import Observing.Settings
import Observing.Sha1
import Observing.Specification
import Observing.Step
import Observing.Text
import Observing.Ticks
import Observing.TimeSpan
import Observing.Timestamp
import Observing.Uuid
import Observing.Wavelength
import Observing.Wire.History
import Observing.Wire.Observation
import Observing.Wire.Quantity
import Observing.Wire.Sequence
import Observing.Wire.Settings
import Observing.Wire.Step
import Observing.Proofs.Accounting
import Observing.Proofs.Growth
import Observing.Proofs.Provenance
import Observing.Proofs.Working
import Observing.Proofs.Exhaustion
import Observing.Proofs.Balance
import Observing.Proofs.Loss
import Observing.Proofs.Searches
import Observing.Proofs.Circles
import Observing.Proofs.Reuse
import Observing.Proofs.Unique
import Observing.Proofs.Windows
import Observing.Proofs.Conservation
import Observing.Proofs.Calibrated
import Observing.Proofs.Exposures
import Observing.Proofs.Ceiling
import Observing.Proofs.RoundTrip
import Observing.Proofs.Origin
import Observing.Proofs.Returns
import Observing.Proofs.Wavelengths
import Observing.Proofs.Agreement
import Observing.Proofs.Dependence
import Observing.Proofs.Idle
import Observing.Proofs.Acquisition
import Observing.Proofs.Deficit
import Observing.Proofs.Roles
import Observing.Proofs.Layout
import Observing.Proofs.CyclicWalk
import Observing.Proofs.CanonicalCycle
import Observing.Proofs.Blocks
import Observing.Proofs.Projection
import Observing.Proofs.Latest
import Observing.Proofs.Numerals
import Observing.Proofs.WrittenNumbers
import Observing.Proofs.Corrections
import Observing.Proofs.Totals
import Observing.Proofs.Programs
import Observing.Proofs.Pairing
import Observing.Proofs.Passes
import Observing.Proofs.Events
import Observing.Proofs.HigherLimits
import Observing.Proofs.MoreExposures
import Observing.Proofs.Repetition
import Observing.Proofs.Spelling
import Observing.Proofs.Words
import Observing.Proofs.Admitted
import Observing.Proofs.WordPlans
import Observing.Proofs.Copies
