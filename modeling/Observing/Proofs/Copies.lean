import Observing.Proofs.Repetition

/-!
# Copies of a step

Only changes are charged.  A step leaves the telescope and the instrument as it needs them, so that a
copy behind it finds nothing to change: it takes the time of its detector alone, and leaves the state as
it is.  Biases and darks leave the fold, the offset and the lamp alone, and need none of them either.

* `TimeSpan.isGreatest_longest?`   the longest of a list of spans;
* `ConfigChange.TakesLongest`      changes take as long as the longest of them;
* `TelescopeState.Suits`           a state that a step leaves as it is;
* `CostModel.configChange_of_suits`    such a step has nothing to change;
* `CostModel.estimateAll_replicate`    what copies take from such a state, and what they leave;
* `CostModel.copies_exact`         what copies take from any state, and what they leave.
-/

namespace Observing

/-! ## The longest change -/

namespace TimeSpan

theorem micros_longer (a b : TimeSpan) : (a.longer b).micros = max a.micros b.micros := by
  unfold longer
  split
  · next h => exact (Nat.max_eq_right h).symm
  · next h => exact (Nat.max_eq_left (Nat.le_of_not_le h)).symm

theorem longer_eq_or (a b : TimeSpan) : a.longer b = a ∨ a.longer b = b := by
  unfold longer
  split
  · exact .inr rfl
  · exact .inl rfl

theorem isGreatest_foldl_longer (t : TimeSpan) (ts : List TimeSpan) :
    IsGreatest {x | x ∈ t :: ts} (ts.foldl longer t) := by
  induction ts generalizing t with
  | nil => exact ⟨List.mem_singleton_self t, fun x hx => (List.mem_singleton.1 hx) ▸ Nat.le_refl _⟩
  | cons u us ih =>
    obtain ⟨hmem, hupper⟩ := ih (t.longer u)
    have hlonger : (t.longer u).micros ≤ (us.foldl longer (t.longer u)).micros :=
      hupper List.mem_cons_self
    rw [micros_longer] at hlonger
    refine ⟨?_, fun x hx => ?_⟩
    · show us.foldl longer (t.longer u) ∈ t :: u :: us
      rcases List.mem_cons.1 hmem with hfold | hmem
      · rw [hfold]
        rcases longer_eq_or t u with h | h <;> simp [h]
      · exact List.mem_cons_of_mem _ (List.mem_cons_of_mem _ hmem)
    · rcases List.mem_cons.1 hx with rfl | hx
      · exact (Nat.le_max_left _ _).trans hlonger
      · rcases List.mem_cons.1 hx with rfl | hx
        · exact (Nat.le_max_right _ _).trans hlonger
        · exact hupper (List.mem_cons_of_mem _ hx)

theorem isGreatest_longest? {ts : List TimeSpan} (hne : ts ≠ []) :
    IsGreatest {x | x ∈ ts} ((longest? ts).getD 0) := by
  cases ts with
  | nil => exact absurd rfl hne
  | cons t ts => exact isGreatest_foldl_longer t ts

end TimeSpan

namespace ConfigChange

/-- Changes take as long as the longest of them, and no time where there are none. -/
structure TakesLongest (c : ConfigChange) : Prop where
  estimate_eq_zero : c.items = [] → c.estimate = 0
  isGreatest : c.items ≠ [] → IsGreatest {x | x ∈ c.items.map (·.estimate)} c.estimate

theorem takesLongest_ofItems (items : List ConfigChangeItem) : (ofItems items).TakesLongest where
  estimate_eq_zero h := by
    rw [show items = [] from h]
    rfl
  isGreatest h := TimeSpan.isGreatest_longest? (mt List.map_eq_nil_iff.1 h)

end ConfigChange

/-! ## States that a step leaves as they are -/

namespace TelescopeState

variable {t : TelescopeState} {p : ProtoStep}

/-- The step leaves the state as it is. -/
def Suits (t : TelescopeState) (p : ProtoStep) : Prop :=
  t.after p.instrumentConfig p.stepConfig = t

theorem instrument_after (t : TelescopeState) (i : InstrumentConfig) (c : StepConfig) :
    (t.after i c).instrument = some i := by
  cases c <;> rfl

theorem after_after (t : TelescopeState) (i : InstrumentConfig) (c : StepConfig) :
    (t.after i c).after i c = t.after i c := by
  cases c <;> rfl

theorem suits_after (t : TelescopeState) (p : ProtoStep) :
    (t.after p.instrumentConfig p.stepConfig).Suits p :=
  after_after t _ _

theorem Suits.instrument (h : t.Suits p) : t.instrument = some p.instrumentConfig := by
  rw [← instrument_after t p.instrumentConfig p.stepConfig, h]

end TelescopeState

namespace CostModel

variable {m : CostModel} {t : TelescopeState} {p : ProtoStep}

/-- What a step leaves as it is, it does not change. -/
theorem telescopeChanges_of_suits (h : t.Suits p) : m.telescopeChanges t p.stepConfig = [] := by
  unfold TelescopeState.Suits at h
  cases hc : p.stepConfig with
  | science offset guiding =>
    rw [hc] at h
    have hfold : .sky = t.fold := congrArg TelescopeState.fold h
    have hoffset : offset = t.offset := congrArg TelescopeState.offset h
    simp [telescopeChanges, change, ← hfold, ← hoffset]
  | gcal config =>
    rw [hc] at h
    have hfold : .gcal = t.fold := congrArg TelescopeState.fold h
    have hgcal : some config = t.gcal := congrArg TelescopeState.gcal h
    simp [telescopeChanges, change, ← hfold, ← hgcal]
  -- These look at nothing of the telescope, as they set nothing of it.
  | bias => rfl
  | dark => rfl

theorem configChange_of_suits (h : t.Suits p) : m.configChange t p = ⟨[], 0⟩ := by
  rw [configChange, telescopeChanges_of_suits h, h.instrument, instrumentChanges_self]
  rfl

/-! ## Copies -/

/-- The time of a step that has nothing to change. -/
def unchanged (m : CostModel) (p : ProtoStep) : StepEstimate :=
  ⟨⟨[], 0⟩, m.detector p.instrumentConfig, (m.detector p.instrumentConfig).total⟩

theorem estimate_of_suits (h : t.Suits p) : m.estimate t p = m.unchanged p := by
  rw [estimate, configChange_of_suits h, TimeSpan.zero_add]
  rfl

/-- From a state that suits the step no copy of it has anything to change, as each of them leaves the
state to the next one. -/
theorem estimateAll_replicate (h : t.Suits p) (n : ℕ) :
    m.estimateAll t (List.replicate n p) = (List.replicate n (m.unchanged p), t) := by
  induction n with
  | zero => rfl
  | succ n ih =>
    have hleft : t.after p.instrumentConfig p.stepConfig = t := h
    rw [List.replicate_succ, estimateAll, hleft, ih, estimate_of_suits h]
    rfl

/-- Behind the first copy of a step all others have nothing to change. -/
theorem estimateAll_replicate_succ (m : CostModel) (t : TelescopeState) (p : ProtoStep) (n : ℕ) :
    m.estimateAll t (List.replicate (n + 1) p) =
      (m.estimate t p :: List.replicate n (m.unchanged p), t.after p.instrumentConfig p.stepConfig) := by
  rw [List.replicate_succ, estimateAll, estimateAll_replicate (t.suits_after p)]

/-- Copies take the changes in front of the first of them, and each the time of the detector.  The exact
sum is stopped at the greatest span once, however often the sums on the way were. -/
theorem micros_time_replicate_succ (m : CostModel) (t : TelescopeState) (p : ProtoStep) (n : ℕ) :
    (m.time t (List.replicate (n + 1) p)).micros =
      min ((m.configChange t p).estimate.micros +
        (n + 1) * (m.detector p.instrumentConfig).total.micros) Ticks.greatest := by
  have hfirst : (m.estimate t p).total.micros =
      min ((m.configChange t p).estimate.micros + (m.detector p.instrumentConfig).total.micros)
        Ticks.greatest := rfl
  have hlater : ((m.unchanged p).total).micros = (m.detector p.instrumentConfig).total.micros := rfl
  rw [time, estimateAll_replicate_succ, TimeSpan.micros_sum, List.map_cons, List.map_cons,
    List.map_replicate, List.map_replicate, List.sum_cons, List.sum_replicate_nat, hfirst, hlater,
    Nat.succ_mul]
  omega

/-- A step takes its changes, the exposure, the readout and the writing of the data, and its changes
take as long as the longest of them. -/
structure Priced (m : CostModel) (p : ProtoStep) (e : StepEstimate) : Prop where
  change : e.configChange.TakesLongest
  detector : e.detector = m.detector p.instrumentConfig
  total : e.total = e.configChange.estimate + p.instrumentConfig.exposure +
    m.readout p.instrumentConfig + m.writeOverhead

theorem priced_estimate (m : CostModel) (t : TelescopeState) (p : ProtoStep) :
    m.Priced p (m.estimate t p) where
  change := ConfigChange.takesLongest_ofItems _
  detector := rfl
  total := by
    rw [TimeSpan.add_assoc, TimeSpan.add_assoc, ← TimeSpan.add_assoc p.instrumentConfig.exposure]
    rfl

theorem priced_unchanged (m : CostModel) (p : ProtoStep) : m.Priced p (m.unchanged p) := by
  rw [← estimate_of_suits (TelescopeState.initial.suits_after p)]
  exact m.priced_estimate _ p

/-- Only changes are charged.  Of copies of a step one after another, from any state, those behind the
first have nothing to change; each of them, the first too, takes its changes, of which the longest
counts, the exposure, the readout and the writing of the data.  Together they take the changes in front
of the first and the time of the detector for each, stopped at the greatest span, and they leave the
state that a single one leaves. -/
theorem copies_exact (m : CostModel) (t : TelescopeState) (p : ProtoStep) (n : ℕ) (hn : 1 ≤ n) :
    ∃ first later, (m.estimateAll t (List.replicate n p)).1 = first :: later ∧
      later.length = n - 1 ∧
      (∀ e ∈ later, e.configChange.items = []) ∧
      (∀ e ∈ first :: later, m.Priced p e) ∧
      (m.time t (List.replicate n p)).micros =
        min (first.configChange.estimate.micros +
          n * (m.detector p.instrumentConfig).total.micros) Ticks.greatest ∧
      m.behind t (List.replicate n p) = m.behind t [p] := by
  obtain ⟨k, rfl⟩ : ∃ k, n = k + 1 := ⟨n - 1, by omega⟩
  refine ⟨m.estimate t p, List.replicate k (m.unchanged p), ?_, List.length_replicate, ?_, ?_,
    m.micros_time_replicate_succ t p k, ?_⟩
  · rw [estimateAll_replicate_succ]
  · intro e he
    rw [List.eq_of_mem_replicate he]
    rfl
  · intro e he
    rcases List.mem_cons.1 he with rfl | he
    · exact m.priced_estimate t p
    · rw [List.eq_of_mem_replicate he]
      exact m.priced_unchanged p
  · rw [behind, estimateAll_replicate_succ]
    rfl

end CostModel

/-! ## Exposures behind a flat -/

namespace Slit

/-- An exposure of twenty minutes on the target, dispersed by a grating. -/
def dispersed : ProtoStep :=
  ⟨.gmosNorth ⟨.ofSeconds 1200, .binned .one .one, .fullFrame, some ⟨.b1200, .ofNanometers 500⟩,
    none, some .width100⟩, .onSky 0, .science, .disabled⟩

/-- The telescope off the target with a lamp in the beam, and the instrument set for imaging. -/
def lit : TelescopeState where
  instrument :=
    some (.gmosNorth ⟨.ofSeconds 1, .binned .one .one, .fullFrame, none, some .gPrime, none⟩)
  fold := .gcal
  offset := .alongSlit (.ofArcseconds 15)
  gcal := some ⟨.quartzHalogen, .gmos, .visible, .opened⟩

end Slit

/-- In front of the first of three exposures the fold, the offset, the filter, the slit and the grating
are changed, which takes the 90 seconds of the grating; each takes 1251.1 seconds besides. -/
theorem CostModel.copies_exact_dispersed :
    1 ≤ 3 ∧ ∃ first later,
      (standard.estimateAll Slit.lit (List.replicate 3 Slit.dispersed)).1 = first :: later ∧
      first.configChange.items.map (·.name) =
        ["science fold", "offset", "filter", "fpu", "grating"] ∧
      first.configChange.estimate.micros = 90000000 ∧
      later.length = 2 ∧ (∀ e ∈ later, e.configChange.items = []) ∧
      (standard.time Slit.lit (List.replicate 3 Slit.dispersed)).micros = 3843300000 := by
  obtain ⟨first, later, hestimates, hlength, hitems, -, htime, -⟩ :=
    copies_exact standard Slit.lit Slit.dispersed 3 (by decide)
  obtain rfl : standard.estimate Slit.lit Slit.dispersed = first := (List.cons.inj hestimates).1
  have hdetector : (standard.detector Slit.dispersed.instrumentConfig).total.micros = 1251100000 := by
    decide +kernel
  have hchange : (standard.estimate Slit.lit Slit.dispersed).configChange.estimate.micros =
      90000000 := by
    decide +kernel
  refine ⟨by decide, _, later, hestimates, by decide +kernel, hchange, hlength, hitems, ?_⟩
  rw [htime, hdetector, hchange]
  rfl

end Observing
