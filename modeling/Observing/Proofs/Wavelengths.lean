import Observing.Proofs.Ceiling
import Observing.Proofs.Origin

/-!
# Wavelengths that are handed out

A dither shifts the central wavelength of a grating and stops at none, and none is a wavelength that
cannot be read back.  The wavelengths that are handed out are those of the dithers that some atom comes
to; science and lamps, first exposures and repetitions have the same ones.

* `Specification.shifts`     the central wavelength with each dither that some atom comes to;
* `wavelength_of_handsOut`   no other wavelength is handed out, whatever was recorded;
* `exists_wavelength`        each of them is, behind some history;
* `Engine.ReadsBack`         whatever is handed out can be read back;
* `Engine.readsBack_iff`     so it is exactly when no dither takes the wavelength down to none.
-/

namespace Observing

/-! ## Configurations -/

namespace InstrumentConfig

@[simp] theorem wavelength?_withExposure (i : InstrumentConfig) (t : TimeSpan) :
    (i.withExposure t).wavelength? = i.wavelength? := by
  cases i with
  | gmosNorth c => rfl
  | gmosSouth c => rfl
  | flamingos2 c => rfl

theorem wavelength?_dithered (i : InstrumentConfig) (d : Dither) :
    (i.dithered d).wavelength? = i.wavelength?.map (·.shift d) := by
  cases i with
  | gmosNorth c => simp [dithered, wavelength?, Gmos.Config.dithered, Function.comp_def]
  | gmosSouth c => simp [dithered, wavelength?, Gmos.Config.dithered, Function.comp_def]
  | flamingos2 c => rfl

end InstrumentConfig

/-- A shifted wavelength is above none exactly when the sum is. -/
theorem Wavelength.picometers_shift_pos (w : Wavelength) (d : Dither) :
    0 < (w.shift d).picometers ↔ 0 < (w.picometers : Int) + d.picometers.val := by
  rw [shift, picometers_ofPicometers, Ticks.greatest]
  omega

/-! ## Dithers -/

namespace LongSlitPlan

/-- The dithers that some atom of a plan comes to. -/
def usedDithers (s : LongSlitPlan) : List Dither := s.dithers.take s.atomCount

theorem dither_adjustment (s : LongSlitPlan) (h : s.dithers ≠ []) (j : Nat) :
    s.dithers[j % s.dithers.length]? = some (s.adjustment (j % s.adjustmentCount)).dither := by
  have hpos : 0 < s.dithers.length := List.length_pos_iff.2 h
  have hmax : max s.dithers.length 1 = s.dithers.length := Nat.max_eq_left hpos
  have hdvd : s.dithers.length ∣ s.adjustmentCount := by
    rw [adjustmentCount, hmax]
    exact Nat.dvd_lcm_left _ _
  have hlt : j % s.dithers.length < s.dithers.length := Nat.mod_lt j hpos
  rw [adjustment, hmax, Nat.mod_mod_of_dvd j hdvd, List.getElem?_eq_getElem hlt]
  rfl

theorem mem_usedDithers (s : LongSlitPlan) (h : s.dithers ≠ []) {d : Dither} :
    d ∈ s.usedDithers ↔
      ∃ j < s.atomCount, (s.adjustment (j % s.adjustmentCount)).dither = d := by
  rw [usedDithers, List.mem_take_iff_getElem]
  constructor
  · rintro ⟨i, hi, rfl⟩
    rw [Nat.lt_min] at hi
    refine ⟨i, hi.1, Option.some.inj ?_⟩
    rw [← s.dither_adjustment h, Nat.mod_eq_of_lt hi.2, List.getElem?_eq_getElem hi.2]
  · rintro ⟨j, hj, rfl⟩
    obtain ⟨hlt, hd⟩ := List.getElem?_eq_some_iff.1 (s.dither_adjustment h j)
    exact ⟨_, Nat.lt_min.2 ⟨(Nat.mod_le _ _).trans_lt hj, hlt⟩, hd⟩

end LongSlitPlan

/-! ## Plans -/

namespace SciencePlan

/-- The central wavelength of the grating with each dither that some atom comes to. -/
def shifts : SciencePlan → List (Wavelength × Dither)
  | longSlit s => s.template.wavelength?.toList.flatMap fun w => s.usedDithers.map fun d => (w, d)
  | imaging _ | nod _ => []

/-- A plan through a slit has dithers, and no other plan has a grating. -/
def Tuned : SciencePlan → Prop
  | longSlit s => s.dithers ≠ []
  | imaging s => ∀ f ∈ s.filters, f.2.wavelength? = none
  | nod s => s.template.wavelength? = none

theorem wavelength?_base_iff {s : SciencePlan} (h : s.Tuned) {w : Wavelength} :
    (∃ a ∈ s.atoms, a.base.wavelength? = some w) ↔ ∃ c ∈ s.shifts, c.1.shift c.2 = w := by
  cases s with
  | longSlit s =>
    have hbase : ∀ j, (s.atom j).base.wavelength? = s.template.wavelength?.map
        (·.shift (s.adjustment (j % s.adjustmentCount)).dither) :=
      fun j => InstrumentConfig.wavelength?_dithered _ _
    constructor
    · rintro ⟨a, ha, hw⟩
      obtain ⟨j, hj, rfl⟩ := List.mem_map.1 ha
      rw [hbase] at hw
      obtain ⟨central, hcentral, rfl⟩ := Option.map_eq_some_iff.1 hw
      have hd := (s.mem_usedDithers h).2 ⟨j, List.mem_range.1 hj, rfl⟩
      exact ⟨_, List.mem_flatMap.2 ⟨central, Option.mem_toList.2 hcentral,
        List.mem_map_of_mem hd⟩, rfl⟩
    · rintro ⟨c, hc, rfl⟩
      obtain ⟨central, hcentral, hc⟩ := List.mem_flatMap.1 hc
      obtain ⟨d, hd, rfl⟩ := List.mem_map.1 hc
      obtain ⟨j, hj, rfl⟩ := (s.mem_usedDithers h).1 hd
      refine ⟨s.atom j, List.mem_map_of_mem (List.mem_range.2 hj), ?_⟩
      rw [hbase, Option.mem_toList.1 hcentral, Option.map_some]
  | imaging s =>
    refine ⟨fun ⟨a, ha, hw⟩ => ?_, fun ⟨c, hc, _⟩ => absurd hc List.not_mem_nil⟩
    obtain ⟨f, hf, ha⟩ := List.mem_flatMap.1 ha
    obtain ⟨pass, -, rfl⟩ := List.mem_map.1 ha
    have hnone : (s.passAtom f pass).base.wavelength? = none :=
      h f.1 (List.mem_of_getElem? (List.mem_zipIdx_iff_getElem?.1 hf))
    cases hnone.symm.trans hw
  | nod s =>
    refine ⟨fun ⟨a, ha, hw⟩ => ?_, fun ⟨c, hc, _⟩ => absurd hc List.not_mem_nil⟩
    obtain rfl := (List.mem_replicate.1 ha).2
    have hnone : s.cycleAtom.base.wavelength? = none := h
    cases hnone.symm.trans hw

end SciencePlan

/-- A planned atom with calibrations around it is a science atom or the calibration of one. -/
theorem ArcAndFlat.mem_injectAfter (c : ArcAndFlat) {science : List PlannedAtom} {p : ProtoAtom}
    (hp : p ∈ c.injectAfter none science) :
    ∃ a ∈ science, p = a.atom ∨ p = c.atom a.base := by
  rw [injectAfter_none] at hp
  obtain ⟨run, hrun, hp⟩ := List.mem_flatMap.1 hp
  cases run with
  | nil => cases hp
  | cons first rest =>
    rcases List.mem_cons.1 hp with rfl | hp
    · exact ⟨first, PlannedAtom.mem_of_mem_runs hrun List.mem_cons_self, .inr rfl⟩
    · obtain ⟨a, ha, rfl⟩ := List.mem_map.1 hp
      exact ⟨a, PlannedAtom.mem_of_mem_runs hrun ha, .inl rfl⟩

namespace Specification

/-- The central wavelength of the grating with each dither that some atom comes to. -/
def shifts (s : Specification) : List (Wavelength × Dither) := s.science.shifts

/-- Each planned science step has the wavelength of some science atom, lamps included. -/
theorem exists_base (s : Specification) {p : ProtoStep}
    (hp : p ∈ (Plans.ofSpecification s).science.steps) :
    ∃ a ∈ s.science.atoms, p.instrumentConfig.wavelength? = a.base.wavelength? := by
  have hatoms : ∃ b ∈ s.scienceAtoms, p ∈ b.steps := by
    obtain ⟨b, hb, hpb⟩ := List.mem_flatMap.1 hp
    rcases List.mem_append.1 hb with hb | hb
    · exact ⟨b, hb, hpb⟩
    · cases hb
  have hscience : ∀ a ∈ s.science.atoms, p ∈ a.atom.steps →
      p.instrumentConfig.wavelength? = a.base.wavelength? := by
    intro a ha hpa
    rw [s.science.regular_atoms.config a ha p hpa]
  obtain ⟨b, hb, hpb⟩ := hatoms
  unfold scienceAtoms at hb
  cases hc : s.rules.arcsAndFlats with
  | none =>
    rw [hc] at hb
    obtain ⟨a, ha, rfl⟩ := List.mem_map.1 hb
    exact ⟨a, ha, hscience a ha hpb⟩
  | some c =>
    rw [hc] at hb
    obtain ⟨a, ha, rfl | rfl⟩ := c.mem_injectAfter hb
    · exact ⟨a, ha, hscience a ha hpb⟩
    · refine ⟨a, ha, ?_⟩
      rcases List.mem_cons.1 hpb with rfl | hpb
      · exact InstrumentConfig.wavelength?_withExposure _ _
      · rw [List.mem_singleton.1 hpb]
        exact InstrumentConfig.wavelength?_withExposure _ _

/-- Each science atom is planned, and it has steps. -/
theorem exists_step {s : Specification} (h : s.science.Filled) {a : PlannedAtom}
    (ha : a ∈ s.science.atoms) : ∃ p ∈ (Plans.ofSpecification s).science.steps,
      p.instrumentConfig = a.base := by
  have hplanned : a.atom ∈ s.scienceAtoms := by
    unfold scienceAtoms
    cases s.rules.arcsAndFlats with
    | none => exact List.mem_map_of_mem ha
    | some c =>
      have hmem := List.mem_map_of_mem (f := PlannedAtom.atom) ha
      rw [← c.filter_injectAfter s.science.regular_atoms.kind] at hmem
      exact List.mem_of_mem_filter hmem
  obtain ⟨p, hp⟩ := List.exists_mem_of_ne_nil _ (SciencePlan.steps_ne_nil h a ha)
  exact ⟨p, List.mem_flatMap.2 ⟨a.atom, List.mem_append_left _ hplanned, hp⟩,
    s.science.regular_atoms.config a ha p hp⟩

theorem tuned_ofMode (observation : String) (role : Option CalibrationRole)
    (times : IntegrationTimes) (mode : ObservingMode) :
    (ofMode observation role times mode).science.Tuned := by
  have himaging : ∀ instrument m rules, SciencePlan.Tuned
      (.imaging (gmosImagingPlan instrument m times rules)) := by
    intro instrument m rules f hf
    obtain ⟨filter, -, rfl⟩ := List.mem_map.1 hf
    exact wavelength?_gmosConfig _ _
  cases mode with
  | gmosNorthLongSlit m => exact chosenOr_ne_nil (List.cons_ne_nil _ _) m.dithers
  | gmosSouthLongSlit m => exact chosenOr_ne_nil (List.cons_ne_nil _ _) m.dithers
  | gmosNorthImaging m => exact himaging _ _ _
  | gmosSouthImaging m => exact himaging _ _ _
  | flamingos2LongSlit m => rfl

theorem tuned_of_build {o : Observation} {calculator : Calculator} {s : Specification}
    (h : build o calculator = .ok s) : s.science.Tuned := by
  obtain ⟨times, mode, rfl⟩ := exists_ofMode_of_build h
  exact tuned_ofMode ..

end Specification

/-! ## The engine -/

namespace Engine

variable {e : Engine} {o : Observation} {calculator : Calculator} {s : Specification}
  {sequence : SequenceType}

/-- Whatever was recorded, no wavelength is handed out that is not the central one with a dither that
some atom comes to. -/
theorem wavelength_of_handsOut (hs : e.specification o calculator = .ok s) {a : Atom}
    (ha : e.HandsOut o calculator sequence a) {x : Step} (hx : x ∈ a.steps) {w : Wavelength}
    (hw : x.instrumentConfig.wavelength? = some w) : ∃ c ∈ s.shifts, c.1.shift c.2 = w := by
  have hbuild := (projectedAtoms_le hs).1
  obtain ⟨plan, hplan, p, hp, id, estimate, rfl⟩ := exists_planned hs ha hx
  have hpw : p.instrumentConfig.wavelength? = some w := hw
  cases sequence with
  | acquisition =>
    have hnone := (Specification.acquires_of_build hbuild hplan p hp).wavelength
    cases hnone.symm.trans hpw
  | science =>
    cases hplan
    obtain ⟨b, hb, hbase⟩ := s.exists_base hp
    exact (SciencePlan.wavelength?_base_iff (Specification.tuned_of_build hbuild)).1
      ⟨b, hb, hbase.symm.trans hpw⟩

/-- Each of these wavelengths is handed out behind some history. -/
theorem exists_wavelength (hs : e.specification o calculator = .ok s)
    (hapart : AtomKey.Apart (e.atomKeys (o.withHistory ⟨[]⟩) s .science 0))
    {c : Wavelength × Dither} (hc : c ∈ s.shifts) :
    ∃ h a, e.HandsOut (o.withHistory h) calculator .science a ∧
      ∃ x ∈ a.steps, x.instrumentConfig.wavelength? = some (c.1.shift c.2) := by
  have hbuild := (projectedAtoms_le hs).1
  obtain ⟨b, hb, hbase⟩ :=
    (SciencePlan.wavelength?_base_iff (Specification.tuned_of_build hbuild)).2 ⟨c, hc, rfl⟩
  obtain ⟨p, hp, hconfig⟩ := Specification.exists_step (Specification.filled_of_build hbuild) hb
  obtain ⟨h, a, ha, id, estimate, hx⟩ := exists_handsOut hs hapart hp
  refine ⟨h, a, ha, _, hx, ?_⟩
  rw [← hbase, ← hconfig]
  rfl

/-- Whatever is handed out behind any history can be read back. -/
def ReadsBack (e : Engine) (o : Observation) (calculator : Calculator) : Prop :=
  ∀ h sequence a, e.HandsOut (o.withHistory h) calculator sequence a → ∀ x ∈ a.steps,
    x.instrumentConfig.Positive ∧ decode (encode x.instrumentConfig) = .ok x.instrumentConfig

/-- When what is handed out can be read back.  The wavelengths that are handed out are the central one
with the dithers that some atom comes to; as long as each of these sums is above none, every
configuration is read back.  Where one of them is not, some configuration is refused. -/
theorem readsBack_iff (e : Engine) (o : Observation) (calculator : Calculator) (s : Specification)
    (hs : e.specification o calculator = .ok s) :
    (∀ h sequence a, e.HandsOut (o.withHistory h) calculator sequence a → ∀ x ∈ a.steps, ∀ w,
      x.instrumentConfig.wavelength? = some w → ∃ c ∈ s.shifts, c.1.shift c.2 = w) ∧
    ((∀ c ∈ s.shifts, 0 < (c.1.picometers : Int) + c.2.picometers.val) →
      e.ReadsBack o calculator) ∧
    (AtomKey.Apart (e.atomKeys (o.withHistory ⟨[]⟩) s .science 0) → e.ReadsBack o calculator →
      ∀ c ∈ s.shifts, 0 < (c.1.picometers : Int) + c.2.picometers.val) := by
  refine ⟨?_, ?_, ?_⟩
  · intro h sequence a ha x hx w hw
    exact wavelength_of_handsOut (o := o.withHistory h) hs ha hx hw
  · intro hall h sequence a ha x hx
    have hpositive : x.instrumentConfig.Positive := by
      intro w hw
      obtain ⟨c, hc, rfl⟩ := wavelength_of_handsOut (o := o.withHistory h) hs ha hx hw
      exact (Wavelength.picometers_shift_pos _ _).2 (hall c hc)
    exact ⟨hpositive, (decode_encode_instrumentConfig_iff _).2 hpositive⟩
  · intro hapart hreads c hc
    obtain ⟨h, a, ha, x, hx, hw⟩ := exists_wavelength hs hapart hc
    exact (Wavelength.picometers_shift_pos _ _).1 ((hreads h .science a ha x hx).1 _ hw)

end Engine

/-! ## A dither by the whole wavelength -/

namespace Zeroed

/-- Exposures through a slit with one dither, which takes the wavelength down to none. -/
def mode : ObservingMode :=
  .gmosNorthLongSlit ⟨.b1200, none, .width100, .ofNanometers 500, ⟨none, none, none, none, none⟩,
    some [.ofNanometers (-500)], none, none⟩

def observation : Observation := { Slit.observation 1 ⟨[]⟩ with mode := some mode }

def specification : Specification := .ofMode "o" none (Slit.times 1) mode

/-- The arc and the flat that are handed out first. -/
def first : Atom :=
  ((default : Engine).nextAtom observation (Slit.calculator 1) .science).toOption.join.get
    (by decide +kernel)

end Zeroed

/-- The first lamp is handed out with a wavelength of none, which is refused when it comes back. -/
theorem Engine.readsBack_iff_zeroed :
    (default : Engine).specification Zeroed.observation (Slit.calculator 1) =
      .ok Zeroed.specification ∧
    (default : Engine).HandsOut (Zeroed.observation.withHistory ⟨[]⟩) (Slit.calculator 1) .science
      Zeroed.first ∧
    (∃ x ∈ Zeroed.first.steps, ∃ w, x.instrumentConfig.wavelength? = some w ∧ w.picometers = 0 ∧
      ∃ c ∈ Zeroed.specification.shifts, c.1.shift c.2 = w) ∧
    ¬(default : Engine).ReadsBack Zeroed.observation (Slit.calculator 1) := by
  have hs : (default : Engine).specification Zeroed.observation (Slit.calculator 1) =
      .ok Zeroed.specification := by decide +kernel
  have hfirst : (default : Engine).HandsOut (Zeroed.observation.withHistory ⟨[]⟩)
      (Slit.calculator 1) .science Zeroed.first := .inl (by decide +kernel)
  obtain ⟨hshifts, -, hrefused⟩ := Engine.readsBack_iff default Zeroed.observation
    (Slit.calculator 1) Zeroed.specification hs
  let x := Zeroed.first.steps.head (by decide +kernel)
  have hx : x ∈ Zeroed.first.steps := List.head_mem _
  have hw : x.instrumentConfig.wavelength? = some (.ofPicometers 0) := by decide +kernel
  refine ⟨hs, hfirst, ⟨x, hx, _, hw, rfl, hshifts _ _ _ hfirst x hx _ hw⟩, ?_⟩
  intro hreads
  have hsum := hrefused (by decide +kernel) hreads (.ofNanometers 500, .ofNanometers (-500))
    (by decide +kernel)
  exact absurd hsum (by decide)

end Observing
