import Observing.Proofs.Admitted
import Observing.Proofs.MoreExposures
import Observing.Proofs.Passes
import Observing.Proofs.Words

/-!
# Plans in words

An observation comes with lists that have less than `2 ^ 32` entries and with numbers of exposures below
that.  Its plan is built, counted and enumerated with numbers of 64 bits, and the cycles of nodding are
kept in 32.  Here the functions of plans are written with operations that have no result where they leave
the range, and all of them come out with the mathematical result.  The bounds are in how the numbers hang
together: a position is below a rounded-up quotient, an index below the exposures of an atom, a remainder
below the length of a list.

* `LongSlitPlan.InWords`, `ImagingPlan.InWords`, `NodPlan.InWords`   plans of such lists and numbers;
* `LongSlitPlan.atoms?`, `ImagingPlan.atoms?`, `NodPlan.atoms?`      their atoms;
* `ObservingMode.ShortLists`         the lists of a mode have less than `2 ^ 32` entries;
* `Specification.ofMode?`            the specification of a mode;
* `Specification.exact_in_words`     all of it is exact, from the mode to the last atom.
-/

namespace Observing

def Dither.text? (d : Dither) : Option String := do
  return (← Decimal.write? 3 d.picometers.val) ++ " nm"

def Angle.arcseconds? (a : Angle) : Option String := Decimal.write? 6 a.micro.val

def Angle.text? (a : Angle) : Option String := do
  return (← a.arcseconds?) ++ "″"

theorem Dither.text?_eq (d : Dither) : d.text? = some d.text := by
  rw [text?, Decimal.write?_eq]
  rfl

theorem Angle.arcseconds?_eq (a : Angle) : a.arcseconds? = some a.arcseconds :=
  Decimal.write?_eq _ _

theorem Angle.text?_eq (a : Angle) : a.text? = some a.text := by
  rw [text?, arcseconds?_eq]
  rfl

/-! ## Spectra -/

namespace LongSlitPlan

/-- The lists and the numbers of a plan have 32 bits. -/
structure InWords (s : LongSlitPlan) : Prop where
  dithers : s.dithers.length < 2 ^ 32
  offsets : s.offsets.length < 2 ^ 32
  exposureCount : s.exposureCount < 2 ^ 32
  exposuresPerAtom : s.exposuresPerAtom < 2 ^ 32

def adjustmentCount? (s : LongSlitPlan) : Option ℕ :=
  Word.lcm? (max s.dithers.length 1) (max s.offsets.length 1)

def adjustment? (s : LongSlitPlan) (k : ℕ) : Option Adjustment := do
  let i ← Word.mod? k (max s.dithers.length 1)
  let j ← Word.mod? k (max s.offsets.length 1)
  return ⟨(s.dithers[i]?).getD 0, (s.offsets[j]?).getD 0⟩

def stepOffset? (s : LongSlitPlan) (k i : ℕ) : Option Angle := do
  let count := s.offsets.length
  if count = 0 then return 0
  let block ← Word.div? (← Word.mul? i count) (max s.exposuresPerAtom 1)
  s.offsets[← Word.mod? (← Word.add? k block) count]?

def atomCount? (s : LongSlitPlan) : Option ℕ :=
  Word.ceilDiv? s.exposureCount s.exposuresPerAtom

def groupCount? (s : LongSlitPlan) : Option ℕ := do
  let atoms ← s.atomCount?
  if atoms = 0 then return 0
  if (← s.adjustmentCount?) = 1 then return min atoms 1
  return atoms

/-- The steps of the atom at a position, counted through the whole plan. -/
def steps? (s : LongSlitPlan) (config : InstrumentConfig) (group j : ℕ) : Option (List ProtoStep) := do
  let first ← Word.mul? j s.exposuresPerAtom
  let next ← Word.mul? (← Word.add? j 1) s.exposuresPerAtom
  (List.range' first (min next s.exposureCount - first)).mapM fun n => do
    let i ← Word.sub? n (← Word.mul? j s.exposuresPerAtom)
    return ⟨config, .onSky (.alongSlit (← s.stepOffset? group i)), s.observeClass, .disabled⟩

/-- The atom at a position, where adjustments come round again after `cycle` atoms. -/
def atom? (s : LongSlitPlan) (cycle j : ℕ) : Option PlannedAtom := do
  let group ← Word.mod? j cycle
  let adjustment ← s.adjustment? group
  let config := s.template.dithered adjustment.dither
  let steps ← s.steps? config group j
  let description := (← adjustment.dither.text?) ++ ", " ++ (← adjustment.offset.text?)
  return { group, base := config, atom := ⟨some description, .science, steps⟩ }

def atoms? (s : LongSlitPlan) : Option (List PlannedAtom) := do
  let cycle ← s.adjustmentCount?
  (List.range (← s.atomCount?)).mapM (s.atom? cycle)

theorem adjustment?_eq (s : LongSlitPlan) (k : ℕ) : s.adjustment? k = some (s.adjustment k) := by
  have hdithers : 0 < max s.dithers.length 1 := by omega
  have hoffsets : 0 < max s.offsets.length 1 := by omega
  rw [adjustment?, Word.mod?_eq hdithers, Word.mod?_eq hoffsets]
  rfl

namespace InWords

variable {s : LongSlitPlan} {j k i : ℕ}

/-- The product of the lengths leaves room for another number of 32 bits. -/
theorem adjustmentCount_le (h : s.InWords) :
    s.adjustmentCount ≤ (2 ^ 32 - 1) * (2 ^ 32 - 1) := by
  have hdithers : max s.dithers.length 1 < 2 ^ 32 := by have := h.dithers; omega
  have hoffsets : max s.offsets.length 1 < 2 ^ 32 := by have := h.offsets; omega
  exact (Word.lcm_le _ _).trans (Word.mul_le hdithers hoffsets)

theorem adjustmentCount?_eq (h : s.InWords) : s.adjustmentCount? = some s.adjustmentCount := by
  have hdithers : max s.dithers.length 1 < 2 ^ 32 := by have := h.dithers; omega
  have hoffsets : max s.offsets.length 1 < 2 ^ 32 := by have := h.offsets; omega
  exact Word.lcm?_eq (by omega) (Word.mul_lt hdithers hoffsets)

theorem atomCount?_eq (h : s.InWords) : s.atomCount? = some s.atomCount :=
  Word.ceilDiv?_eq h.exposureCount _

theorem groupCount?_eq (h : s.InWords) : s.groupCount? = some s.groupCount := by
  rw [groupCount?, h.atomCount?_eq, h.adjustmentCount?_eq, groupCount]
  show (if s.atomCount = 0 then some 0
    else if s.adjustmentCount = 1 then some (min s.atomCount 1) else some s.atomCount) = _
  by_cases hnone : s.atomCount = 0
  · rw [if_pos hnone, hnone]
    simp
  · rw [if_neg hnone]
    split <;> rfl

/-- The offsets are walked on by less than their number, so that neither the product nor the sum leaves
the range. -/
theorem stepOffset?_eq (h : s.InWords) (hk : k < s.adjustmentCount) (hi : i < s.exposuresPerAtom) :
    s.stepOffset? k i = some (s.stepOffset k i) := by
  have hperAtom : max s.exposuresPerAtom 1 = s.exposuresPerAtom := by omega
  by_cases hnone : s.offsets.length = 0
  · have hoffset : s.stepOffset k i = 0 := by
      rw [stepOffset, List.length_eq_zero_iff.1 hnone]
      rfl
    rw [stepOffset?, if_pos hnone, hoffset]
    rfl
  · have hcount : 0 < s.offsets.length := Nat.pos_of_ne_zero hnone
    have hproduct : i * s.offsets.length < 2 ^ 64 :=
      Word.mul_lt (hi.trans h.exposuresPerAtom) h.offsets
    have hblock : i * s.offsets.length / s.exposuresPerAtom < s.offsets.length := by
      rw [Nat.div_lt_iff_lt_mul (Nat.zero_lt_of_lt hi), Nat.mul_comm]
      exact Nat.mul_lt_mul_of_pos_left hi hcount
    have hsum : k + i * s.offsets.length / s.exposuresPerAtom < 2 ^ 64 := by
      have hlong := h.adjustmentCount_le
      have hshort := h.offsets
      omega
    have hindex : (k + i * s.offsets.length / s.exposuresPerAtom) % s.offsets.length <
        s.offsets.length := Nat.mod_lt _ hcount
    rw [stepOffset?, if_neg hnone, hperAtom]
    simp only [Word.mul?_eq hproduct, Word.div?_eq (Nat.zero_lt_of_lt hi), Word.add?_eq hsum,
      Word.mod?_eq hcount, Option.bind_eq_bind, Option.bind_some]
    rw [stepOffset, hperAtom, List.getElem?_eq_getElem hindex]
    rfl

/-- The exposures of an atom lie between multiples of the exposures per atom, the first of them within
the plan. -/
theorem steps?_eq (h : s.InWords) (hj : j < s.atomCount) :
    s.steps? (s.template.dithered (s.adjustment (j % s.adjustmentCount)).dither)
      (j % s.adjustmentCount) j = some (s.atom j).atom.steps := by
  have hperAtom : 0 < s.exposuresPerAtom := by
    refine Nat.pos_of_ne_zero fun hzero => ?_
    rw [atomCount, ceilDiv, if_pos hzero] at hj
    exact absurd hj (Nat.not_lt_zero j)
  have hwithin : j * s.exposuresPerAtom < s.exposureCount := (lt_ceilDiv hperAtom).1 hj
  have hnext : (j + 1) * s.exposuresPerAtom = j * s.exposuresPerAtom + s.exposuresPerAtom :=
    Nat.succ_mul _ _
  have hcount := h.exposureCount
  have hsize := h.exposuresPerAtom
  have hposition : j ≤ j * s.exposuresPerAtom := Nat.le_mul_of_pos_right j hperAtom
  have hgroup : j % s.adjustmentCount < s.adjustmentCount :=
    Nat.mod_lt _ (Nat.lcm_pos (by omega) (by omega))
  have hfirst : Word.mul? j s.exposuresPerAtom = some (j * s.exposuresPerAtom) :=
    Word.mul?_eq (by omega)
  have hlast : Word.mul? (j + 1) s.exposuresPerAtom = some ((j + 1) * s.exposuresPerAtom) :=
    Word.mul?_eq (by omega)
  have hstep : ∀ n ∈ List.range' (j * s.exposuresPerAtom) (s.stepCount j), (do
      let i ← Word.sub? n (j * s.exposuresPerAtom)
      return ⟨s.template.dithered (s.adjustment (j % s.adjustmentCount)).dither,
        .onSky (.alongSlit (← s.stepOffset? (j % s.adjustmentCount) i)), s.observeClass, .disabled⟩) =
      some (s.step (j % s.adjustmentCount) (n - j * s.exposuresPerAtom)) := by
    intro n hn
    rw [List.mem_range'_1] at hn
    have hless := s.stepCount_le j
    rw [Word.sub?_eq hn.1, Option.bind_eq_bind, Option.bind_some,
      h.stepOffset?_eq hgroup (by omega)]
    rfl
  simp only [steps?, hfirst, Word.add?_eq (show j + 1 < 2 ^ 64 by omega), hlast, Option.bind_eq_bind,
    Option.bind_some]
  refine (mapM_eq_some_map hstep).trans (congrArg some ?_)
  rw [List.range'_eq_map_range, List.map_map]
  refine List.map_congr_left fun i _ => ?_
  show s.step _ (j * s.exposuresPerAtom + i - j * s.exposuresPerAtom) = _
  rw [Nat.add_sub_cancel_left]

theorem atom?_eq (h : s.InWords) (hj : j < s.atomCount) :
    s.atom? s.adjustmentCount j = some (s.atom j) := by
  have hcycle : 0 < s.adjustmentCount := Nat.lcm_pos (by omega) (by omega)
  simp only [atom?, Word.mod?_eq hcycle, adjustment?_eq, h.steps?_eq hj, Dither.text?_eq,
    Angle.text?_eq, Option.bind_eq_bind, Option.bind_some]
  rfl

theorem atoms?_eq (h : s.InWords) : s.atoms? = some s.atoms := by
  rw [atoms?, h.adjustmentCount?_eq, h.atomCount?_eq]
  exact mapM_eq_some_map fun j hj => h.atom?_eq (List.mem_range.1 hj)

end InWords
end LongSlitPlan
/-! ## Imaging -/

theorem ceilDiv_le (n d : ℕ) : ceilDiv n d ≤ n := by
  by_cases hd : d = 0
  · rw [ceilDiv, if_pos hd]
    exact Nat.zero_le n
  · refine Nat.le_of_not_lt fun hlt => ?_
    have hbelow := (lt_ceilDiv (Nat.pos_of_ne_zero hd)).1 hlt
    exact absurd hbelow (Nat.not_lt_of_le (Nat.le_mul_of_pos_right n (Nat.pos_of_ne_zero hd)))

namespace ImagingPlan

/-- The lists and the number of a plan have 32 bits. -/
structure InWords (s : ImagingPlan) : Prop where
  filters : s.filters.length < 2 ^ 32
  offsets : s.offsets.length < 2 ^ 32
  exposureCount : s.exposureCount < 2 ^ 32

def passes? (s : ImagingPlan) : Option ℕ := Word.ceilDiv? s.exposureCount s.offsets.length

def atomCount? (s : ImagingPlan) : Option ℕ := do
  Word.mul? s.filters.length (← s.passes?)

def groupCount? (s : ImagingPlan) : Option ℕ := do
  return min s.filters.length (← s.atomCount?)

def passAtom? (s : ImagingPlan) (f : (Gmos.Filter × InstrumentConfig) × ℕ) (pass : ℕ) :
    Option PlannedAtom := do
  let left ← Word.sub? s.exposureCount (← Word.mul? pass s.offsets.length)
  return {
    group := f.2
    base := f.1.2
    atom :=
      ⟨some f.1.1.text, .science,
        (s.offsets.take left).map fun o => ⟨f.1.2, .onSky o, s.observeClass, .disabled⟩⟩ }

def atoms? (s : ImagingPlan) : Option (List PlannedAtom) := do
  let passes ← s.passes?
  return (← s.filters.zipIdx.mapM fun f => (List.range passes).mapM (s.passAtom? f)).flatten

namespace InWords

variable {s : ImagingPlan} {pass : ℕ}

theorem passes?_eq (h : s.InWords) : s.passes? = some s.passes :=
  Word.ceilDiv?_eq h.exposureCount _

theorem atomCount_le (h : s.InWords) : s.atomCount ≤ (2 ^ 32 - 1) * (2 ^ 32 - 1) :=
  Word.mul_le h.filters ((ceilDiv_le _ _).trans_lt h.exposureCount)

theorem atomCount?_eq (h : s.InWords) : s.atomCount? = some s.atomCount := by
  rw [atomCount?, h.passes?_eq, Option.bind_eq_bind, Option.bind_some]
  exact Word.mul?_eq (h.atomCount_le.trans_lt (by decide))

theorem groupCount?_eq (h : s.InWords) : s.groupCount? = some s.groupCount := by
  rw [groupCount?, h.atomCount?_eq]
  rfl

/-- The passes in front of one have fewer exposures than there are. -/
theorem passAtom?_eq (h : s.InWords) (f : (Gmos.Filter × InstrumentConfig) × ℕ)
    (hpass : pass < s.passes) : s.passAtom? f pass = some (s.passAtom f pass) := by
  have hoffsets : 0 < s.offsets.length := by
    refine Nat.pos_of_ne_zero fun hzero => ?_
    rw [passes, ceilDiv, if_pos hzero] at hpass
    exact absurd hpass (Nat.not_lt_zero pass)
  have hbefore : pass * s.offsets.length < s.exposureCount := (lt_ceilDiv hoffsets).1 hpass
  have hcount := h.exposureCount
  rw [passAtom?, Word.mul?_eq (by omega), Option.bind_eq_bind, Option.bind_some,
    Word.sub?_eq hbefore.le]
  rfl

theorem atoms?_eq (h : s.InWords) : s.atoms? = some s.atoms := by
  have hfilter : ∀ f ∈ s.filters.zipIdx,
      (List.range s.passes).mapM (s.passAtom? f) = some (s.filterAtoms f) := fun f _ =>
    mapM_eq_some_map fun pass hpass => h.passAtom?_eq f (List.mem_range.1 hpass)
  rw [atoms?, h.passes?_eq, Option.bind_eq_bind, Option.bind_some, mapM_eq_some_map hfilter, atoms,
    List.flatMap_def]
  rfl

end InWords
end ImagingPlan

/-! ## Nodding -/

namespace NodPlan

/-- The list and the number of a plan have 32 bits. -/
structure InWords (s : NodPlan) : Prop where
  offsets : s.offsets.length < 2 ^ 32
  cycles : s.cycles < 2 ^ 32

def atoms? (s : NodPlan) : Option (List PlannedAtom) := do
  let offsets ← s.offsets.mapM Angle.arcseconds?
  return List.replicate s.cycles {
    group := 0
    base := s.template
    atom := ⟨some ("q " ++ String.intercalate ", " offsets), .science, s.cycle⟩ }

theorem atoms?_eq (s : NodPlan) : s.atoms? = some s.atoms := by
  rw [atoms?, mapM_eq_some_map fun q _ => q.arcseconds?_eq]
  rfl

end NodPlan

/-! ## Plans of all kinds -/

namespace SciencePlan

def InWords : SciencePlan → Prop
  | longSlit s => s.InWords
  | imaging s => s.InWords
  | nod s => s.InWords

def atomCount? : SciencePlan → Option ℕ
  | longSlit s => s.atomCount?
  | imaging s => s.atomCount?
  | nod s => some s.cycles

/-- The number of exposures, its product stopped at the greatest word. -/
def stoppedExposureCount : SciencePlan → ℕ
  | longSlit s => s.exposureCount
  | imaging s => Word.stoppedMul s.filters.length s.exposureCount
  | nod s => Word.stoppedMul s.cycles s.offsets.length

def groupCount? : SciencePlan → Option ℕ
  | longSlit s => s.groupCount?
  | imaging s => s.groupCount?
  | nod s => some (min s.cycles 1)

def atoms? : SciencePlan → Option (List PlannedAtom)
  | longSlit s => s.atoms?
  | imaging s => s.atoms?
  | nod s => s.atoms?

namespace InWords

variable {s : SciencePlan}

theorem atomCount?_eq (h : s.InWords) : s.atomCount? = some s.atomCount := by
  cases s with
  | longSlit s => exact LongSlitPlan.InWords.atomCount?_eq h
  | imaging s => exact ImagingPlan.InWords.atomCount?_eq h
  | nod s => rfl

theorem stoppedExposureCount_eq (h : s.InWords) : s.stoppedExposureCount = s.exposureCount := by
  cases s with
  | longSlit s => rfl
  | imaging s =>
    have hplan : s.InWords := h
    exact Word.stoppedMul_eq (Word.mul_lt hplan.filters hplan.exposureCount)
  | nod s =>
    have hplan : s.InWords := h
    exact Word.stoppedMul_eq (Word.mul_lt hplan.cycles hplan.offsets)

theorem groupCount?_eq (h : s.InWords) : s.groupCount? = some s.groupCount := by
  cases s with
  | longSlit s => exact LongSlitPlan.InWords.groupCount?_eq h
  | imaging s => exact ImagingPlan.InWords.groupCount?_eq h
  | nod s => rfl

theorem atoms?_eq (h : s.InWords) : s.atoms? = some s.atoms := by
  cases s with
  | longSlit s => exact LongSlitPlan.InWords.atoms?_eq h
  | imaging s => exact ImagingPlan.InWords.atoms?_eq h
  | nod s => exact s.atoms?_eq

/-- Atoms and runs together are counted in a word. -/
theorem atomCount_add_groupCount_lt (h : s.InWords) : s.atomCount + s.groupCount < 2 ^ 64 := by
  cases s with
  | longSlit s =>
    have hcount : s.exposureCount < 2 ^ 32 := LongSlitPlan.InWords.exposureCount h
    have hatoms : s.atomCount ≤ s.exposureCount := ceilDiv_le _ _
    have hgroups : s.groupCount ≤ s.atomCount := by
      rw [LongSlitPlan.groupCount]
      split
      · exact Nat.min_le_left _ _
      · exact Nat.le_refl _
    show s.atomCount + s.groupCount < 2 ^ 64
    omega
  | imaging s =>
    have hatoms := ImagingPlan.InWords.atomCount_le h
    have hfilters : s.filters.length < 2 ^ 32 := ImagingPlan.InWords.filters h
    have hgroups : s.groupCount ≤ s.filters.length := Nat.min_le_left _ _
    show s.atomCount + s.groupCount < 2 ^ 64
    omega
  | nod s =>
    have hcycles : s.cycles < 2 ^ 32 := NodPlan.InWords.cycles h
    show s.cycles + min s.cycles 1 < 2 ^ 64
    omega

end InWords
end SciencePlan

/-! ## What an observer may ask for -/

/-- The lists of a mode have less than `2 ^ 32` entries; they may also be empty. -/
def ObservingMode.ShortLists : ObservingMode → Prop
  | gmosNorthLongSlit m | gmosSouthLongSlit m =>
    (m.dithers.getD []).length < 2 ^ 32 ∧ (m.offsets.getD []).length < 2 ^ 32
  | gmosNorthImaging m | gmosSouthImaging m =>
    m.filters.length < 2 ^ 32 ∧ (m.offsets.getD []).length < 2 ^ 32
  | flamingos2LongSlit m => (m.offsets.getD []).length < 2 ^ 32

theorem length_chosenOr_lt {α : Type} {chosen : Option (List α)} {standard : List α} {n : ℕ}
    (hchosen : (chosen.getD []).length < n) (hstandard : standard.length < n) :
    (chosenOr chosen standard).length < n := by
  rcases chosen with _ | _ | ⟨a, l⟩
  · exact hstandard
  · exact hstandard
  · exact hchosen

namespace Cycle

variable {α : Type} [DecidableEq α]

theorem collapse_sublist (l : List α) : (collapse l).Sublist l := by
  fun_induction collapse l with
  | case1 => exact List.Sublist.refl _
  | case2 => exact List.Sublist.refl _
  | case3 a l ih => exact ih.cons a
  | case4 a b l _ ih => exact ih.cons_cons a

theorem unwrap_sublist (l : List α) : (unwrap l).Sublist l := by
  cases l with
  | nil => exact List.Sublist.refl _
  | cons a l =>
    have hrest := (List.dropWhile_sublist (fun x => decide (x = a)) (l := l.reverse)).reverse
    rw [List.reverse_reverse] at hrest
    exact hrest.cons_cons a

theorem reduce_sublist (l : List α) : (reduce l).Sublist l :=
  (List.take_sublist _ _).trans ((unwrap_sublist _).trans (collapse_sublist l))

end Cycle

/-! ## Specifications -/

namespace Specification

def standardDither? (g : Gmos.Grating) : Option ℕ := do
  let picometers ← Word.signed? (g.dispersion * 67)
  let raised ← Word.signed? (picometers + 999)
  return max 5 (← Word.div? raised 1000)

def gmosLongSlitPlan? (instrument : Instrument) (mode : GmosLongSlit) (times : IntegrationTimes)
    (rules : CalibrationRules) : Option LongSlitPlan := do
  let delta := Dither.ofNanometers (← standardDither? mode.grating)
  let offsets ← Cycle.reduce? (chosenOr mode.offsets [0, .ofArcseconds 15])
  return { gmosLongSlitPlan instrument mode times rules with
    dithers := chosenOr mode.dithers [0, delta, delta.opposite]
    offsets }

def flamingosPlan? (mode : FlamingosLongSlit) (times : IntegrationTimes)
    (rules : CalibrationRules) : Option NodPlan := do
  let plan := flamingosPlan mode times rules
  let cycles ← Word.half? (← Word.ceilDiv? times.science.exposureCount plan.offsets.length)
  return { plan with cycles }

/-- The specification of a mode. -/
def ofMode? (observation : String) (role : Option CalibrationRole) (times : IntegrationTimes)
    (mode : ObservingMode) : Option Specification := do
  let s := ofMode observation role times mode
  match mode with
  | .gmosNorthLongSlit m | .gmosSouthLongSlit m =>
    -- the acquisition has the filter of the whole nanometers
    let _ ← Word.div? m.centralWavelength.picometers 1000
    return { s with science := .longSlit (← gmosLongSlitPlan? s.instrument m times s.rules) }
  | .gmosNorthImaging _ | .gmosSouthImaging _ => return s
  | .flamingos2LongSlit m => return { s with science := .nod (← flamingosPlan? m times s.rules) }

def projectedAtoms? (s : Specification) : Option ℕ := do
  let calibrations ← if s.rules.arcsAndFlats.isSome then s.science.groupCount? else some 0
  return max (Word.stoppedAdd (← s.science.atomCount?) calibrations) s.science.stoppedExposureCount

def scienceAtoms? (s : Specification) : Option (List ProtoAtom) := do
  return injectCalibrations s.rules.arcsAndFlats (← s.science.atoms?)

theorem standardDither?_eq (g : Gmos.Grating) : standardDither? g = some (standardDither g) := by
  cases g <;> rfl

theorem gmosLongSlitPlan?_eq (instrument : Instrument) (mode : GmosLongSlit)
    (times : IntegrationTimes) (rules : CalibrationRules) :
    gmosLongSlitPlan? instrument mode times rules =
      some (gmosLongSlitPlan instrument mode times rules) := by
  simp only [gmosLongSlitPlan?, standardDither?_eq, Cycle.reduce?_eq, Option.bind_eq_bind,
    Option.bind_some]
  rfl

variable {times : IntegrationTimes} {mode : ObservingMode}

theorem flamingosPlan?_eq (hcount : times.science.exposureCount < 2 ^ 32) (mode : FlamingosLongSlit)
    (rules : CalibrationRules) :
    flamingosPlan? mode times rules = some (flamingosPlan mode times rules) := by
  simp only [flamingosPlan?, Word.ceilDiv?_eq hcount,
    Word.half?_eq ((ceilDiv_le _ _).trans_lt hcount), Option.bind_eq_bind, Option.bind_some]
  rfl

theorem ofMode?_eq (hcount : times.science.exposureCount < 2 ^ 32) (observation : String)
    (role : Option CalibrationRole) (mode : ObservingMode) :
    ofMode? observation role times mode = some (ofMode observation role times mode) := by
  cases mode with
  | gmosNorthLongSlit m =>
    simp only [ofMode?, Word.div?_eq (show 0 < 1000 by decide), gmosLongSlitPlan?_eq,
      Option.bind_eq_bind, Option.bind_some]
    rfl
  | gmosSouthLongSlit m =>
    simp only [ofMode?, Word.div?_eq (show 0 < 1000 by decide), gmosLongSlitPlan?_eq,
      Option.bind_eq_bind, Option.bind_some]
    rfl
  | gmosNorthImaging m => rfl
  | gmosSouthImaging m => rfl
  | flamingos2LongSlit m =>
    simp only [ofMode?, flamingosPlan?_eq hcount, Option.bind_eq_bind, Option.bind_some]
    rfl

theorem inWords_gmosLongSlitPlan {m : GmosLongSlit} (hcounted : ∀ n ∈ m.exposuresPerAtom, n < 2 ^ 32)
    (hdithers : (m.dithers.getD []).length < 2 ^ 32) (hoffsets : (m.offsets.getD []).length < 2 ^ 32)
    (hcount : times.science.exposureCount < 2 ^ 32) (instrument : Instrument)
    (rules : CalibrationRules) : (gmosLongSlitPlan instrument m times rules).InWords where
  dithers := length_chosenOr_lt hdithers (show 3 < 2 ^ 32 by decide)
  offsets := ((Cycle.reduce_sublist _).length_le).trans_lt (length_chosenOr_lt hoffsets (by decide))
  exposureCount := hcount
  exposuresPerAtom := by
    rw [gmosLongSlitPlan]
    dsimp only
    split
    · next n hn => exact hcounted _ hn
    · decide
    · decide

theorem inWords_gmosImagingPlan {m : GmosImaging} (hfilters : m.filters.length < 2 ^ 32)
    (hoffsets : (m.offsets.getD []).length < 2 ^ 32) (hcount : times.science.exposureCount < 2 ^ 32)
    (instrument : Instrument) (rules : CalibrationRules) :
    (gmosImagingPlan instrument m times rules).InWords where
  filters := by
    rw [gmosImagingPlan, List.length_map]
    exact hfilters
  offsets := length_chosenOr_lt hoffsets (by decide)
  exposureCount := hcount

theorem inWords_ofMode (hcounted : mode.Counted) (hlists : mode.ShortLists)
    (hcount : times.science.exposureCount < 2 ^ 32) (observation : String)
    (role : Option CalibrationRole) : (ofMode observation role times mode).science.InWords := by
  cases mode with
  | gmosNorthLongSlit m =>
    exact inWords_gmosLongSlitPlan hcounted hlists.1 hlists.2 hcount _ _
  | gmosSouthLongSlit m =>
    exact inWords_gmosLongSlitPlan hcounted hlists.1 hlists.2 hcount _ _
  | gmosNorthImaging m => exact inWords_gmosImagingPlan hlists.1 hlists.2 hcount _ _
  | gmosSouthImaging m => exact inWords_gmosImagingPlan hlists.1 hlists.2 hcount _ _
  | flamingos2LongSlit m =>
    exact ⟨length_chosenOr_lt hlists (by decide), (ceilDiv_le _ _).trans_lt hcount⟩

theorem projectedAtoms?_eq {s : Specification} (h : s.science.InWords) :
    s.projectedAtoms? = some s.projectedAtoms := by
  have hsum := h.atomCount_add_groupCount_lt
  rw [projectedAtoms?, h.atomCount?_eq, h.groupCount?_eq, h.stoppedExposureCount_eq, projectedAtoms]
  split
  · show some (max (Word.stoppedAdd s.science.atomCount s.science.groupCount) _) = _
    rw [Word.stoppedAdd_eq hsum]
  · show some (max (Word.stoppedAdd s.science.atomCount 0) _) = _
    rw [Word.stoppedAdd_eq (by omega)]

theorem scienceAtoms?_eq {s : Specification} (h : s.science.InWords) :
    s.scienceAtoms? = some s.scienceAtoms := by
  rw [scienceAtoms?, h.atoms?_eq]
  rfl

/-- Computing in words.  The exposures per atom have 32 bits in every mode that was read, zero included,
and so has the number of exposures.  If the lists have less than `2 ^ 32` entries, the specification, its
counts and all its atoms come out exactly, and no operation on the way leaves its range. -/
theorem exact_in_words (o : Observation) (calculator : Calculator) (request : IntegrationRequest)
    (times : IntegrationTimes) (hrequest : o.request = .ok request)
    (htimes : calculator request = .ok times) (hcounted : request.mode.Counted)
    (hlists : request.mode.ShortLists) (hcount : times.science.exposureCount < 2 ^ 32) :
    ∃ s, build o calculator = .ok s ∧ ofMode? o.id o.role times request.mode = some s ∧
      s.science.atomCount? = some s.science.atomCount ∧
      s.science.groupCount? = some s.science.groupCount ∧
      s.science.stoppedExposureCount = s.science.exposureCount ∧
      s.projectedAtoms? = some s.projectedAtoms ∧
      s.science.atoms? = some s.science.atoms ∧
      s.scienceAtoms? = some s.scienceAtoms := by
  have hplan := inWords_ofMode hcounted hlists hcount o.id o.role
  exact ⟨_, build_eq_ok_iff.2 ⟨request, times, hrequest, htimes, rfl⟩, ofMode?_eq hcount _ _ _, hplan.atomCount?_eq,
    hplan.groupCount?_eq, hplan.stoppedExposureCount_eq, projectedAtoms?_eq hplan, hplan.atoms?_eq,
    scienceAtoms?_eq hplan⟩

end Specification

namespace Slit

/-- The slit sample with an empty list of dithers and no exposures for an atom. -/
def emptied : ObservingMode :=
  .gmosNorthLongSlit
    ⟨.b1200, none, .width100, .ofNanometers 500, ⟨none, none, none, none, none⟩, some [], none, some 0⟩

end Slit

/-- The greatest number of exposures is planned in words, in atoms of the standard size. -/
theorem Specification.exact_in_words_emptied : ∃ s,
    build (Slit.inMode Slit.emptied (2 ^ 32 - 1)) (Slit.calculator (2 ^ 32 - 1)) = .ok s ∧
    s.science.atomCount? = some 1431655765 ∧ s.projectedAtoms? = some 4294967295 ∧
    s.scienceAtoms? = some s.scienceAtoms := by
  obtain ⟨s, hs, -, hatoms, -, -, hprojected, -, hall⟩ := exact_in_words
    (Slit.inMode Slit.emptied (2 ^ 32 - 1)) (Slit.calculator (2 ^ 32 - 1)) _ _ rfl rfl
    (fun n hn => by cases hn; decide) ⟨by decide, by decide⟩ (by decide)
  obtain rfl : s = ofMode "o" none (Slit.times (2 ^ 32 - 1)) Slit.emptied :=
    Except.ok.inj (hs.symm.trans rfl)
  refine ⟨_, hs, ?_, ?_, hall⟩
  · rw [hatoms]
    decide +kernel
  · rw [hprojected]
    decide +kernel

end Observing
