import Mathlib.Algebra.Order.Floor.Div
import Observing.Proofs.CyclicWalk
import Observing.Proofs.Projection

/-!
# Passes over the offsets

Imaging and nodding go over the list of offsets in passes, an atom for each.  Imaging stops when the
exposures of a filter are made, be it in the middle of a pass, and nodding never does, so that there it
is the number of exposures that is rounded up.

* `Cycle.getElem?_passes`          passes one after another are a walk through the list;
* `ImagingPlan.Delivers`           atoms that make the exposures of one filter;
* `ImagingPlan.delivers_filterAtoms`   those of a plan do;
* `NodPlan.Delivers`               atoms that are full passes, enough for a number of exposures;
* `Specification.passes_exact`     the exposures of both kinds of plan, as they were asked for.
-/

namespace Observing

/-! ## Passes and walks -/

theorem ceilDiv_eq (n d : ℕ) : ceilDiv n d = n ⌈/⌉ d := by
  rw [Nat.ceilDiv_eq_add_pred_div, ceilDiv]
  split
  · next hzero => rw [hzero, Nat.div_zero]
  · rfl

/-- As many passes as are begun come to the least multiple of the length of a pass. -/
theorem isLeast_ceilDiv_mul {n d : ℕ} (hd : 0 < d) :
    IsLeast {k | d ∣ k ∧ n ≤ k} (ceilDiv n d * d) := by
  refine ⟨⟨Nat.dvd_mul_left _ _, le_ceilDiv_mul hd⟩, ?_⟩
  rintro k ⟨⟨m, rfl⟩, hk⟩
  have hm : ceilDiv n d ≤ m := by
    rw [ceilDiv_eq, ceilDiv_le_iff_le_mul hd]
    exact hk
  rw [Nat.mul_comm d m]
  exact Nat.mul_le_mul_right d hm

namespace Cycle

variable {α : Type} {l : List α}

/-- The first passes over a list, the last of them as far as `n` values are not reached. -/
def passes (l : List α) (n m : ℕ) : List α :=
  (List.range m).flatMap fun k => l.take (n - k * l.length)

theorem passes_succ (l : List α) (n m : ℕ) :
    passes l n (m + 1) = passes l n m ++ l.take (n - m * l.length) := by
  rw [passes, List.range_succ, List.flatMap_append, List.flatMap_singleton]
  rfl

theorem length_passes (l : List α) (n m : ℕ) :
    (passes l n m).length = min (m * l.length) n := by
  induction m with
  | zero => simp [passes]
  | succ m ih =>
    rw [passes_succ, List.length_append, ih, List.length_take, Nat.succ_mul]
    omega

/-- Passes one after another are a walk through the list. -/
theorem getElem?_passes {n m i : ℕ} (hi : i < min (m * l.length) n) :
    (passes l n m)[i]? = walk l i := by
  induction m with
  | zero => simp at hi
  | succ m ih =>
    rw [passes_succ, List.getElem?_append, length_passes]
    split
    · next hlt => exact ih hlt
    · next hge =>
      -- the value is one of the last pass, and all passes in front of that are full
      rw [Nat.succ_mul] at hi
      have hfull : min (m * l.length) n = m * l.length := by omega
      have hlast : i - m * l.length < l.length := by omega
      have hsplit : i = l.length * m + (i - m * l.length) := by
        rw [Nat.mul_comm]
        omega
      rw [hfull, List.getElem?_take_of_lt (by omega), ← walk_of_lt hlast, hsplit, walk_add,
        Nat.mul_comm l.length m, Nat.add_sub_cancel_left]

end Cycle

/-! ## Imaging -/

/-- The filter of a configuration, if it is one of GMOS and has any. -/
def InstrumentConfig.gmosFilter? : InstrumentConfig → Option Gmos.Filter
  | .gmosNorth c | .gmosSouth c => c.filter
  | .flamingos2 _ => none

namespace ImagingPlan

/-- An exposure at an offset. -/
def exposure (s : ImagingPlan) (config : InstrumentConfig) (o : Offset) : ProtoStep :=
  ⟨config, .onSky o, s.observeClass, .disabled⟩

/-- Atoms make the exposures of a filter: as many as the plan has, at one offset of the list after the
other, in an atom for each pass. -/
structure Delivers (s : ImagingPlan) (f : Gmos.Filter × InstrumentConfig) (atoms : List ProtoAtom) :
    Prop where
  length : atoms.length = s.exposureCount ⌈/⌉ s.offsets.length
  kind : ∀ a ∈ atoms, a.kind = .science ∧ a.description = some f.1.text
  exposures : (atoms.flatMap (·.steps)).length = s.exposureCount
  exposed : ∀ n < s.exposureCount, ∃ o, s.offsets[n % s.offsets.length]? = some o ∧
    (atoms.flatMap (·.steps))[n]? = some (s.exposure f.2 o)
  full : ∀ k a, atoms[k]? = some a → k + 1 < atoms.length → a.steps.length = s.offsets.length

variable {s : ImagingPlan}

theorem steps_filterAtoms (s : ImagingPlan) (f : (Gmos.Filter × InstrumentConfig) × ℕ) :
    ((s.filterAtoms f).map (·.atom)).flatMap (·.steps) =
      (Cycle.passes s.offsets s.exposureCount s.passes).map (s.exposure f.1.2) := by
  rw [filterAtoms, List.flatMap_map, List.flatMap_map, Cycle.passes, List.map_flatMap]
  rfl

theorem min_passes (h : s.offsets ≠ []) :
    min (s.passes * s.offsets.length) s.exposureCount = s.exposureCount :=
  Nat.min_eq_right (le_ceilDiv_mul (List.length_pos_iff.2 h))

/-- The atoms of a filter make its exposures. -/
theorem delivers_filterAtoms (h : s.offsets ≠ []) (f : (Gmos.Filter × InstrumentConfig) × ℕ) :
    s.Delivers f.1 ((s.filterAtoms f).map (·.atom)) where
  length := by
    rw [List.length_map, filterAtoms, List.length_map, List.length_range]
    exact ceilDiv_eq _ _
  kind := by
    intro a ha
    obtain ⟨b, hb, rfl⟩ := List.mem_map.1 ha
    obtain ⟨pass, -, rfl⟩ := List.mem_map.1 hb
    exact ⟨rfl, rfl⟩
  exposures := by
    rw [steps_filterAtoms, List.length_map, Cycle.length_passes, min_passes h]
  exposed := by
    intro n hn
    have hlt : n % s.offsets.length < s.offsets.length := Nat.mod_lt n (List.length_pos_iff.2 h)
    refine ⟨s.offsets[n % s.offsets.length], List.getElem?_eq_getElem hlt, ?_⟩
    rw [steps_filterAtoms, List.getElem?_map, Cycle.getElem?_passes ((min_passes h).symm ▸ hn),
      Cycle.walk, List.getElem?_eq_getElem hlt]
    rfl
  full := by
    intro k a ha hk
    rw [List.length_map, filterAtoms, List.length_map, List.length_range, passes,
      lt_ceilDiv (List.length_pos_iff.2 h), Nat.succ_mul] at hk
    rw [filterAtoms, List.map_map, List.getElem?_map, Option.map_eq_some_iff] at ha
    obtain ⟨pass, hpass, rfl⟩ := ha
    obtain rfl : pass = k := by
      obtain ⟨hlt, hget⟩ := List.getElem?_eq_some_iff.1 hpass
      rw [← hget, List.getElem_range]
    show ((s.offsets.take (s.exposureCount - pass * s.offsets.length)).map _).length = _
    rw [List.length_map, List.length_take]
    omega

/-- The atoms of a plan are those of its filters, one after the other. -/
theorem delivers_atoms (h : s.offsets ≠ []) :
    ∃ blocks, s.atoms.map (·.atom) = blocks.flatten ∧ List.Forall₂ s.Delivers s.filters blocks := by
  refine ⟨s.filters.zipIdx.map fun f => (s.filterAtoms f).map (·.atom), ?_, ?_⟩
  · rw [atoms, List.map_flatMap, List.flatMap_def]
  · have hfst : s.filters.zipIdx.map Prod.fst = s.filters := List.zipIdx_map_fst 0 _
    nth_rewrite 1 [← hfst]
    rw [List.forall₂_map_left_iff, List.forall₂_map_right_iff, List.forall₂_same]
    exact fun f _ => delivers_filterAtoms h f

end ImagingPlan

/-! ## Nodding -/

namespace NodPlan

/-- Science atoms are full passes over the offsets, all of them alike, and just enough for a number of
exposures. -/
structure Delivers (s : NodPlan) (n : ℕ) (atoms : List ProtoAtom) : Prop where
  cycles : ∃ a : ProtoAtom, atoms = List.replicate (n ⌈/⌉ s.offsets.length) a ∧ a.kind = .science ∧
    a.steps = s.offsets.map fun q =>
      ⟨s.template, .onSky (.alongSlit q), s.observeClass, .disabled⟩
  exposures : IsLeast {k | s.offsets.length ∣ k ∧ n ≤ k} (atoms.flatMap (·.steps)).length

theorem delivers_atoms {s : NodPlan} {n : ℕ} (h : s.offsets ≠ [])
    (hcycles : s.cycles = ceilDiv n s.offsets.length) : s.Delivers n (s.atoms.map (·.atom)) where
  cycles := by
    refine ⟨s.cycleAtom.atom, ?_, rfl, rfl⟩
    rw [atoms, List.map_replicate, hcycles, ceilDiv_eq]
  exposures := by
    rw [List.flatMap_map, length_steps_atoms, hcycles]
    exact isLeast_ceilDiv_mul (List.length_pos_iff.2 h)

end NodPlan

/-! ## Specifications -/

namespace Specification

/-- The specification of an imaging mode, whatever the site. -/
theorem imaging_ofMode (observation : String) (role : Option CalibrationRole)
    (times : IntegrationTimes) {mode : ObservingMode} {m : GmosImaging}
    (hmode : mode = .gmosNorthImaging m ∨ mode = .gmosSouthImaging m) :
    ∃ instrument, (ofMode observation role times mode).science =
        .imaging (gmosImagingPlan instrument m times (.imaging role)) ∧
      (ofMode observation role times mode).rules.arcsAndFlats = none := by
  rcases hmode with rfl | rfl
  · exact ⟨.gmosNorth, rfl, rfl⟩
  · exact ⟨.gmosSouth, rfl, rfl⟩

theorem gmosFilter?_gmosConfig (instrument : Instrument) (c : Gmos.Config) :
    (gmosConfig instrument c).gmosFilter? = c.filter := by
  cases instrument <;> rfl

/-- The filters of an imaging plan are those of the mode, each with a configuration that has it. -/
theorem filters_gmosImagingPlan (instrument : Instrument) (m : GmosImaging) (times : IntegrationTimes)
    (rules : CalibrationRules) : List.Forall₂ (fun f x => x.1 = f ∧ x.2.gmosFilter? = some f)
      m.filters (gmosImagingPlan instrument m times rules).filters := by
  rw [gmosImagingPlan, List.forall₂_map_right_iff, List.forall₂_same]
  exact fun f _ => ⟨rfl, gmosFilter?_gmosConfig _ _⟩

/-- The exposures of imaging and of nodding, as they were asked for.  Imaging goes through the filters
of the mode in their order and makes the exposures of each, at one offset after the other: an atom for
each pass over the offsets, all but the last of a filter full.  Nodding makes full passes over the
offsets as they were given, as few as have enough exposures. -/
theorem passes_exact (o : Observation) (calculator : Calculator) (request : IntegrationRequest)
    (times : IntegrationTimes) (hrequest : o.request = .ok request)
    (htimes : calculator request = .ok times) : ∃ s, build o calculator = .ok s ∧
    (∀ m, request.mode = .gmosNorthImaging m ∨ request.mode = .gmosSouthImaging m →
      ∃ p, s.science = .imaging p ∧ p.exposureCount = times.science.exposureCount ∧
        p.offsets = chosenOr m.offsets [0] ∧
        List.Forall₂ (fun f x => x.1 = f ∧ x.2.gmosFilter? = some f) m.filters p.filters ∧
        ∃ blocks, s.scienceAtoms = blocks.flatten ∧ List.Forall₂ p.Delivers p.filters blocks) ∧
    (∀ m, request.mode = .flamingos2LongSlit m →
      ∃ p, s.science = .nod p ∧
        p.offsets = chosenOr m.offsets ([15, -15, -15, 15].map Angle.ofArcseconds) ∧
        p.Delivers times.science.exposureCount (s.scienceAtoms.filter (·.kind = .science))) := by
  have hbuild : build o calculator = .ok (ofMode o.id o.role times request.mode) := by
    rw [build, hrequest]
    dsimp only
    rw [htimes]
  refine ⟨_, hbuild, fun m hmode => ?_, fun m hmode => ?_⟩
  · obtain ⟨instrument, hscience, hrules⟩ := imaging_ofMode o.id o.role times hmode
    have hoffsets : (gmosImagingPlan instrument m times (.imaging o.role)).offsets ≠ [] :=
      chosenOr_ne_nil (List.cons_ne_nil _ _) m.offsets
    refine ⟨_, hscience, rfl, rfl, filters_gmosImagingPlan _ _ _ _, ?_⟩
    rw [scienceAtoms, hrules, inject_none, hscience]
    exact ImagingPlan.delivers_atoms hoffsets
  · rw [hmode]
    have hoffsets : (flamingosPlan m times (.longSlit .flamingos2 o.role)).offsets ≠ [] :=
      chosenOr_ne_nil (by simp) m.offsets
    refine ⟨_, rfl, rfl, ?_⟩
    rw [filter_scienceAtoms]
    exact NodPlan.delivers_atoms hoffsets rfl

end Specification

/-! ## Passes that are not finished -/

namespace Slit

/-- One filter twice, over three offsets. -/
def images : GmosImaging where
  filters := [.rPrime, .rPrime]
  choices := ⟨none, none, none, none, none⟩
  offsets := some [0, .alongSlit (.ofArcseconds 10), .alongSlit (.ofArcseconds (-10))]

/-- Nodding over the standard offsets. -/
def nods : FlamingosLongSlit := ⟨.r1200jh, .h, .width2, none, none⟩

/-- The observation in another mode. -/
def inMode (mode : ObservingMode) (exposures : Nat) : Observation :=
  { observation exposures ⟨[]⟩ with mode := some mode }

end Slit

/-- Seven exposures over three offsets make two full passes and one exposure more, for each of the two
filters although they are the same.  Six exposures over four offsets make two full passes. -/
theorem Specification.passes_exact_unfinished :
    (∃ s p, ∃ blocks : List (List ProtoAtom),
      build (Slit.inMode (.gmosNorthImaging Slit.images) 7) (Slit.calculator 7) = .ok s ∧
      s.science = .imaging p ∧ p.exposureCount = 7 ∧ p.offsets.length = 3 ∧ blocks.length = 2 ∧
      s.scienceAtoms = blocks.flatten ∧ ∀ atoms ∈ blocks, atoms.length = 3) ∧
    ∃ s p, build (Slit.inMode (.flamingos2LongSlit Slit.nods) 6) (Slit.calculator 6) = .ok s ∧
      s.science = .nod p ∧ p.offsets.length = 4 ∧
      ((s.scienceAtoms.filter (·.kind = .science)).flatMap (·.steps)).length = 8 := by
  constructor
  · obtain ⟨s, hs, himaging, -⟩ := passes_exact (Slit.inMode (.gmosNorthImaging Slit.images) 7)
      (Slit.calculator 7) _ _ rfl rfl
    obtain ⟨p, hp, hcount, hoffsets, hfilters, blocks, hblocks, hdelivers⟩ :=
      himaging Slit.images (.inl rfl)
    have hthree : p.offsets.length = 3 := by rw [hoffsets]; rfl
    have hlength : blocks.length = 2 := hdelivers.length_eq.symm.trans hfilters.length_eq.symm
    refine ⟨s, p, blocks, hs, hp, hcount, hthree, hlength, hblocks, fun atoms hatoms => ?_⟩
    obtain ⟨i, hi, rfl⟩ := List.getElem_of_mem hatoms
    have hpasses := (hdelivers.get (hdelivers.length_eq ▸ hi) hi).length
    rw [hcount, hthree] at hpasses
    exact hpasses
  · obtain ⟨s, hs, -, hnod⟩ := passes_exact (Slit.inMode (.flamingos2LongSlit Slit.nods) 6)
      (Slit.calculator 6) _ _ rfl rfl
    obtain ⟨p, hp, hoffsets, hdelivers⟩ := hnod Slit.nods rfl
    have hfour : p.offsets.length = 4 := by rw [hoffsets]; rfl
    refine ⟨s, p, hs, hp, hfour, ?_⟩
    have hleast := hdelivers.exposures
    rw [hfour] at hleast
    exact hleast.unique ⟨⟨by decide, by decide⟩, fun k hk => by
      obtain ⟨⟨m, rfl⟩, hle⟩ := hk
      have hle : 6 ≤ 4 * m := hle
      omega⟩

end Observing
