import Mathlib.Data.List.SplitBy
import Observing.Engine

/-!
# Calibrations match what they calibrate

A calibration is put in front of every run of science atoms of one group, from the group numbers
alone.  Atoms of one group have one configuration, whatever the dithers and offsets are, so that the
lamps are exposed with the configuration of every science step behind them.

* `PlannedAtom.runs`           the runs of atoms of one group;
* `InstrumentConfig.ExposedFor`  a configuration is that of another exposure, but for the time;
* `ArcAndFlat.Calibrates`      an atom exposes both lamps with the configurations of another;
* `PlannedAtom.Regular`        science atoms whose steps have the configuration of their group;
* `injectAfter_none`           one calibration stands in front of each run, and none elsewhere;
* `exists_calibration`         the calibration in front of an atom matches it;
* `Specification.scienceAtoms_calibrated`   the same for the plan of a specification.
-/

namespace Observing

/-! ## Runs -/

/-- The longest runs of atoms of one group. -/
def PlannedAtom.runs (science : List PlannedAtom) : List (List PlannedAtom) :=
  science.splitBy fun a b => a.group = b.group

namespace ArcAndFlat

variable {c : ArcAndFlat}

/-- A run of atoms with the calibration in front of it. -/
def calibrated (c : ArcAndFlat) : List PlannedAtom → List ProtoAtom
  | [] => []
  | a :: rest => c.atom a.base :: (a :: rest).map (·.atom)

theorem injectAfter_same {k : Nat} {run : List PlannedAtom} (h : ∀ a ∈ run, a.group = k)
    (rest : List PlannedAtom) : c.injectAfter (some k) (run ++ rest) =
      run.map (·.atom) ++ c.injectAfter (some k) rest := by
  induction run with
  | nil => rfl
  | cons a run ih =>
    have hk : a.group = k := h a List.mem_cons_self
    rw [List.cons_append, injectAfter, hk, if_pos rfl, ih fun b hb => h b (List.mem_cons_of_mem a hb)]
    rfl

theorem injectAfter_other {k : Nat} {rest : List PlannedAtom}
    (h : ∀ a ∈ rest.head?, a.group ≠ k) : c.injectAfter (some k) rest = c.injectAfter none rest := by
  cases rest with
  | nil => rfl
  | cons a rest =>
    have hk : a.group ≠ k := h a rfl
    rw [injectAfter, injectAfter, if_neg fun he => hk (Option.some.inj he).symm, if_neg nofun]

/-- Runs one after another, of which each is of another group than the one behind it. -/
theorem injectAfter_flatten {runs : List (List PlannedAtom)} (hne : [] ∉ runs)
    (hsame : ∀ run ∈ runs, ∀ a ∈ run, ∀ b ∈ run, a.group = b.group)
    (hother : runs.IsChain fun run next => ∃ hrun hnext,
      (run.getLast hrun).group ≠ (next.head hnext).group) :
    c.injectAfter none runs.flatten = runs.flatMap c.calibrated := by
  induction runs with
  | nil => rfl
  | cons run runs ih =>
    rw [List.mem_cons, not_or] at hne
    have hrest := ih hne.2 (fun r hr => hsame r (List.mem_cons_of_mem run hr)) hother.tail
    cases run with
    | nil => exact absurd rfl hne.1
    | cons a rest =>
      have hrun : ∀ b ∈ rest, b.group = a.group := fun b hb =>
        hsame _ List.mem_cons_self b (List.mem_cons_of_mem a hb) a List.mem_cons_self
      have hnext : ∀ b ∈ runs.flatten.head?, b.group ≠ a.group := by
        cases runs with
        | nil => exact fun b hb => nomatch hb
        | cons next runs =>
          obtain ⟨hlast, hhead, hgroup⟩ := (List.isChain_cons_cons.1 hother).1
          have ha := hsame _ List.mem_cons_self a List.mem_cons_self _ (List.getLast_mem hlast)
          cases next with
          | nil => exact absurd rfl hhead
          | cons d _ =>
            rintro b ⟨⟩
            exact fun hb => hgroup (ha.symm.trans hb.symm)
      rw [List.flatten_cons, List.flatMap_cons, ← hrest, List.cons_append, injectAfter, if_neg nofun,
        injectAfter_same hrun, injectAfter_other hnext]
      rfl

end ArcAndFlat

namespace PlannedAtom

variable {science : List PlannedAtom}

theorem flatten_runs (science : List PlannedAtom) : (runs science).flatten = science :=
  List.flatten_splitBy _ _

theorem mem_of_mem_runs {run : List PlannedAtom} (h : run ∈ runs science) {a : PlannedAtom}
    (ha : a ∈ run) : a ∈ science := by
  rw [← flatten_runs science]
  exact List.mem_flatten_of_mem h ha

theorem nil_notMem_runs (science : List PlannedAtom) : [] ∉ runs science :=
  List.nil_notMem_splitBy _ _

theorem group_of_mem_runs {run : List PlannedAtom} (h : run ∈ runs science) :
    ∀ a ∈ run, ∀ b ∈ run, a.group = b.group := by
  have htrans : IsTrans PlannedAtom fun a b => a.group = b.group := ⟨fun _ _ _ => Eq.trans⟩
  have hsymm : Std.Symm fun a b : PlannedAtom => a.group = b.group := ⟨fun _ _ => Eq.symm⟩
  have hchain : run.IsChain fun a b => a.group = b.group :=
    (List.isChain_of_mem_splitBy h).imp fun a b hab => of_decide_eq_true hab
  have hpairs : run.Pairwise fun a b => a.group = b.group := List.isChain_iff_pairwise.1 hchain
  exact fun a ha b hb =>
    hpairs.forall_of_forall (R := fun a b => a.group = b.group) (fun _ _ => rfl) ha hb

theorem isChain_runs (science : List PlannedAtom) : (runs science).IsChain
    fun run next => ∃ hrun hnext, (run.getLast hrun).group ≠ (next.head hnext).group :=
  (List.isChain_getLast_head_splitBy _ _).imp fun _ _ ⟨hrun, hnext, h⟩ =>
    ⟨hrun, hnext, of_decide_eq_false h⟩

end PlannedAtom

/-- One calibration stands in front of each run of atoms of one group, and none anywhere else. -/
theorem ArcAndFlat.injectAfter_none (c : ArcAndFlat) (science : List PlannedAtom) :
    c.injectAfter none science = (PlannedAtom.runs science).flatMap c.calibrated := by
  have hinject := c.injectAfter_flatten (PlannedAtom.nil_notMem_runs science)
    (fun _ hrun => PlannedAtom.group_of_mem_runs hrun) (PlannedAtom.isChain_runs science)
  rwa [PlannedAtom.flatten_runs] at hinject

/-! ## The calibration of an atom -/

/-- A configuration of GMOS is that of another exposure, which takes the given time. -/
structure Gmos.Config.ExposedFor (base : Gmos.Config) (t : TimeSpan) (c : Gmos.Config) : Prop where
  exposure : c.exposure = t
  readout : c.readout = base.readout
  region : c.region = base.region
  grating : c.grating = base.grating
  filter : c.filter = base.filter
  slit : c.slit = base.slit

/-- A configuration of Flamingos 2 is that of another exposure, which takes the given time: the read
mode goes with that. -/
structure Flamingos.Config.ExposedFor (base : Flamingos.Config) (t : TimeSpan) (c : Flamingos.Config) :
    Prop where
  exposure : c.exposure = t
  readMode : c.readMode = .ofExposure t
  disperser : c.disperser = base.disperser
  filter : c.filter = base.filter
  slit : c.slit = base.slit

namespace InstrumentConfig

/-- A configuration is that of another exposure with the same instrument, which takes the given time. -/
def ExposedFor (base : InstrumentConfig) (t : TimeSpan) (c : InstrumentConfig) : Prop :=
  match base, c with
  | gmosNorth base, gmosNorth c => base.ExposedFor t c
  | gmosSouth base, gmosSouth c => base.ExposedFor t c
  | flamingos2 base, flamingos2 c => base.ExposedFor t c
  | _, _ => False

theorem exposedFor_withExposure (base : InstrumentConfig) (t : TimeSpan) :
    base.ExposedFor t (base.withExposure t) := by
  cases base with
  | gmosNorth g => exact ⟨rfl, rfl, rfl, rfl, rfl, rfl⟩
  | gmosSouth g => exact ⟨rfl, rfl, rfl, rfl, rfl, rfl⟩
  | flamingos2 f => exact ⟨rfl, rfl, rfl, rfl, rfl⟩

end InstrumentConfig

/-- An atom calibrates another: it exposes both lamps, with the configuration of each step of the other
in which the exposure time is replaced, and what goes with it. -/
structure ArcAndFlat.Calibrates (c : ArcAndFlat) (calibration a : ProtoAtom) : Prop where
  kind : calibration.kind = .calibration
  lamps : calibration.steps.map (·.stepConfig) = [.gcal c.arc.gcal, .gcal c.flat.gcal]
  configs : ∀ p ∈ a.steps, List.Forall₂
    (fun lamp x => p.instrumentConfig.ExposedFor lamp.exposure x.instrumentConfig)
    [c.arc, c.flat] calibration.steps

/-- Science atoms whose steps have the configuration of their group. -/
structure PlannedAtom.Regular (science : List PlannedAtom) : Prop where
  kind : ∀ a ∈ science, a.atom.kind = .science
  config : ∀ a ∈ science, ∀ p ∈ a.atom.steps, p.instrumentConfig = a.base
  group : ∀ a ∈ science, ∀ b ∈ science, a.group = b.group → a.base = b.base

namespace ArcAndFlat

variable {c : ArcAndFlat} {science : List PlannedAtom}

theorem filter_calibrated (h : ∀ a ∈ science, a.atom.kind = .science) :
    (c.calibrated science).filter (·.kind ≠ .calibration) = science.map (·.atom) := by
  have hkeep : (science.map (·.atom)).filter (·.kind ≠ .calibration) = science.map (·.atom) := by
    rw [List.filter_eq_self]
    intro p hp
    obtain ⟨a, ha, rfl⟩ := List.mem_map.1 hp
    rw [h a ha]
    rfl
  cases science with
  | nil => rfl
  | cons a rest =>
    rw [calibrated, List.filter_cons_of_neg (by simp [atom]), hkeep]

/-- Without the calibrations, the science atoms are what they were. -/
theorem filter_injectAfter (h : ∀ a ∈ science, a.atom.kind = .science) :
    (c.injectAfter none science).filter (·.kind ≠ .calibration) = science.map (·.atom) := by
  have hrun : ∀ run ∈ PlannedAtom.runs science,
      (c.calibrated run).filter (·.kind ≠ .calibration) = run.map (·.atom) :=
    fun run hrun => filter_calibrated fun a ha => h a (PlannedAtom.mem_of_mem_runs hrun ha)
  rw [injectAfter_none, List.filter_flatMap, List.flatMap_congr hrun, List.flatMap_def,
    ← List.map_flatten, PlannedAtom.flatten_runs]

/-- An atom among calibrated runs stands behind the calibration of its run, with nothing but atoms of
the run in between. -/
theorem exists_run {runs : List (List PlannedAtom)} {before behind : List ProtoAtom} {p : ProtoAtom}
    (h : runs.flatMap c.calibrated = before ++ p :: behind) (hp : p.kind ≠ .calibration) :
    ∃ run ∈ runs, ∃ a ∈ run, ∃ x ∈ run, ∃ front, ∃ between : List PlannedAtom,
      x.atom = p ∧ (∀ b ∈ between, b ∈ run) ∧
      before = front ++ c.atom a.base :: between.map (·.atom) := by
  induction runs generalizing before with
  | nil => simp at h
  | cons run runs ih =>
    rw [List.flatMap_cons] at h
    have hlater : ∀ rest, before = c.calibrated run ++ rest →
        runs.flatMap c.calibrated = rest ++ p :: behind →
        ∃ r ∈ run :: runs, ∃ a ∈ r, ∃ x ∈ r, ∃ front, ∃ between : List PlannedAtom,
          x.atom = p ∧ (∀ b ∈ between, b ∈ r) ∧
          before = front ++ c.atom a.base :: between.map (·.atom) := by
      intro rest hbefore hrest
      obtain ⟨r, hr, a, ha, x, hx, front, between, hxp, hbetween, rfl⟩ := ih hrest
      refine ⟨r, List.mem_cons_of_mem run hr, a, ha, x, hx, c.calibrated run ++ front, between, hxp,
        hbetween, ?_⟩
      rw [hbefore, List.append_assoc]
    rcases List.append_eq_append_iff.1 h with ⟨rest, hbefore, hrest⟩ | ⟨rest, hrun, hrest⟩
    · exact hlater rest hbefore hrest
    · cases rest with
      | nil =>
        rw [List.append_nil] at hrun
        exact hlater [] (by rw [hrun, List.append_nil]) hrest.symm
      | cons q rest =>
        obtain rfl : p = q := (List.cons.inj hrest).1
        cases run with
        | nil => simp [calibrated] at hrun
        | cons a others =>
          cases before with
          | nil => exact absurd (by rw [← (List.cons.inj hrun).1]; rfl) hp
          | cons d before =>
            obtain ⟨rfl, hatoms⟩ := List.cons.inj hrun
            obtain ⟨between, last, hsplit, rfl, hlast⟩ := List.map_eq_append_iff.1 hatoms
            obtain ⟨x, tail, rfl, hx, -⟩ := List.map_eq_cons_iff.1 hlast
            refine ⟨a :: others, List.mem_cons_self, a, List.mem_cons_self, x, ?_, [], between, hx, ?_,
              rfl⟩
            · rw [hsplit]
              exact List.mem_append_right _ List.mem_cons_self
            · intro b hb
              rw [hsplit]
              exact List.mem_append_left _ hb

/-- The last calibration in front of a science atom matches it. -/
theorem exists_calibration (hs : PlannedAtom.Regular science) {before behind : List ProtoAtom}
    {p : ProtoAtom} (h : c.injectAfter none science = before ++ p :: behind)
    (hp : p.kind = .science) : ∃ front calibration between,
      before = front ++ calibration :: between ∧ c.Calibrates calibration p ∧
        ∀ b ∈ between, b.kind = .science := by
  rw [injectAfter_none] at h
  obtain ⟨run, hrun, a, ha, x, hx, front, between, rfl, hbetween, rfl⟩ :=
    exists_run h (by rw [hp]; decide)
  have hmem : ∀ b ∈ run, b ∈ science := fun b hb => PlannedAtom.mem_of_mem_runs hrun hb
  have hbase : x.base = a.base :=
    hs.group x (hmem x hx) a (hmem a ha) (PlannedAtom.group_of_mem_runs hrun x hx a ha)
  refine ⟨front, c.atom a.base, between.map (·.atom), rfl, ⟨rfl, rfl, fun p hp => ?_⟩, ?_⟩
  · rw [hs.config x (hmem x hx) p hp, hbase]
    exact .cons (a.base.exposedFor_withExposure _) (.cons (a.base.exposedFor_withExposure _) .nil)
  · intro q hq
    obtain ⟨b, hb, rfl⟩ := List.mem_map.1 hq
    exact hs.kind b (hmem b (hbetween b hb))

end ArcAndFlat

/-! ## Plans -/

theorem LongSlitPlan.regular_atoms (s : LongSlitPlan) : PlannedAtom.Regular s.atoms := by
  refine ⟨?_, ?_, ?_⟩
  · intro a ha
    obtain ⟨j, -, rfl⟩ := List.mem_map.1 ha
    rfl
  · intro a ha p hp
    obtain ⟨j, -, rfl⟩ := List.mem_map.1 ha
    obtain ⟨i, -, rfl⟩ := List.mem_map.1 hp
    rfl
  · intro a ha b hb hab
    obtain ⟨i, -, rfl⟩ := List.mem_map.1 ha
    obtain ⟨j, -, rfl⟩ := List.mem_map.1 hb
    -- the dither is that of the group
    show s.template.dithered (s.adjustment (s.atom i).group).dither =
      s.template.dithered (s.adjustment (s.atom j).group).dither
    rw [hab]

theorem ImagingPlan.regular_atoms (s : ImagingPlan) : PlannedAtom.Regular s.atoms := by
  have hatom : ∀ a ∈ s.atoms, ∃ f ∈ s.filters.zipIdx, ∃ pass, a = s.passAtom f pass := by
    intro a ha
    obtain ⟨f, hf, ha⟩ := List.mem_flatMap.1 ha
    obtain ⟨pass, -, rfl⟩ := List.mem_map.1 ha
    exact ⟨f, hf, pass, rfl⟩
  refine ⟨?_, ?_, ?_⟩
  · intro a ha
    obtain ⟨f, -, pass, rfl⟩ := hatom a ha
    rfl
  · intro a ha p hp
    obtain ⟨f, -, pass, rfl⟩ := hatom a ha
    obtain ⟨o, -, rfl⟩ := List.mem_map.1 hp
    rfl
  · intro a ha b hb hab
    obtain ⟨⟨f, i⟩, hf, _, rfl⟩ := hatom a ha
    obtain ⟨⟨f', j⟩, hf', _, rfl⟩ := hatom b hb
    obtain rfl : i = j := hab
    -- the group is the index of the filter
    have hfilter : some f = some f' :=
      (List.mem_zipIdx_iff_getElem?.1 hf).symm.trans (List.mem_zipIdx_iff_getElem?.1 hf')
    exact congrArg Prod.snd (Option.some.inj hfilter)

theorem NodPlan.regular_atoms (s : NodPlan) : PlannedAtom.Regular s.atoms := by
  have hatom : ∀ a ∈ s.atoms, a = s.cycleAtom := fun a ha => (List.mem_replicate.1 ha).2
  refine ⟨?_, ?_, ?_⟩
  · intro a ha
    rw [hatom a ha]
    rfl
  · intro a ha p hp
    rw [hatom a ha] at hp ⊢
    obtain ⟨q, -, rfl⟩ := List.mem_map.1 hp
    rfl
  · intro a ha b hb _
    rw [hatom a ha, hatom b hb]

theorem SciencePlan.regular_atoms (s : SciencePlan) : PlannedAtom.Regular s.atoms := by
  cases s with
  | longSlit s => exact s.regular_atoms
  | imaging s => exact s.regular_atoms
  | nod s => exact s.regular_atoms

namespace Specification

/-- Arcs and flats match the science that they calibrate.  Without them, the plan has the science atoms
in their order; one calibration stands in front of each run of atoms of one group, and none anywhere
else; and the last calibration in front of a science atom exposes both lamps with the configurations
of its steps. -/
theorem scienceAtoms_calibrated (s : Specification) (c : ArcAndFlat)
    (hc : s.rules.arcsAndFlats = some c) :
    (Plans.ofSpecification s).science.atoms.filter (·.kind ≠ .calibration) =
      s.science.atoms.map (·.atom) ∧
    (∀ a ∈ s.science.atoms, a.atom.kind = .science) ∧
    (Plans.ofSpecification s).science.atoms =
      (PlannedAtom.runs s.science.atoms).flatMap c.calibrated ∧
    ∀ before p behind, (Plans.ofSpecification s).science.atoms = before ++ p :: behind →
      p.kind = .science → ∃ front calibration between,
        before = front ++ calibration :: between ∧ c.Calibrates calibration p ∧
          ∀ b ∈ between, b.kind = .science := by
  have hregular := s.science.regular_atoms
  have hplan : (Plans.ofSpecification s).science.atoms = c.injectAfter none s.science.atoms := by
    show injectCalibrations s.rules.arcsAndFlats s.science.atoms = _
    rw [hc]
    rfl
  rw [hplan]
  exact ⟨ArcAndFlat.filter_injectAfter hregular.kind, hregular.kind, c.injectAfter_none _,
    fun before p behind h hp => ArcAndFlat.exists_calibration hregular h hp⟩

end Specification

/-! ## Exposures through a slit -/

namespace Slit

def mode : ObservingMode :=
  .gmosNorthLongSlit
    ⟨.b1200, none, .width100, .ofNanometers 500, ⟨none, none, none, none, none⟩, none, none, none⟩

def times (exposures : Nat) : IntegrationTimes :=
  ⟨⟨.ofSeconds 10, 1⟩, ⟨.ofSeconds 60, exposures⟩⟩

/-- An observation with a number of exposures, three in each atom. -/
def observation (exposures : Nat) (history : History) : Observation where
  id := "o"
  target := some ⟨"M 51", some ⟨.v, 14⟩, some 0⟩
  mode := some mode
  role := none
  integration := some (times exposures)
  history
  corrections := []

def calculator (exposures : Nat) : Calculator := .fixed (some (times exposures))

def specification (exposures : Nat) : Specification := .ofMode "o" none (times exposures) mode

/-- The configuration in which the lamps are exposed at a central wavelength in nanometers. -/
def lampConfig (wavelength : Int) : InstrumentConfig :=
  .gmosNorth ⟨.ofSeconds 1, .binned .one .two, .fullFrame,
    some ⟨.b1200, .ofNanometers wavelength⟩, none, some .width100⟩

/-- The atoms that are planned for four exposures. -/
def planned : List ProtoAtom := (Plans.ofSpecification (specification 4)).science.atoms

/-- The atom that is planned last. -/
def lastPlanned : ProtoAtom := planned.getLast (by decide +kernel)

end Slit

/-- Four exposures make two atoms of different dithers, each with its own calibration. -/
theorem Specification.scienceAtoms_calibrated_slit :
    Specification.build (Slit.observation 4 ⟨[]⟩) (Slit.calculator 4) = .ok (Slit.specification 4) ∧
    Slit.planned.map (·.kind) = [.calibration, .science, .calibration, .science] ∧
    Slit.planned.filter (·.kind ≠ .calibration) = (Slit.specification 4).science.atoms.map (·.atom) ∧
    (PlannedAtom.runs (Slit.specification 4).science.atoms).length = 2 ∧
    (∃ calibration ∈ Slit.planned, ArcAndFlat.gmos.Calibrates calibration Slit.lastPlanned) ∧
    (Slit.planned.filter (·.kind = .calibration)).map (fun a => a.steps.map (·.instrumentConfig)) =
      [[Slit.lampConfig 500, Slit.lampConfig 500], [Slit.lampConfig 505, Slit.lampConfig 505]] := by
  obtain ⟨hscience, -, -, hlast⟩ :=
    Specification.scienceAtoms_calibrated (Slit.specification 4) .gmos rfl
  have hplan : Slit.planned = Slit.planned.dropLast ++ [Slit.lastPlanned] :=
    (List.dropLast_append_getLast _).symm
  obtain ⟨front, calibration, between, hbefore, hcalibrates, -⟩ :=
    hlast _ _ _ hplan (by decide +kernel)
  have hmem : calibration ∈ Slit.planned := by
    refine List.dropLast_subset _ ?_
    rw [hbefore]
    exact List.mem_append_right _ List.mem_cons_self
  exact ⟨by decide +kernel, by decide +kernel, hscience, by decide +kernel,
    ⟨calibration, hmem, hcalibrates⟩, by decide +kernel⟩

end Observing
