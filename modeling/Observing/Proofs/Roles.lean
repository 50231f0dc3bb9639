import Observing.Proofs.Dependence
import Observing.Proofs.Returns

/-!
# Observations that calibrate others

Twilight and spectrophotometric standards are neither acquired nor calibrated, and their exposures are
of a class of their own.  The class is given to the planned steps once, and it stays with them: through
every mode, behind every history, in first exposures and in repetitions, down to the time that is charged.

* `CalibrationRole.observeClass`   the class of the exposures of a role;
* `SciencePlan.exposes_steps`      all steps of a plan are exposures of its class on the sky;
* `Specification.Calibrator`       what a role makes of a specification, whatever the mode;
* `Engine.generate_of_role`        what is handed out, and to whom its time is charged.
-/

namespace Observing

/-- The class of the exposures of an observation that calibrates others. -/
def CalibrationRole.observeClass : CalibrationRole → ObserveClass
  | .twilight => .dayCal
  | .spectroPhotometric => .partnerCal

/-! ## Planned steps -/

/-- An exposure of a class on the sky, and not of a lamp. -/
structure ProtoStep.Exposes (c : ObserveClass) (p : ProtoStep) : Prop where
  onSky : ∃ offset, p.stepConfig = .onSky offset
  observeClass : p.observeClass = c

namespace SciencePlan

/-- The class of all exposures of a plan. -/
def observeClass : SciencePlan → ObserveClass
  | longSlit s => s.observeClass
  | imaging s => s.observeClass
  | nod s => s.observeClass

theorem exposes_steps (s : SciencePlan) :
    ∀ a ∈ s.atoms, ∀ p ∈ a.atom.steps, p.Exposes s.observeClass := by
  intro a ha p hp
  cases s with
  | longSlit s =>
    obtain ⟨j, -, rfl⟩ := List.mem_map.1 ha
    obtain ⟨i, -, rfl⟩ := List.mem_map.1 hp
    exact ⟨⟨_, rfl⟩, rfl⟩
  | imaging s =>
    obtain ⟨f, -, ha⟩ := List.mem_flatMap.1 ha
    obtain ⟨pass, -, rfl⟩ := List.mem_map.1 ha
    obtain ⟨offset, -, rfl⟩ := List.mem_map.1 hp
    exact ⟨⟨_, rfl⟩, rfl⟩
  | nod s =>
    rw [(List.mem_replicate.1 ha).2] at hp
    obtain ⟨q, -, rfl⟩ := List.mem_map.1 hp
    exact ⟨⟨_, rfl⟩, rfl⟩

end SciencePlan

/-! ## Specifications -/

namespace Specification

/-- The target is not acquired, no lamps go with the exposures, and these are of the class of a role. -/
structure Calibrator (s : Specification) (r : CalibrationRole) : Prop where
  acquisition : s.acquisition = none
  arcsAndFlats : s.rules.arcsAndFlats = none
  observeClass : s.science.observeClass = r.observeClass

theorem scienceClassOf_some (r : CalibrationRole) :
    CalibrationRules.scienceClassOf (some r) = r.observeClass := by
  cases r <;> rfl

/-- In every mode, an observation with a role is a calibrator. -/
theorem calibrator_ofMode (observation : String) (r : CalibrationRole) (times : IntegrationTimes)
    (mode : ObservingMode) : (ofMode observation (some r) times mode).Calibrator r := by
  cases mode with
  | gmosNorthLongSlit m => exact ⟨rfl, rfl, scienceClassOf_some r⟩
  | gmosSouthLongSlit m => exact ⟨rfl, rfl, scienceClassOf_some r⟩
  | gmosNorthImaging m => exact ⟨rfl, rfl, scienceClassOf_some r⟩
  | gmosSouthImaging m => exact ⟨rfl, rfl, scienceClassOf_some r⟩
  | flamingos2LongSlit m => exact ⟨rfl, rfl, scienceClassOf_some r⟩

theorem calibrator_of_build {o : Observation} {calculator : Calculator} {s : Specification}
    {r : CalibrationRole} (h : build o calculator = .ok s) (hrole : o.role = some r) :
    s.Calibrator r := by
  obtain ⟨times, mode, rfl⟩ := exists_ofMode_of_build h
  rw [hrole]
  exact calibrator_ofMode ..

/-- All planned atoms of a calibrator are science atoms, and all their steps are exposures of its
class. -/
theorem Calibrator.planned {s : Specification} {r : CalibrationRole} (h : s.Calibrator r) :
    ∀ b ∈ s.scienceAtoms, b.kind = .science ∧ ∀ p ∈ b.steps, p.Exposes r.observeClass := by
  intro b hb
  rw [scienceAtoms, h.arcsAndFlats, inject_none] at hb
  obtain ⟨a, ha, rfl⟩ := List.mem_map.1 hb
  refine ⟨s.science.regular_atoms.kind a ha, fun p hp => ?_⟩
  rw [← h.observeClass]
  exact s.science.exposes_steps a ha p hp

end Specification

/-! ## The engine -/

/-- No time is charged to a class to which no step is charged. -/
theorem Atom.charged_eq_zero {k : ChargeClass} {atoms : List Atom}
    (h : ∀ a ∈ atoms, ∀ x ∈ a.steps, x.observeClass.charge ≠ k) : Atom.charged k atoms = 0 := by
  have hnone : (atoms.flatMap (·.steps)).filter (·.observeClass.charge = k) = [] := by
    rw [List.filter_eq_nil_iff]
    intro x hx
    obtain ⟨a, ha, hx⟩ := List.mem_flatMap.1 hx
    simpa using h a ha x hx
  rw [Atom.charged, hnone]
  rfl

/-- A science atom whose steps are exposures of a class on the sky. -/
structure Atom.Exposes (c : ObserveClass) (a : Atom) : Prop where
  kind : a.kind = .science
  onSky : ∀ x ∈ a.steps, ∃ offset, x.stepConfig = .onSky offset
  observeClass : ∀ x ∈ a.steps, x.observeClass = c

namespace Engine

variable {e : Engine} {o : Observation} {calculator : Calculator} {s : Specification}
  {sequence : SequenceType} {r : CalibrationRole} {a : Atom}

/-- An atom that comes from the plan of a calibrator is of the kind and the class of its steps. -/
theorem exposes_of_planned (hc : s.Calibrator r)
    (ha : ∃ b ∈ (AtomPlan.finite s.scienceAtoms).atoms ++ (AtomPlan.finite s.scienceAtoms).onward.toList,
      a.kind = b.kind ∧
        ∀ x ∈ a.steps, ∃ p ∈ b.steps, ∃ id estimate, x = Step.ofProto id estimate p) :
    a.Exposes r.observeClass := by
  obtain ⟨b, hb, hkind, hsteps⟩ := ha
  have hb : b ∈ s.scienceAtoms := by
    rcases List.mem_append.1 hb with hb | hb
    · exact hb
    · cases hb
  obtain ⟨hscience, hexposes⟩ := hc.planned b hb
  refine ⟨hkind.trans hscience, fun x hx => ?_, fun x hx => ?_⟩
  · obtain ⟨p, hp, id, estimate, rfl⟩ := hsteps x hx
    exact (hexposes p hp).onSky
  · obtain ⟨p, hp, id, estimate, rfl⟩ := hsteps x hx
    exact (hexposes p hp).observeClass

theorem acquisition_plans (hc : s.Calibrator r) : (Plans.ofSpecification s).acquisition = none := by
  rw [Plans.ofSpecification, hc.acquisition]
  rfl

theorem not_handsOut_acquisition (hs : e.specification o calculator = .ok s)
    (hc : s.Calibrator r) : ¬e.HandsOut o calculator .acquisition a := by
  intro ha
  obtain ⟨plan, hplan, -⟩ := window_of_handsOut hs ha
  rw [Plans.get?, acquisition_plans hc] at hplan
  cases hplan

theorem exposes_of_handsOut (hs : e.specification o calculator = .ok s) (hc : s.Calibrator r)
    (ha : e.HandsOut o calculator .science a) : a.Exposes r.observeClass := by
  obtain ⟨plan, hplan, limit, hmem⟩ := window_of_handsOut hs ha
  cases hplan
  exact exposes_of_planned hc (Generator.exists_planned_of_mem_window hmem)

theorem exposes_of_remaining (hc : s.Calibrator r) (ha : a ∈ e.remaining o s) :
    a.Exposes r.observeClass :=
  exposes_of_planned hc (Generator.exists_planned_of_mem_remaining ha)

/-- Only the class of its exposures is charged for what remains of a calibrator. -/
theorem charged_remaining (hc : s.Calibrator r) {k : ChargeClass} (hk : r.observeClass.charge ≠ k) :
    Atom.charged k (e.remaining o s) = 0 := by
  refine Atom.charged_eq_zero fun a ha x hx => ?_
  rw [(exposes_of_remaining hc ha).observeClass x hx]
  exact hk

/-- Of a calibrator nothing but science is searched for. -/
theorem forall_plans_iff (hc : s.Calibrator r) {P : SequenceType → AtomPlan → Prop} :
    (∀ sequence plan, (Plans.ofSpecification s).get? sequence = some plan → P sequence plan) ↔
      P .science (Plans.ofSpecification s).science := by
  constructor
  · exact fun h => h .science _ rfl
  · intro h sequence plan hplan
    cases sequence with
    | acquisition =>
      rw [Plans.get?, acquisition_plans hc] at hplan
      cases hplan
    | science =>
      cases hplan
      exact h

theorem acquisition_generate (hs : e.specification o calculator = .ok s) (hc : s.Calibrator r)
    {limit : Option Nat} {config : ExecutionConfig}
    (hconfig : e.generate o calculator limit = .ok config) : config.acquisition = none := by
  have hwindow := get?_of_generate hs hconfig .acquisition
  rw [generateType, Plans.get?, acquisition_plans hc] at hwindow
  exact hwindow

theorem nextAtom_acquisition (hs : e.specification o calculator = .ok s) (hc : s.Calibrator r) :
    e.nextAtom o calculator .acquisition = .ok none := by
  unfold nextAtom
  rw [hs]
  show Except.ok (((Plans.ofSpecification s).acquisition.map _).bind _) = _
  rw [acquisition_plans hc]
  rfl

/-- Observations that calibrate others are not acquired, whatever was recorded: no window and no digest
that is returned has an acquisition, and none of its atoms is the next.  Every atom that is handed out is
a science atom, with exposures on the sky of the class of the role, repetitions among them.  No time that
remains for science is charged to the program, none of a twilight to partners, and all of a standard is
charged.  A window is returned where the searches for its science atoms come to something, and a digest
where they come to the end of the plan. -/
theorem generate_of_role (e : Engine) (o : Observation) (calculator : Calculator) (s : Specification)
    (r : CalibrationRole) (hs : e.specification o calculator = .ok s) (hrole : o.role = some r) :
    (∀ limit config, e.Generates o calculator limit (.ok config) → config.acquisition = none) ∧
    (∀ limit, (∃ config, e.Generates o calculator limit (.ok config)) ↔
      e.SearchesScience o s (e.limits.future limit + 2)) ∧
    e.nextAtom o calculator .acquisition = .ok none ∧
    (∀ sequence a, e.HandsOut o calculator sequence a → sequence = .science ∧ a.kind = .science ∧
      (∀ x ∈ a.steps, ∃ offset, x.stepConfig = .onSky offset) ∧
      ∀ x ∈ a.steps, x.observeClass = r.observeClass) ∧
    (∀ d, e.Digests o calculator (.ok d) → d.execution.acquisition = none ∧
      d.execution.science.timeEstimate.program = 0 ∧
      (r = .twilight → d.execution.science.timeEstimate.partner = 0) ∧
      (r = .spectroPhotometric → d.execution.science.timeEstimate.nonCharged = 0)) ∧
    ((∃ d, e.Digests o calculator (.ok d)) ↔
      ∃ es, (e.science o s).Lists (.start (telescope o .science)) es) := by
  have hc : s.Calibrator r := Specification.calibrator_of_build (projectedAtoms_le hs).1 hrole
  refine ⟨fun limit config hconfig => acquisition_generate hs hc hconfig.result, fun limit => ?_,
    nextAtom_acquisition hs hc, ?_, fun d hd => ?_, ?_⟩
  · rw [generates_ok_iff hs, forall_plans_iff hc]
    rfl
  · intro sequence a ha
    cases sequence with
    | acquisition => exact absurd ha (not_handsOut_acquisition hs hc)
    | science =>
      obtain ⟨hkind, hsky, hclass⟩ := exposes_of_handsOut hs hc ha
      exact ⟨rfl, hkind, hsky, hclass⟩
  · obtain ⟨-, -, hacquisition, hscience⟩ := hd.parts hs
    rw [acquisition_plans hc] at hacquisition
    have htime : ∀ k, r.observeClass.charge ≠ k → d.execution.science.timeEstimate.get k = 0 := by
      intro k hk
      rw [hscience, SequenceDigest.get_timeEstimate, charged_remaining hc hk]
    refine ⟨hacquisition, htime .program ?_, ?_, ?_⟩
    · cases r <;> exact ChargeClass.noConfusion
    · rintro rfl
      exact htime .partner (by decide)
    · rintro rfl
      exact htime .nonCharged (by decide)
  · rw [digests_ok_iff hs, forall_plans_iff hc]
    exact Generator.leaves_of_finite rfl

end Engine

/-! ## A twilight -/

namespace Twilight

def observation (history : History) : Observation :=
  { Slit.observation 1 history with role := some .twilight }

def specification : Specification := .ofMode "o" (some .twilight) (Slit.times 1) Slit.mode

/-- The next science atom behind a history. -/
def next? (history : History) : Option Atom :=
  ((default : Engine).nextAtom (observation history) (Slit.calculator 1) .science).toOption.join

/-- The one exposure that is planned. -/
def first : Atom := (next? ⟨[]⟩).get (by decide +kernel)

/-- An acquisition was recorded, and the exposure with failed data. -/
def history : History :=
  ⟨[Slit.acquisition, ⟨first.id, "v-2", .science, first.steps.map (·.finished .fail)⟩]⟩

/-- The repetition of the exposure. -/
def repeated : Atom := (next? history).get (by decide +kernel)

end Twilight

/-- The repetition of a failed twilight is of its class, and the recorded acquisition leads to none. -/
theorem Engine.generate_of_role_twilight :
    (default : Engine).specification (Twilight.observation Twilight.history) (Slit.calculator 1) =
      .ok Twilight.specification ∧
    (default : Engine).nextAtom (Twilight.observation Twilight.history) (Slit.calculator 1)
      .acquisition = .ok none ∧
    Twilight.repeated.description = some "Repeat failed step" ∧
    (∀ x ∈ Twilight.repeated.steps, x.observeClass = .dayCal) ∧
    (∃ config, (default : Engine).Generates (Twilight.observation Twilight.history)
      (Slit.calculator 1) none (.ok config) ∧ config.acquisition = none) ∧
    ∃ d, (default : Engine).Digests (Twilight.observation Twilight.history) (Slit.calculator 1)
      (.ok d) ∧ d.execution.acquisition = none ∧
      d.execution.science.timeEstimate.program = 0 ∧
      d.execution.science.timeEstimate.partner = 0 := by
  have hs : (default : Engine).specification (Twilight.observation Twilight.history)
      (Slit.calculator 1) = .ok Twilight.specification := by decide +kernel
  have hrepeated : (default : Engine).HandsOut (Twilight.observation Twilight.history)
      (Slit.calculator 1) .science Twilight.repeated := .inl (by decide +kernel)
  have hdistinct : (Twilight.observation Twilight.history).history.DistinctFailures := by
    decide +kernel
  obtain ⟨config, hconfig⟩ : ∃ config, (default : Engine).Generates
      (Twilight.observation Twilight.history) (Slit.calculator 1) none (.ok config) :=
    Engine.generates_of_apart hs hdistinct
      fun | .acquisition => by decide +kernel | .science => by decide +kernel
  obtain ⟨d, hd⟩ := Engine.digests_of_apart hs hdistinct
    fun | .acquisition => by decide +kernel | .science => by decide +kernel
  obtain ⟨hacquisition, -, hnext, hatoms, hdigest, -⟩ := Engine.generate_of_role default
    (Twilight.observation Twilight.history) (Slit.calculator 1) Twilight.specification .twilight hs rfl
  obtain ⟨hnone, hprogram, hpartner, -⟩ := hdigest d hd
  exact ⟨hs, hnext, by decide +kernel, (hatoms _ _ hrepeated).2.2.2,
    ⟨config, hconfig, hacquisition none config hconfig⟩, d, hd, hnone, hprogram, hpartner rfl⟩

end Observing
