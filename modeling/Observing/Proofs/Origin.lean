import Observing.Proofs.Exposures
import Observing.Proofs.Conservation
import Observing.Proofs.Loss
import Observing.Proofs.RoundTrip

/-!
# Where steps come from

A step that is handed out is a planned one: it stands in an atom of the plan, or it repeats a step
that does.  Histories and identities have no say in this.  Conversely, every planned science step is
handed out once those before it were executed.

* `AtomPlan.steps`        the planned steps, those of the atom that goes on for ever among them;
* `AtomPlan.Covers`       the plan has an atom of a kind with the given steps;
* `Path.covered`          the atoms on the way have the kind and the steps of planned ones;
* `Engine.HandsOut`       an atom is returned, as the next one or in a window of any length;
* `Engine.exists_planned` each step of such an atom is a planned one with an identity and a time;
* `Engine.exists_handsOut`   each planned science step is handed out behind some history;
* `ProtoStep.Acquires`    what the planned steps of an acquisition are.
-/

namespace Observing

namespace AtomPlan

/-- The steps of all atoms of a plan, those of the atom that goes on for ever among them. -/
def steps (p : AtomPlan) : List ProtoStep := (p.atoms ++ p.onward.toList).flatMap (·.steps)

theorem mem_of_get? {p : AtomPlan} {i : Nat} {a : ProtoAtom} (h : p.get? i = some a) :
    a ∈ p.atoms ++ p.onward.toList := by
  unfold get? at h
  split at h
  · rename_i b hb
    cases h
    exact List.mem_append_left _ (List.mem_of_getElem? hb)
  · exact List.mem_append_right _ (Option.mem_toList.2 h)

/-- Some planned atom of a kind has all these steps. -/
def Covers (p : AtomPlan) (kind : AtomKind) (steps : List ProtoStep) : Prop :=
  ∃ a ∈ p.atoms ++ p.onward.toList, a.kind = kind ∧ steps ⊆ a.steps

end AtomPlan

namespace Generator

variable {g : Generator} {v : Visit}

/-! ## Along a way -/

theorem mem_steps_of_mem_todo {x : StepId × ProtoStep} (hx : x ∈ g.todo v) :
    x.2 ∈ v.planned.steps := by
  unfold todo at hx
  have hall : x ∈ stepsToDo v.key.id v.planned .fresh → x.2 ∈ v.planned.steps := by
    intro hx
    obtain ⟨y, hy, rfl⟩ := List.mem_map.1 hx
    exact List.mem_of_getElem? (List.mem_zipIdx_iff_getElem?.1 hy)
  cases hr : g.resolution v with
  | fresh =>
    rw [hr] at hx
    exact hall hx
  | satisfied =>
    rw [hr] at hx
    exact hall hx
  | closedWithRedo redo =>
    rw [hr] at hx
    exact hall hx
  | inProgress unmet redo =>
    rw [hr] at hx
    obtain ⟨es, -, htally, -⟩ := Progress.executed_of_inProgress hr
    -- Steps not met yet are left of the planned ones, and a repetition repeats one of these.
    rcases List.mem_append.1 hx with hx | hx
    · obtain ⟨u, hu, rfl⟩ := List.mem_map.1 hx
      obtain ⟨y, hy, rfl⟩ := List.mem_map.1 ((Progress.unmet_sublist hr).subset hu)
      exact List.mem_of_getElem? (List.mem_zipIdx_iff_getElem?.1 hy)
    · obtain ⟨q, hq, rfl⟩ := List.mem_map.1 hx
      have hredo : q ∈ ((Tally.start v.planned.steps).takeAll es).redo := by
        rw [htally]
        exact hq
      rcases Tally.step_mem_of_mem_redo hredo with hstep | hstep
      · rwa [Tally.map_snd_unmet_start] at hstep
      · cases hstep

/-- A look meets what is planned, and leaves nothing but that waiting. -/
theorem look_covered {s s' : Place} (h : g.look s = some (v, s'))
    (hs : ∀ p ∈ s.pending, g.plan.Covers p.kind [p.redo.step]) :
    g.plan.Covers v.planned.kind v.planned.steps ∧
      ∀ p ∈ s'.pending, g.plan.Covers p.kind [p.redo.step] := by
  have hleft : g.plan.Covers v.planned.kind v.planned.steps →
      ∀ p ∈ g.left v, g.plan.Covers p.kind [p.redo.step] := by
    rintro ⟨a, ha, hkind, hsteps⟩ p hp
    refine ⟨a, ha, hkind.trans (mem_left hp).2.symm, ?_⟩
    exact List.cons_subset.2 ⟨hsteps (step_of_mem_left hp), List.nil_subset _⟩
  rcases look_cases h with ⟨q, rest, hq, -, rfl, rfl⟩ | ⟨hv, rfl⟩
  · have hcovered : g.plan.Covers (g.repeatVisit q).planned.kind (g.repeatVisit q).planned.steps :=
      hs q (hq ▸ List.mem_cons_self)
    refine ⟨hcovered, fun p hp => ?_⟩
    rcases List.mem_append.1 hp with hp | hp
    · exact hs p (hq ▸ List.mem_cons_of_mem q hp)
    · exact hleft hcovered p hp
  · have hcovered : g.plan.Covers v.planned.kind v.planned.steps := by
      obtain ⟨a, ha, rfl⟩ := Option.map_eq_some_iff.1 hv
      exact ⟨a, AtomPlan.mem_of_get? ha, rfl, List.Subset.refl _⟩
    refine ⟨hcovered, fun p hp => ?_⟩
    rcases List.mem_append.1 hp with hp | hp
    · exact hs p hp
    · exact hleft hcovered p hp

theorem Path.covered {s s' : Place} {vs : List Visit} (h : g.Path s vs s')
    (hs : ∀ p ∈ s.pending, g.plan.Covers p.kind [p.redo.step]) :
    ∀ v ∈ vs, g.plan.Covers v.planned.kind v.planned.steps := by
  induction h with
  | nil => exact fun v hv => absurd hv List.not_mem_nil
  | cons hl _ ih =>
    obtain ⟨hv, hpending⟩ := look_covered hl hs
    exact List.forall_mem_cons.2 ⟨hv, ih hpending⟩

/-- An atom that is generated has the kind and the steps of a planned one. -/
theorem exists_planned_of_mem_take {t : TelescopeState} {n : Nat} {y : Emission}
    (hy : y ∈ (g.take n (.start t)).1) :
    ∃ b ∈ g.plan.atoms ++ g.plan.onward.toList, y.atom.kind = b.kind ∧
      ∀ x ∈ y.atom.steps, ∃ p ∈ b.steps, ∃ id estimate, x = Step.ofProto id estimate p := by
  obtain ⟨vs, s, v, t', hpath, hv, -, rfl⟩ := mem_take (s := ⟨0, []⟩) hy
  obtain ⟨b, hb, hkind, hsteps⟩ := hpath.covered (fun p hp => absurd hp List.not_mem_nil) v hv
  refine ⟨b, hb, hkind.symm, fun x hx => ?_⟩
  obtain ⟨z, hz, estimate, rfl⟩ := mem_stepsOf hx
  exact ⟨z.2, hsteps (mem_steps_of_mem_todo hz), z.1, estimate, rfl⟩

theorem exists_planned_of_mem_window {t : TelescopeState} {limit : Nat} {a : Atom}
    (ha : a ∈ (g.window t limit).atoms) :
    ∃ b ∈ g.plan.atoms ++ g.plan.onward.toList, a.kind = b.kind ∧
      ∀ x ∈ a.steps, ∃ p ∈ b.steps, ∃ id estimate, x = Step.ofProto id estimate p := by
  rw [window_atoms] at ha
  obtain ⟨y, hy, rfl⟩ := List.mem_map.1 ha
  exact exists_planned_of_mem_take hy

theorem exists_planned_of_mem_remaining {t : TelescopeState} {a : Atom} (ha : a ∈ g.remaining t) :
    ∃ b ∈ g.plan.atoms ++ g.plan.onward.toList, a.kind = b.kind ∧
      ∀ x ∈ a.steps, ∃ p ∈ b.steps, ∃ id estimate, x = Step.ofProto id estimate p := by
  obtain ⟨y, hy, rfl⟩ := List.mem_map.1 ha
  exact exists_planned_of_mem_take hy

end Generator

/-! ## The engine -/

namespace Engine

variable {e : Engine} {o : Observation} {calculator : Calculator} {s : Specification}
  {sequence : SequenceType}

theorem generate_ok (hs : e.specification o calculator = .ok s) (limit : Option Nat) :
    ∃ config, e.generate o calculator limit = .ok config := by
  unfold generate
  rw [hs]
  exact ⟨_, rfl⟩

/-- The windows that are returned are those of the planned sequences. -/
theorem get?_of_generate {limit : Option Nat} {config : ExecutionConfig}
    (hs : e.specification o calculator = .ok s)
    (h : e.generate o calculator limit = .ok config) (sequence : SequenceType) :
    config.get? sequence =
      e.generateType o (Plans.ofSpecification s) sequence (e.limits.future limit) := by
  unfold generate at h
  rw [hs] at h
  cases h
  cases sequence with
  | acquisition => rfl
  | science => rfl

/-- The atom is returned for a sequence: as the next one, or in a window of any length. -/
def HandsOut (e : Engine) (o : Observation) (calculator : Calculator) (sequence : SequenceType)
    (a : Atom) : Prop :=
  e.nextAtom o calculator sequence = .ok (some a) ∨
    ∃ limit config, e.generate o calculator limit = .ok config ∧
      ∃ w ∈ config.get? sequence, a ∈ w.atoms

theorem window_of_handsOut {a : Atom} (hs : e.specification o calculator = .ok s)
    (ha : e.HandsOut o calculator sequence a) :
    ∃ plan ∈ (Plans.ofSpecification s).get? sequence, ∃ limit,
      a ∈ ((e.generator o sequence plan).window (telescope o sequence) limit).atoms := by
  have hwindow : ∃ limit, ∃ w ∈ e.generateType o (Plans.ofSpecification s) sequence limit,
      a ∈ w.atoms := by
    rcases ha with hnext | ⟨limit, config, hconfig, w, hw, hmem⟩
    · unfold nextAtom at hnext
      rw [hs] at hnext
      obtain ⟨w, hw, hfirst⟩ := Option.bind_eq_some_iff.1 (Except.ok.inj hnext)
      refine ⟨0, w, hw, ?_⟩
      rw [GeneratedSequence.atoms, hfirst]
      exact List.mem_cons_self
    · rw [get?_of_generate hs hconfig] at hw
      exact ⟨_, w, hw, hmem⟩
  obtain ⟨limit, w, hw, hmem⟩ := hwindow
  obtain ⟨plan, hplan, rfl⟩ := Option.map_eq_some_iff.1 hw
  exact ⟨plan, hplan, limit, hmem⟩

/-- Every step of an atom that is returned is a planned one with an identity and a time. -/
theorem exists_planned {a : Atom} (hs : e.specification o calculator = .ok s)
    (ha : e.HandsOut o calculator sequence a) {x : Step} (hx : x ∈ a.steps) :
    ∃ plan ∈ (Plans.ofSpecification s).get? sequence, ∃ p ∈ plan.steps, ∃ id estimate,
      x = Step.ofProto id estimate p := by
  obtain ⟨plan, hplan, limit, hmem⟩ := window_of_handsOut hs ha
  obtain ⟨b, hb, -, hsteps⟩ := Generator.exists_planned_of_mem_window hmem
  obtain ⟨p, hp, hstep⟩ := hsteps x hx
  exact ⟨plan, hplan, p, List.mem_flatMap.2 ⟨b, hb, hp⟩, hstep⟩

end Engine

/-! ## Planned steps are handed out -/

theorem CostModel.exists_mem_atoms (m : CostModel) {ds : List Due} {d : Due} (hd : d ∈ ds)
    (t : TelescopeState) : ∃ a ∈ m.atoms t ds, ∀ x ∈ d.steps, ∃ estimate,
      Step.ofProto x.1 estimate x.2 ∈ a.steps := by
  induction ds generalizing t with
  | nil => cases hd
  | cons d' ds ih =>
    rcases List.mem_cons.1 hd with rfl | hd
    · refine ⟨_, List.mem_cons_self, fun x hx => ?_⟩
      have hlen : d.steps.length ≤ (m.estimateAll t (d.steps.map (·.2))).1.length := by
        rw [length_estimateAll, List.length_map]
      rw [← List.map_fst_zip hlen] at hx
      obtain ⟨⟨y, estimate⟩, hy, rfl⟩ := List.mem_map.1 hx
      exact ⟨estimate, List.mem_map.2 ⟨(y, estimate), hy, rfl⟩⟩
    · obtain ⟨a, ha, hsteps⟩ := ih hd (m.estimateAll t (d'.steps.map (·.2))).2
      exact ⟨a, List.mem_cons_of_mem _ ha, hsteps⟩

/-- Where nothing was recorded, all planned atoms are due, with all their steps. -/
theorem Generator.exists_mem_duePlanned {g : Generator} (h : g.progress.records = [])
    {a : ProtoAtom} (ha : a ∈ g.plan.atoms) {p : ProtoStep} (hp : p ∈ a.steps) :
    ∃ d ∈ g.duePlanned, ∃ id, (id, p) ∈ d.steps := by
  obtain ⟨i, hi⟩ := List.mem_iff_getElem?.1 ha
  obtain ⟨j, hj⟩ := List.mem_iff_getElem?.1 hp
  have hfresh : g.progress.resolve (g.atomId i) a.steps = .fresh :=
    Progress.resolve_unrecorded h _ _
  let d : Due := ⟨g.atomId i, a.description, a.kind, stepsToDo (g.atomId i) a .fresh⟩
  have hdue : g.duePlanned? a i = some d := by
    rw [duePlanned?, hfresh]
    rfl
  refine ⟨d, List.mem_filterMap.2 ⟨(a, i), List.mem_zipIdx_iff_getElem?.2 hi, hdue⟩,
    (StepKey.planned (g.atomId i) j).id, ?_⟩
  exact List.mem_map.2 ⟨(p, j), List.mem_zipIdx_iff_getElem?.2 hj, rfl⟩

namespace Engine

variable {e : Engine} {o : Observation} {calculator : Calculator} {s : Specification}

theorem nextAtom_eq_head? (hs : e.specification o calculator = .ok s)
    (hsound : (e.generator o .science (.finite s.scienceAtoms)).Sound s.scienceAtoms.length) :
    e.nextAtom o calculator .science = .ok (e.remaining o s).head? := by
  have hfirst := Generator.take_remaining rfl hsound 1 (telescope o .science)
  have hhead : ((e.remaining o s).take 1).head? = (e.remaining o s).head? := by
    rw [List.head?_take, if_neg Nat.one_ne_zero]
  have hplan : (Plans.ofSpecification s).get? .science = some (.finite s.scienceAtoms) := rfl
  rw [nextAtom_eq hs hplan, ← hhead, remaining, ← hfirst]
  cases hadvance : (e.generator o .science (.finite s.scienceAtoms)).advance
      (.start (telescope o .science)) with
  | none =>
    rw [Generator.take_succ_none hadvance]
    rfl
  | some r =>
    rw [Generator.take_succ_some hadvance]
    rfl

/-- Every atom that remains is the next one once those before it were executed. -/
theorem exists_nextAtom {a : Atom} {k : Nat} (hs : e.specification o calculator = .ok s)
    (hsound : (e.generator o .science (.finite s.scienceAtoms)).Sound s.scienceAtoms.length)
    (hn : (e.generator o .science (.finite s.scienceAtoms)).progress.failedIds.Nodup)
    (hk : (e.remaining o s)[k]? = some a) :
    ∃ rs, e.nextAtom (o.pushAll rs) calculator .science = .ok (some a) := by
  -- On the number of atoms in front; the first of them is executed, and the others remain.
  induction k generalizing o with
  | zero =>
    have hpush : o.pushAll [] = o := by rw [Observation.pushAll, List.append_nil]
    exact ⟨[], by rw [hpush, nextAtom_eq_head? hs hsound, List.head?_eq_getElem?, hk]⟩
  | succ k ih =>
    cases hremaining : e.remaining o s with
    | nil =>
      rw [hremaining] at hk
      cases hk
    | cons b bs =>
      obtain ⟨hsound', hn', hrest, -⟩ :=
        remaining_push hsound hn hremaining (completes_finished b "v")
      rw [hremaining, List.getElem?_cons_succ, ← hrest] at hk
      obtain ⟨rs, hnext⟩ := ih (o := o.push (b.finished "v")) hs hsound' hn' hk
      exact ⟨b.finished "v" :: rs, by rw [Observation.pushAll_cons, hnext]⟩

/-- Every planned science step is handed out behind some history. -/
theorem exists_handsOut (hs : e.specification o calculator = .ok s)
    (hapart : AtomKey.Apart (e.atomKeys (o.withHistory ⟨[]⟩) s .science 0)) {p : ProtoStep}
    (hp : p ∈ (Plans.ofSpecification s).science.steps) :
    ∃ h a, e.HandsOut (o.withHistory h) calculator .science a ∧
      ∃ id estimate, Step.ofProto id estimate p ∈ a.steps := by
  let g := e.generator (o.withHistory ⟨[]⟩) .science (.finite s.scienceAtoms)
  have hd : (o.withHistory ⟨[]⟩).history.DistinctFailures := List.nodup_nil
  have hsound : g.Sound s.scienceAtoms.length := sound rfl hd hapart
  obtain ⟨b, hb, hpb⟩ := List.mem_flatMap.1 hp
  have hplanned : b ∈ g.plan.atoms := by
    rcases List.mem_append.1 hb with hb | hb
    · exact hb
    · cases hb
  obtain ⟨d, hdue, id, hid⟩ := Generator.exists_mem_duePlanned (g := g) rfl hplanned hpb
  obtain ⟨a, ha, hsteps⟩ := e.costs.exists_mem_atoms
    (List.mem_append_left g.dueRepeated hdue) (telescope (o.withHistory ⟨[]⟩) .science)
  have hremaining : a ∈ e.remaining (o.withHistory ⟨[]⟩) s := by
    rw [remaining, Generator.remaining_of_sound rfl hsound]
    exact ha
  obtain ⟨k, hk⟩ := List.mem_iff_getElem?.1 hremaining
  obtain ⟨rs, hnext⟩ := exists_nextAtom (o := o.withHistory ⟨[]⟩) hs hsound (nodup_failedIds hd) hk
  obtain ⟨estimate, hmem⟩ := hsteps _ hid
  exact ⟨⟨rs⟩, a, .inl hnext, id, estimate, hmem⟩

end Engine

/-! ## Acquisitions -/

/-- An acquisition exposure: it is on the sky, and no grating is in the beam. -/
structure ProtoStep.Acquires (p : ProtoStep) : Prop where
  onSky : ∃ offset, p.stepConfig = .onSky offset
  observeClass : p.observeClass = .acquisition
  wavelength : p.instrumentConfig.wavelength? = none

namespace Specification

theorem wavelength?_gmosConfig (instrument : Instrument) (c : Gmos.Config) :
    (gmosConfig instrument c).wavelength? = c.grating.map (·.wavelength) := by
  cases instrument with
  | gmosNorth => rfl
  | gmosSouth => rfl
  | flamingos2 => rfl

theorem first_ne_nil_ofMode (observation : String) (role : Option CalibrationRole)
    (times : IntegrationTimes) (mode : ObservingMode) {a : AcquisitionPlan}
    (ha : a ∈ (ofMode observation role times mode).acquisition) : a.first ≠ [] := by
  cases mode with
  | gmosNorthLongSlit m =>
    cases (Option.ite_none_right_eq_some.1 ha).2
    exact List.cons_ne_nil _ _
  | gmosSouthLongSlit m =>
    cases (Option.ite_none_right_eq_some.1 ha).2
    exact List.cons_ne_nil _ _
  | flamingos2LongSlit m =>
    cases (Option.ite_none_right_eq_some.1 ha).2
    exact List.cons_ne_nil _ _
  | gmosNorthImaging m => cases ha
  | gmosSouthImaging m => cases ha

theorem acquires_acquisitionStep {c : InstrumentConfig} (hc : c.wavelength? = none) (offset : Offset)
    (b : Breakpoint) : (acquisitionStep c offset b).Acquires :=
  ⟨⟨offset, rfl⟩, rfl, hc⟩

theorem acquires_gmos (instrument : Instrument) (m : GmosLongSlit) (exposure : TimeSpan) :
    ∀ p ∈ (gmosAcquisition instrument m exposure).first ++
      [(gmosAcquisition instrument m exposure).onward], p.Acquires := by
  have hconfig : ∀ c : Gmos.Config, c.grating = none →
      (gmosConfig instrument c).wavelength? = none := by
    intro c hc
    rw [wavelength?_gmosConfig, hc]
    rfl
  simp only [gmosAcquisition, List.cons_append, List.nil_append, List.forall_mem_cons]
  exact ⟨acquires_acquisitionStep (hconfig _ rfl) _ _, acquires_acquisitionStep (hconfig _ rfl) _ _,
    acquires_acquisitionStep (hconfig _ rfl) _ _, acquires_acquisitionStep (hconfig _ rfl) _ _,
    fun p hp => absurd hp List.not_mem_nil⟩

theorem acquires_flamingos (m : FlamingosLongSlit) (exposure : TimeSpan) :
    ∀ p ∈ (flamingosAcquisition m exposure).first ++ [(flamingosAcquisition m exposure).onward],
      p.Acquires := by
  simp only [flamingosAcquisition, List.cons_append, List.nil_append, List.forall_mem_cons]
  exact ⟨acquires_acquisitionStep rfl _ _, acquires_acquisitionStep rfl _ _,
    acquires_acquisitionStep rfl _ _, fun p hp => absurd hp List.not_mem_nil⟩

theorem acquires_ofMode (observation : String) (role : Option CalibrationRole)
    (times : IntegrationTimes) (mode : ObservingMode) {a : AcquisitionPlan}
    (ha : a ∈ (ofMode observation role times mode).acquisition) :
    ∀ p ∈ a.first ++ [a.onward], p.Acquires := by
  cases mode with
  | gmosNorthLongSlit m =>
    cases (Option.ite_none_right_eq_some.1 ha).2
    exact acquires_gmos _ _ _
  | gmosSouthLongSlit m =>
    cases (Option.ite_none_right_eq_some.1 ha).2
    exact acquires_gmos _ _ _
  | flamingos2LongSlit m =>
    cases (Option.ite_none_right_eq_some.1 ha).2
    exact acquires_flamingos _ _
  | gmosNorthImaging m => cases ha
  | gmosSouthImaging m => cases ha

/-- An accepted observation has the specification of a mode. -/
theorem exists_ofMode_of_build {o : Observation} {calculator : Calculator} {s : Specification}
    (h : build o calculator = .ok s) : ∃ times mode, s = ofMode o.id o.role times mode := by
  obtain ⟨request, times, -, -, hs⟩ := build_eq_ok_iff.1 h
  exact ⟨times, request.mode, hs⟩

/-- Every planned step of an acquisition is an acquisition exposure. -/
theorem acquires_of_build {o : Observation} {calculator : Calculator} {s : Specification}
    (h : build o calculator = .ok s) {plan : AtomPlan}
    (hplan : plan ∈ (Plans.ofSpecification s).acquisition) : ∀ p ∈ plan.steps, p.Acquires := by
  obtain ⟨a, ha, rfl⟩ := Option.map_eq_some_iff.1 hplan
  have hsteps : (AtomPlan.repeating [a.firstAtom] a.onwardAtom).steps = a.first ++ [a.onward] := by
    simp [AtomPlan.steps, AtomPlan.repeating, AcquisitionPlan.firstAtom, AcquisitionPlan.onwardAtom]
  obtain ⟨times, mode, rfl⟩ := exists_ofMode_of_build h
  rw [hsteps]
  exact acquires_ofMode _ _ _ _ ha

end Specification

/-! ## An observation with an acquisition -/

namespace Slit

/-- The next atom of a sequence behind a history, of an observation with four exposures. -/
def next? (sequence : SequenceType) (history : History) : Option Atom :=
  ((default : Engine).nextAtom (observation 4 history) (calculator 4) sequence).toOption.join

/-- The arc and the flat that stand in front of the first science atom. -/
def lamps : Atom := (next? .science ⟨[]⟩).get (by decide +kernel)

/-- The first atom of the acquisition. -/
def acquired : Atom := (next? .acquisition ⟨[]⟩).get (by decide +kernel)

/-- It is executed in the second visit. -/
def acquisition : AtomRecord :=
  ⟨acquired.id, "v-2", .acquisition, acquired.steps.map (·.finished .pass)⟩

end Slit
end Observing
