import Observing.Proofs.Conservation
import Observing.Proofs.Exposures

/-!
# How many atoms can remain

A planned step is to be executed once: in its atom, as long as that is open, or else in a repetition of
its own.  So no more atoms remain than there are planned steps, whatever was recorded, and there are as
many when every planned step was executed and failed.  The steps of calibrations are among them.

* `Generator.length_remaining_le`     no more atoms remain than there are planned steps;
* `Generator.Spoiled`                 every planned step was executed, and its data failed;
* `Generator.le_length_remaining`     then there are as many;
* `History.spoiled`                   a history of which that is true;
* `Engine.atomCount_le_limit_iff`     where the limit bounds what remains of an observation.
-/

namespace Observing

/-- A planned step was executed, and its data failed. -/
structure ExecutedStep.Spoils (e : ExecutedStep) (p : ProtoStep) : Prop where
  executes : e.executes p = true
  failed : e.failed = true

namespace Generator

variable {g : Generator} {v : Visit} {t : TelescopeState}

/-! ## At most one atom for each planned step -/

theorem length_left_steps_le (g : Generator) (v : Visit) :
    (g.left v).length ≤ v.planned.steps.length := by
  rcases left_eq_nil_or g v with hnil | ⟨es, -, hleft⟩
  · rw [hnil]
    exact Nat.zero_le _
  · have hlen := Tally.length_takeAll_le (.start v.planned.steps) es
    rw [Tally.length_start] at hlen
    rw [hleft, waiting, List.length_map]
    omega

/-- Visited atoms with steps: those that are open, and the failed steps that the others leave behind. -/
theorem length_opened_add_left_le (g : Generator) (vs : List Visit)
    (hne : ∀ v ∈ vs, v.planned.steps ≠ []) :
    (vs.filter g.opened).length + (vs.flatMap g.left).length ≤
      (vs.flatMap (·.planned.steps)).length := by
  induction vs with
  | nil => exact Nat.le_refl 0
  | cons v vs ih =>
    have hrest := ih fun u hu => hne u (List.mem_cons_of_mem v hu)
    have hsteps := List.length_pos_iff.2 (hne v List.mem_cons_self)
    rw [List.flatMap_cons, List.flatMap_cons, List.length_append, List.length_append]
    by_cases hv : g.opened v = true
    · rw [List.filter_cons_of_pos hv, List.length_cons, left_of_opened hv, List.length_nil]
      omega
    · have hleft := length_left_steps_le g v
      rw [List.filter_cons_of_neg hv]
      omega

/-- Every waiting failed step comes to one open repetition at most. -/
theorem length_opened_waves_le (k : Nat) (q : List Pending) :
    (((g.waves k q).map g.repeatVisit).filter g.opened).length + (g.repeats^[k] q).length ≤
      q.length := by
  induction k generalizing q with
  | zero => simp [waves]
  | succ k ih =>
    have hone : ((q.map g.repeatVisit).flatMap (·.planned.steps)).length = q.length := by
      rw [List.flatMap_map]
      simp [repeatVisit, redoAtom]
    have hwave := length_opened_add_left_le g (q.map g.repeatVisit) (by
      intro v hv
      obtain ⟨p, -, rfl⟩ := List.mem_map.1 hv
      exact List.cons_ne_nil _ _)
    rw [hone, List.flatMap_map] at hwave
    have hrest := ih (g.repeats q)
    rw [waves, List.map_append, List.filter_append, List.length_append, Function.iterate_succ_apply]
    rw [repeats] at hrest ⊢
    omega

theorem flatMap_steps_plannedVisits :
    g.plannedVisits.flatMap (·.planned.steps) = g.plan.atoms.flatMap (·.steps) := by
  rw [plannedVisits, List.flatMap_map]
  show g.plan.atoms.zipIdx.flatMap (fun x => x.1.steps) = _
  rw [← List.flatMap_map, List.zipIdx_map_fst]

/-- No more atoms remain than there are planned steps. -/
theorem length_remaining_le (hend : g.plan.onward = none) (hs : g.Sound g.plan.atoms.length)
    (hne : ∀ a ∈ g.plan.atoms, a.steps ≠ []) :
    (g.remaining t).length ≤ (g.plan.atoms.flatMap (·.steps)).length := by
  have hplanned := length_opened_add_left_le g g.plannedVisits (by
    intro v hv
    obtain ⟨x, hx, rfl⟩ := List.mem_map.1 hv
    exact hne x.1 (List.fst_mem_of_mem_zipIdx hx))
  have hwaves := length_opened_waves_le (g := g) g.progress.executedCount
    (g.plannedVisits.flatMap g.left)
  rw [flatMap_steps_plannedVisits] at hplanned
  rw [remaining_eq_price hend hs, List.length_map, length_price, way, List.filter_append,
    List.length_append, List.drop_zero, List.nil_append]
  omega

/-! ## As many as there are planned steps -/

/-- All planned steps were executed, in their order and with data that fail, and none was repeated. -/
structure Spoiled (g : Generator) : Prop where
  planned : ∀ v ∈ g.plannedVisits, ∃ es, g.progress.executed? v.key.id = some es ∧
    List.Forall₂ ExecutedStep.Spoils es v.planned.steps
  repeated : ∀ f ∈ g.progress.failedIds, g.progress.executed? (g.redoAtomId f) = none

end Generator

/-- The first planned steps still unmet, executed in their order with data that fail, are all to be
repeated. -/
theorem Tally.takeAll_failed {us : List (Nat × ProtoStep)} {es : List ExecutedStep}
    (h : List.Forall₂ (fun e u => ExecutedStep.Spoils e u.2) es us)
    (vs : List (Nat × ProtoStep)) (redo : List Redo) :
    ∃ qs, takeAll ⟨us ++ vs, redo⟩ es = ⟨vs, redo ++ qs⟩ ∧ qs.length = us.length := by
  induction h generalizing redo with
  | nil => exact ⟨[], by rw [List.append_nil]; rfl, rfl⟩
  | @cons e u es us hue _ ih =>
    have htake : take ⟨u :: us ++ vs, redo⟩ e = ⟨us ++ vs, redo ++ [⟨e.id, u.2⟩]⟩ := by
      simp [take, hue.executes, again, hue.failed]
    obtain ⟨qs, hqs, hlen⟩ := ih (redo ++ [⟨e.id, u.2⟩])
    refine ⟨⟨e.id, u.2⟩ :: qs, ?_, by rw [List.length_cons, List.length_cons, hlen]⟩
    rw [takeAll_cons, htake, hqs, List.append_assoc, List.singleton_append]

namespace Generator

variable {g : Generator} {v : Visit} {t : TelescopeState}

namespace Spoiled

theorem visit (h : g.Spoiled) (hv : v ∈ g.plannedVisits) :
    g.opened v = false ∧ (g.left v).length = v.planned.steps.length := by
  obtain ⟨es, hes, hfailed⟩ := h.planned v hv
  rw [← Tally.map_snd_unmet_start v.planned.steps, List.forall₂_map_right_iff] at hfailed
  obtain ⟨qs, hqs, hlen⟩ := Tally.takeAll_failed hfailed [] []
  rw [List.append_nil, List.nil_append] at hqs
  have hresolution : g.resolution v = Tally.resolution ⟨[], qs⟩ := by
    rw [resolution, Progress.resolve, hes, ← hqs]
    rfl
  have hcount : qs.length = v.planned.steps.length := by
    rw [hlen, ← List.length_map (f := (·.2)), Tally.map_snd_unmet_start]
  rw [opened, left, hresolution, ← hcount]
  cases qs with
  | nil => exact ⟨rfl, rfl⟩
  | cons q qs => exact ⟨rfl, List.length_map _⟩

theorem length_left (h : g.Spoiled) : (g.plannedVisits.flatMap g.left).length =
    (g.plan.atoms.flatMap (·.steps)).length := by
  rw [← flatMap_steps_plannedVisits, List.length_flatMap, List.length_flatMap]
  exact congrArg _ (List.map_congr_left fun v hv => (h.visit hv).2)

theorem opened_repeatVisit (h : g.Spoiled) {p : Pending}
    (hp : p ∈ g.plannedVisits.flatMap g.left) : g.opened (g.repeatVisit p) = true := by
  obtain ⟨v, -, hpv⟩ := List.mem_flatMap.1 hp
  have hfresh : g.resolution (g.repeatVisit p) = .fresh :=
    (Progress.resolve_eq_fresh_iff _ _ _).2 (h.repeated _ (failedId_of_mem_left hpv))
  rw [opened, hfresh]
  rfl

end Spoiled

/-- When all planned steps failed, as many atoms remain as there are planned steps. -/
theorem le_length_remaining (h : g.Spoiled) (hend : g.plan.onward = none)
    (hs : g.Sound g.plan.atoms.length) :
    (g.plan.atoms.flatMap (·.steps)).length ≤ (g.remaining t).length := by
  rw [remaining_eq_price hend hs, List.length_map, length_price, way, List.filter_append,
    List.length_append, List.drop_zero, List.nil_append, ← h.length_left]
  refine Nat.le_trans ?_ (Nat.le_add_left _ _)
  cases hcount : g.progress.executedCount with
  | zero =>
    have hnone := length_flatMap_left_le (g := g) g.plannedVisits
    rw [hcount, Nat.mul_zero] at hnone
    exact hnone.trans (Nat.zero_le _)
  | succ k =>
    have hopened : ((g.plannedVisits.flatMap g.left).map g.repeatVisit).filter g.opened =
        (g.plannedVisits.flatMap g.left).map g.repeatVisit := by
      rw [List.filter_eq_self]
      intro v hv
      obtain ⟨p, hp, rfl⟩ := List.mem_map.1 hv
      exact h.opened_repeatVisit hp
    rw [waves, List.map_append, List.filter_append, List.length_append, hopened, List.length_map]
    exact Nat.le_add_right _ _

end Generator

/-! ## A history in which every planned step failed -/

namespace Progress

theorem executed?_of_nodup {p : Progress} (h : (p.records.map (·.1)).Nodup) {id : AtomId}
    {es : List ExecutedStep} (hes : (id, es) ∈ p.records) : p.executed? id = some es := by
  obtain ⟨l, r, hl⟩ := List.append_of_mem hes
  rw [hl, List.map_append, List.map_cons, List.nodup_middle, List.nodup_cons, List.mem_append,
    not_or] at h
  have hother : ∀ rs : List (AtomId × List ExecutedStep), id ∉ rs.map (·.1) →
      rs.filter (fun r => r.1 = id) = [] := by
    intro rs hrs
    rw [List.filter_eq_nil_iff]
    exact fun r hr hid => hrs (of_decide_eq_true hid ▸ List.mem_map_of_mem hr)
  have hself : p.records.filter (fun r => r.1 = id) = [(id, es)] := by
    rw [hl, List.filter_append, hother l h.1.1, List.filter_cons_of_pos (by simp), hother r h.1.2]
    rfl
  rw [executed?, hself]
  exact congrArg some (List.flatMap_singleton _ _)

end Progress

namespace ExecutedStep

/-- The steps of an atom, all executed in their order with data that fail. -/
def spoiled (id : AtomId) (ps : List ProtoStep) : List ExecutedStep :=
  ps.zipIdx.map fun (p, j) =>
    ⟨(StepKey.planned id j).id, p.instrumentConfig, p.stepConfig, p.observeClass, true⟩

theorem spoils_spoiled (id : AtomId) (ps : List ProtoStep) :
    List.Forall₂ Spoils (spoiled id ps) ps := by
  have hsteps : List.Forall₂ Spoils (spoiled id ps) (ps.zipIdx.map Prod.fst) := by
    rw [spoiled, List.forall₂_map_left_iff, List.forall₂_map_right_iff]
    exact List.forall₂_same.2 fun x _ => ⟨decide_eq_true ⟨rfl, rfl, rfl⟩, rfl⟩
  rwa [List.zipIdx_map_fst] at hsteps

end ExecutedStep

/-- The history in which all atoms of a plan were executed, and the data of every step failed. -/
def History.spoiled (observation : String) (atoms : List ProtoAtom) : History :=
  ⟨atoms.zipIdx.map fun (a, i) =>
    let id := (AtomKey.planned observation .science i).id
    ⟨id, "visit", .science, a.steps.zipIdx.map fun (p, j) =>
      Generator.sampleRecord (StepKey.planned id j).id p .fail⟩⟩

namespace Engine

variable {e : Engine} {o : Observation} {s : Specification} {calculator : Calculator}

/-- The observation of which every planned science step was executed and failed. -/
def spoil (o : Observation) (s : Specification) : Observation :=
  { o with history := .spoiled o.id s.scienceAtoms }

theorem records_spoil (e : Engine) (o : Observation) (s : Specification) :
    (e.generator (spoil o s) .science (.finite s.scienceAtoms)).progress.records =
      s.scienceAtoms.zipIdx.map fun (a, i) =>
        ((AtomKey.planned o.id .science i).id,
          ExecutedStep.spoiled (AtomKey.planned o.id .science i).id a.steps) := by
  have hall : (spoil o s).history.atomsOf .science none = (spoil o s).history.atoms := by
    refine List.filter_eq_self.2 fun r hr => ?_
    obtain ⟨x, -, rfl⟩ := List.mem_map.1 hr
    rfl
  show ((spoil o s).history.atomsOf .science none).map Progress.entry = _
  rw [hall, spoil, History.spoiled, List.map_map]
  refine List.map_congr_left fun x _ => ?_
  show (_, _) = (_, _)
  rw [List.filter_eq_self.2]
  · rw [List.map_map]
    rfl
  · intro r hr
    obtain ⟨y, -, rfl⟩ := List.mem_map.1 hr
    rfl

theorem spoiled_spoil (hapart : AtomKey.Apart ((e.generator (spoil o s) .science
    (.finite s.scienceAtoms)).atomKeys s.scienceAtoms.length)) :
    (e.generator (spoil o s) .science (.finite s.scienceAtoms)).Spoiled := by
  obtain ⟨g, hg⟩ : ∃ g, g = e.generator (spoil o s) .science (.finite s.scienceAtoms) := ⟨_, rfl⟩
  have hrecords := records_spoil e o s
  rw [← hg] at hapart hrecords ⊢
  have hkey : ∀ i, (AtomKey.planned o.id .science i).id = g.atomId i := fun i => by rw [hg]; rfl
  have hplan : g.plan.atoms = s.scienceAtoms := by rw [hg]; rfl
  simp only [hkey] at hrecords
  have hids : g.progress.records.map (·.1) = (List.range s.scienceAtoms.length).map g.atomId := by
    rw [hrecords, List.map_map, List.range_eq_range', ← List.zipIdx_map_snd 0, List.map_map]
    rfl
  have hnodup : (g.progress.records.map (·.1)).Nodup := by
    rw [hids]
    refine List.nodup_range.map_on fun i hi j hj hij => ?_
    exact Generator.atomId_inj hapart (List.mem_range.1 hi) (List.mem_range.1 hj) hij
  refine ⟨?_, ?_⟩
  · intro v hv
    rw [Generator.plannedVisits, hplan] at hv
    obtain ⟨⟨a, i⟩, ha, rfl⟩ := List.mem_map.1 hv
    have hmem : (g.atomId i, ExecutedStep.spoiled (g.atomId i) a.steps) ∈ g.progress.records := by
      rw [hrecords]
      exact List.mem_map.2 ⟨(a, i), ha, rfl⟩
    exact ⟨_, Progress.executed?_of_nodup hnodup hmem, ExecutedStep.spoils_spoiled _ _⟩
  · intro f hf
    rw [Progress.executed?_eq_none_iff]
    intro r hr hid
    have hmem := List.mem_map_of_mem (f := Prod.fst) hr
    rw [hids] at hmem
    obtain ⟨i, hi, hri⟩ := List.mem_map.1 hmem
    exact Generator.atomId_ne_redoAtomId hapart (List.mem_range.1 hi) hf (hri.trans hid)

/-- A specification is accepted when nothing of it is over the limits. -/
theorem overLimit?_eq_none (hs : e.specification o calculator = .ok s) :
    Specification.build o calculator = .ok s ∧ e.overLimit? s = none := by
  unfold specification at hs
  split at hs
  · cases hs
  · rename_i s' hbuild
    cases hlimit : e.overLimit? s' with
    | some cause =>
      rw [hlimit] at hs
      cases hs
    | none =>
      rw [hlimit] at hs
      cases hs
      exact ⟨hbuild, hlimit⟩

/-- An accepted observation is projected within the limit. -/
theorem projectedAtoms_le (hs : e.specification o calculator = .ok s) :
    Specification.build o calculator = .ok s ∧ s.projectedAtoms ≤ e.limits.atoms := by
  obtain ⟨hbuild, hlimit⟩ := overLimit?_eq_none hs
  refine ⟨hbuild, Nat.le_of_not_lt fun hlt => ?_⟩
  rw [overLimit?, if_pos hlt] at hlimit
  cases hlimit

/-- The number of science atoms that remain of an observation is bounded, whatever was recorded. -/
def AtomsWithin (e : Engine) (o : Observation) (calculator : Calculator) (s : Specification)
    (n : Nat) : Prop :=
  ∀ h : History, h.DistinctFailures →
    AtomKey.Apart (e.atomKeys { o with history := h } s .science 0) →
    ∃ d, e.digest { o with history := h } calculator = .ok d ∧ d.execution.science.atomCount ≤ n

theorem atomsWithin_steps (hs : e.specification o calculator = .ok s) :
    e.AtomsWithin o calculator s (s.scienceAtoms.flatMap (·.steps)).length := by
  intro h hd hapart
  have hfilled := Specification.filled_of_build (projectedAtoms_le hs).1
  have hs' : e.specification { o with history := h } calculator = .ok s := hs
  obtain ⟨d, hdigest, -, hscience, -⟩ := digest_eq hs'
  refine ⟨d, hdigest, ?_⟩
  rw [hscience, SequenceDigest.atomCount_ofAtoms]
  exact Generator.length_remaining_le rfl (sound rfl hd hapart) (Specification.steps_ne_nil hfilled)

/-- No more atoms remain for science than there are exposures in the plan, those of the lamps included,
whatever was recorded.  That is the best bound: the limit of the engine bounds what remains, for every
history, exactly when it bounds that number.  It does where nothing is calibrated. -/
theorem atomCount_le_limit_iff (e : Engine) (o : Observation) (calculator : Calculator)
    (s : Specification) (hs : e.specification o calculator = .ok s)
    (hd : (spoil o s).history.DistinctFailures)
    (hapart : AtomKey.Apart (e.atomKeys (spoil o s) s .science 0)) :
    e.AtomsWithin o calculator s (s.science.exposureCount + 2 * s.calibrations) ∧
    (e.AtomsWithin o calculator s e.limits.atoms ↔
      s.science.exposureCount + 2 * s.calibrations ≤ e.limits.atoms) ∧
    (s.rules.arcsAndFlats = none →
      s.science.exposureCount + 2 * s.calibrations ≤ e.limits.atoms) := by
  obtain ⟨hbuild, hprojected⟩ := projectedAtoms_le hs
  have hsteps := Specification.length_steps (Specification.filled_of_build hbuild)
  have hwithin := atomsWithin_steps hs
  rw [hsteps] at hwithin
  refine ⟨hwithin, ⟨fun hlimit => ?_, fun hle h hdistinct hkeys => ?_⟩, fun hnone => ?_⟩
  · -- the history in which every planned step failed
    have hs' : e.specification (spoil o s) calculator = .ok s := hs
    obtain ⟨d, hdigest, -, hscience, -⟩ := digest_eq hs'
    obtain ⟨d', hdigest', hcount⟩ := hlimit _ hd hapart
    obtain rfl : d = d' := Except.ok.inj (hdigest.symm.trans hdigest')
    have hsound : (e.generator (spoil o s) .science (.finite s.scienceAtoms)).Sound
        s.scienceAtoms.length := sound rfl hd hapart
    have hremaining := Generator.le_length_remaining (t := telescope (spoil o s) .science)
      (spoiled_spoil hsound.apart) rfl hsound
    rw [hscience, SequenceDigest.atomCount_ofAtoms] at hcount
    exact hsteps ▸ hremaining.trans hcount
  · obtain ⟨d, hdigest, hcount⟩ := hwithin h hdistinct hkeys
    exact ⟨d, hdigest, hcount.trans hle⟩
  · have hcalibrations : s.calibrations = 0 := by rw [Specification.calibrations, hnone]; rfl
    rw [hcalibrations]
    exact (Nat.le_max_right _ _).trans hprojected

/-- One exposure with its calibration is projected as two atoms, and accepted where two are the limit.
When the lamps and the exposure fail, three atoms remain. -/
theorem not_atomsWithin_limit_slit :
    (⟨{ Limits.standard with atoms := 2 }, .standard⟩ : Engine).specification
      (Slit.observation 1 ⟨[]⟩) (Slit.calculator 1) = .ok (Slit.specification 1) ∧
    ¬(⟨{ Limits.standard with atoms := 2 }, .standard⟩ : Engine).AtomsWithin
      (Slit.observation 1 ⟨[]⟩) (Slit.calculator 1) (Slit.specification 1) 2 := by
  have hs : (⟨{ Limits.standard with atoms := 2 }, .standard⟩ : Engine).specification
      (Slit.observation 1 ⟨[]⟩) (Slit.calculator 1) = .ok (Slit.specification 1) := by decide +kernel
  obtain ⟨-, hlimit, -⟩ := atomCount_le_limit_iff ⟨{ Limits.standard with atoms := 2 }, .standard⟩
    (Slit.observation 1 ⟨[]⟩) (Slit.calculator 1) (Slit.specification 1) hs (by decide +kernel)
    (by decide +kernel)
  refine ⟨hs, fun hwithin => ?_⟩
  have hle := hlimit.1 hwithin
  revert hle
  decide +kernel

end Engine
end Observing
