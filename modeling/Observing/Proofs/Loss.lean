import Observing.Proofs.Balance
import Observing.Proofs.Extended

/-!
# Exposures that are lost

An observation is worked on from the beginning: at any time a step of any atom of the window may be
recorded, and anything may have become of it.  When its science sequence is reported as exhausted, the
exposures accepted in a configuration are those planned in it, but for failed steps of one atom that
share an identity.

* `Generator.mem_take`        what a window shows are open atoms of a path;
* `Engine.Worked`             the histories that come about;
* `Engine.generator_worked`   what such a history is to the generator;
* `Engine.planned_le_accepted_iff`         when every planned exposure is accepted;
* `Engine.planned_le_accepted_iff_twins`   two equal exposures of one atom, of which one is lost.
-/

namespace Observing

namespace Generator

variable {g : Generator}

/-! ## What a window shows -/

theorem mem_take {n : Nat} {s : Place} {t : TelescopeState} {x : Emission}
    (h : x ∈ (g.take n (s.at t)).1) :
    ∃ us s' v t', g.Path s us s' ∧ v ∈ us ∧ g.opened v = true ∧ x = g.emission t' v := by
  induction n generalizing s t with
  | zero => cases h
  | succ n ih =>
    cases hadvance : g.advance (s.at t) with
    | none =>
      rw [take_succ_none hadvance] at h
      cases h
    | some r =>
      obtain ⟨y, next⟩ := r
      rw [take_succ_some hadvance] at h
      obtain ⟨us, s₁, v, s₂, hp, -, hl, hv, rfl, rfl⟩ := turns_some hadvance
      have hpath := hp.append (.single hl)
      rcases List.mem_cons.1 h with rfl | h
      · exact ⟨us ++ [v], s₂, v, t, hpath, List.mem_append_right _ (List.mem_singleton_self v), hv, rfl⟩
      · obtain ⟨ws, s', w, t', hp', hw, hrest⟩ := ih h
        exact ⟨(us ++ [v]) ++ ws, s', w, t', hpath.append hp', List.mem_append_right _ hw, hrest⟩

theorem mem_stepsOf {t : TelescopeState} {v : Visit} {s : Step} (h : s ∈ g.stepsOf t v) :
    ∃ x ∈ g.todo v, ∃ estimate, s = Step.ofProto x.1 estimate x.2 := by
  obtain ⟨⟨x, estimate⟩, hx, rfl⟩ := List.mem_map.1 h
  exact ⟨x, (List.of_mem_zip hx).1, estimate, rfl⟩

theorem advance_of_exhausted {t : TelescopeState} {limit : Nat}
    (h : (g.window t limit).state = .exhausted) : g.advance (.start t) = none := by
  have hnil := (window_atoms_eq_nil t limit).2 h
  cases hadvance : g.advance (.start t) with
  | none => rfl
  | some r =>
    rw [window_atoms, take_succ_some hadvance] at hnil
    cases hnil

end Generator

/-! ## Steps that are recorded -/

/-- A step is recorded as it was handed out; anything may have become of it. -/
structure StepRecord.Records (r : StepRecord) (s : Step) : Prop where
  id : r.id = s.id
  instrumentConfig : r.instrumentConfig = s.instrumentConfig
  stepConfig : r.stepConfig = s.stepConfig
  observeClass : r.observeClass = s.observeClass

/-- The configuration of a recorded step. -/
def StepRecord.configuration (r : StepRecord) : Configuration :=
  ⟨r.instrumentConfig, r.stepConfig, r.observeClass⟩

/-- The number of executed science steps of a configuration whose data did not fail. -/
def History.accepted (h : History) (c : Configuration) : Nat :=
  h.executedSteps.countP fun (a, r) =>
    a.sequenceType = .science && !r.hasFailedDataset && r.configuration = c

/-- The number of steps of a configuration in the science plan. -/
def Specification.planned (s : Specification) (c : Configuration) : Nat :=
  plannedIn c ((Plans.ofSpecification s).science.atoms.flatMap (·.steps))

theorem History.accepted_eq (h : History) (c : Configuration) : h.accepted c =
    acceptedIn c ((Progress.ofHistory h .science .allVisits).records.flatMap (·.2)) := by
  rw [Progress.records_ofHistory, List.flatMap_map]
  unfold accepted executedSteps atomsOf acceptedIn
  induction h.atoms with
  | nil => rfl
  | cons a as ih =>
    rw [List.flatMap_cons, List.countP_append, ih]
    by_cases ha : a.sequenceType = .science
    · rw [List.filter_cons_of_pos (by simp [ha, VisitScope.visit, inVisit]), List.flatMap_cons,
        List.countP_append, Progress.entry, List.countP_map, List.countP_map]
      simp only [Function.comp_def, ha, decide_true, Bool.true_and]
      rfl
    · rw [List.filter_cons_of_neg (by simp [ha]), List.countP_map]
      simp [Function.comp_def, ha]

/-- The observation with another history. -/
def Observation.withHistory (o : Observation) (history : History) : Observation := { o with history }

namespace Engine

variable {e : Engine} {o : Observation} {calculator : Calculator} {s : Specification} {h : History}

/-- The generator of the science sequence of an observation. -/
def science (e : Engine) (o : Observation) (s : Specification) : Generator :=
  e.generator o .science (Plans.ofSpecification s).science

/-- The places of the steps that arise for the science sequence of an observation. -/
def stepKeys (e : Engine) (o : Observation) (s : Specification) : List StepKey :=
  (e.science o s).stepKeys

/-- The histories that come about when steps of the science atoms that are returned are recorded one
after another under the identity of their atom, in any order and with any outcome. -/
inductive Worked (e : Engine) (o : Observation) (calculator : Calculator) : History → Prop
  | start : Worked e o calculator ⟨[]⟩
  | record {h h' : History} {limit : Option Nat} {config : ExecutionConfig} {a : Atom} {s : Step}
    {r : StepRecord} {visit : String} :
    Worked e o calculator h → e.generate (o.withHistory h) calculator limit = .ok config →
      a ∈ config.science.atoms → s ∈ a.steps → r.Records s →
      History.Adds ⟨a.id, visit, .science, [r]⟩ h h' → Worked e o calculator h'

theorem onward_science (e : Engine) (o : Observation) (s : Specification) :
    (e.science o s).plan.onward = none := rfl

theorem science_of_generate {limit : Option Nat} {config : ExecutionConfig}
    (hs : e.specification o calculator = .ok s)
    (hconfig : e.generate o calculator limit = .ok config) :
    config.science = (e.science o s).window (telescope o .science) (e.limits.future limit) := by
  unfold generate at hconfig
  rw [hs] at hconfig
  cases hconfig
  rfl

/-- To the generator, such a history is one record after another. -/
theorem generator_worked (hs : e.specification o calculator = .ok s)
    (hworked : e.Worked o calculator h) : (e.science (o.withHistory h) s).Worked := by
  induction hworked with
  | start => exact .start rfl
  | @record h h' limit config a x r visit _ hconfig ha hx hr hadds ih =>
    rw [science_of_generate (o := o.withHistory h) hs hconfig, Generator.window_atoms] at ha
    obtain ⟨emission, hemission, rfl⟩ := List.mem_map.1 ha
    obtain ⟨us, place, v, t, hpath, hv, hopen, rfl⟩ :=
      Generator.mem_take (s := ⟨0, []⟩) hemission
    obtain ⟨y, hy, estimate, rfl⟩ := Generator.mem_stepsOf hx
    have hgrows : (e.science (o.withHistory h) s).progress.Grows
        (Progress.ofHistory h' .science .allVisits) v.key.id
        (Progress.entry ⟨v.key.id, visit, .science, [r]⟩).2 := hadds.grows
    refine .attempt ih ⟨hpath.arises (onward_science e _ s) hv, hopen, ⟨y, hy, ?_⟩, ?_⟩ hgrows
    · intro x hx
      obtain ⟨r', hr', rfl⟩ := List.mem_map.1 hx
      have hsame : r' = r := List.mem_singleton.1 (List.mem_of_mem_filter hr')
      subst hsame
      refine ⟨hr.id, ?_⟩
      rw [ExecutedStep.configuration, ProtoStep.configuration, Configuration.mk.injEq]
      exact ⟨hr.instrumentConfig, hr.stepConfig, hr.observeClass⟩
    · rw [Progress.entry, List.length_map]
      exact List.length_filter_le _ _

theorem exhausted_science {limit : Option Nat} {config : ExecutionConfig}
    (hs : e.specification o calculator = .ok s) (hworked : e.Worked o calculator h)
    (hconfig : e.generate (o.withHistory h) calculator limit = .ok config)
    (hexhausted : config.science.state = .exhausted)
    (hd : (e.science (o.withHistory h) s).Distinct) :
    (e.science (o.withHistory h) s).Regular ∧
      ∀ v, (e.science (o.withHistory h) s).Arises v →
        (e.science (o.withHistory h) s).opened v = false := by
  have hend := onward_science e (o.withHistory h) s
  have hr := (generator_worked hs hworked).regular hend hd
  rw [science_of_generate (o := o.withHistory h) hs hconfig] at hexhausted
  have hnone := Generator.advance_of_exhausted hexhausted
  exact ⟨hr, fun v hv => Generator.closed_of_exhausted hend (hr.sound hd) hnone hv⟩

/-- When the science sequence is exhausted, what is accepted in a configuration and what shares its
repetition with another step make up what was planned.  Every planned exposure is accepted exactly when
no atom leaves failed steps behind that share an identity. -/
theorem planned_le_accepted_iff (e : Engine) (o : Observation) (calculator : Calculator)
    (s : Specification) (h : History) (limit : Option Nat) (config : ExecutionConfig)
    (hs : e.specification o calculator = .ok s) (hworked : e.Worked o calculator h)
    (hconfig : e.generate (o.withHistory h) calculator limit = .ok config)
    (hexhausted : config.science.state = .exhausted)
    (hatoms : AtomKey.Apart (e.atomKeys (o.withHistory h) s .science 0))
    (hsteps : StepKey.Apart (e.stepKeys (o.withHistory h) s)) (c : Configuration) :
    h.accepted c + (e.science (o.withHistory h) s).lost c = s.planned c ∧
      (s.planned c ≤ h.accepted c ↔ ∀ v ∈ (e.science (o.withHistory h) s).plannedVisits,
        ((e.science (o.withHistory h) s).failedIn c v).Nodup) := by
  have hd : (e.science (o.withHistory h) s).Distinct := ⟨hatoms, hsteps⟩
  obtain ⟨hr, hclosed⟩ := exhausted_science hs hworked hconfig hexhausted hd
  have hsum : h.accepted c + (e.science (o.withHistory h) s).lost c = s.planned c := by
    rw [History.accepted_eq]
    exact Generator.accepted_add_lost (onward_science e _ s) hr hd hclosed c
  refine ⟨hsum, ?_⟩
  rw [← Generator.lost_eq_zero_iff]
  omega

/-- No exposure of a configuration is lost that no atom has twice. -/
theorem accepted_of_distinct {limit : Option Nat} {config : ExecutionConfig}
    (hs : e.specification o calculator = .ok s) (hworked : e.Worked o calculator h)
    (hconfig : e.generate (o.withHistory h) calculator limit = .ok config)
    (hexhausted : config.science.state = .exhausted)
    (hd : (e.science (o.withHistory h) s).Distinct) {c : Configuration}
    (hdistinct : ∀ v ∈ (e.science (o.withHistory h) s).plannedVisits,
      plannedIn c v.planned.steps ≤ 1) : h.accepted c = s.planned c := by
  obtain ⟨hr, hclosed⟩ := exhausted_science hs hworked hconfig hexhausted hd
  have hlost := Generator.lost_eq_zero_of_distinct hr hclosed hdistinct
  have hsum := Generator.accepted_add_lost (onward_science e _ s) hr hd hclosed c
  rw [hlost, Nat.add_zero] at hsum
  rw [History.accepted_eq]
  exact hsum

end Engine

/-! ## Two equal exposures -/

/-- The history after a step of the next atom was finished, with the verdict on its data. -/
def Engine.finish (e : Engine) (o : Observation) (calculator : Calculator) (h : History) (i : Nat)
    (verdict : QaState) : History :=
  match e.generate (o.withHistory h) calculator none with
  | .error _ => h
  | .ok config =>
    match config.science.nextAtom with
    | none => h
    | some a =>
      match a.steps[i]? with
      | none => h
      | some s => h.push ⟨a.id, "v", .science, [s.finished verdict]⟩

theorem Engine.Worked.finish {e : Engine} {o : Observation} {calculator : Calculator} {h : History}
    (hworked : e.Worked o calculator h) (i : Nat) (verdict : QaState) :
    e.Worked o calculator (e.finish o calculator h i verdict) := by
  unfold Engine.finish
  cases hconfig : e.generate (o.withHistory h) calculator none with
  | error _ => exact hworked
  | ok config =>
    dsimp only
    cases ha : config.science.nextAtom with
    | none => exact hworked
    | some a =>
      dsimp only
      cases hs : a.steps[i]? with
      | none => exact hworked
      | some s =>
        have hmem : a ∈ config.science.atoms := by
          rw [GeneratedSequence.atoms, ha]
          exact List.mem_cons_self
        exact hworked.record hconfig hmem (List.mem_of_getElem? hs) ⟨rfl, rfl, rfl, rfl⟩ (.push h)

namespace Twins

/-- Two equal exposures in one atom. -/
def observation : Observation := { Short.observation ⟨[]⟩ with
  mode := some (.gmosNorthImaging ⟨[.rPrime], ⟨none, none, none, none, none⟩, some [0, 0]⟩) }

def specification : Specification :=
  .ofMode "o" none ⟨⟨.ofSeconds 10, 1⟩, ⟨.ofSeconds 60, 2⟩⟩ (.gmosNorthImaging
    ⟨[.rPrime], ⟨none, none, none, none, none⟩, some [0, 0]⟩)

/-- The second step fails; what is then left of the atom fails under the same identity; the one
repetition that comes of both succeeds. -/
def history : History :=
  let finish := (default : Engine).finish observation Short.calculator
  finish (finish (finish ⟨[]⟩ 1 .fail) 0 .fail) 0 .pass

/-- The configuration of both exposures. -/
def configuration : Configuration :=
  (((Plans.ofSpecification specification).science.atoms.flatMap ProtoAtom.steps).head
    (by decide +kernel)).configuration

end Twins

/-- Of two equal exposures of one atom that fail under the same identity one is lost: the sequence is
exhausted with one of two accepted. -/
theorem Engine.planned_le_accepted_iff_twins :
    (default : Engine).Worked Twins.observation Short.calculator Twins.history ∧
    (∃ config, (default : Engine).generate (Twins.observation.withHistory Twins.history)
      Short.calculator none = .ok config ∧ config.science.state = .exhausted) ∧
    Twins.specification.planned Twins.configuration = 2 ∧
    Twins.history.accepted Twins.configuration = 1 := by
  have hworked : (default : Engine).Worked Twins.observation Short.calculator Twins.history :=
    ((Engine.Worked.start.finish 1 .fail).finish 0 .fail).finish 0 .pass
  have hgenerate : ∃ config, (default : Engine).generate
      (Twins.observation.withHistory Twins.history) Short.calculator none = .ok config ∧
      config.science.state = .exhausted := ⟨_, rfl, by decide +kernel⟩
  refine ⟨hworked, hgenerate, ?_⟩
  obtain ⟨config, hconfig, hexhausted⟩ := hgenerate
  obtain ⟨hsum, -⟩ := Engine.planned_le_accepted_iff default Twins.observation Short.calculator
    Twins.specification Twins.history none config (by decide +kernel) hworked hconfig hexhausted
    (by decide +kernel) (by decide +kernel) Twins.configuration
  have hplanned : Twins.specification.planned Twins.configuration = 2 := by decide +kernel
  have hlost : ((default : Engine).science (Twins.observation.withHistory Twins.history)
      Twins.specification).lost Twins.configuration = 1 := by decide +kernel
  refine ⟨hplanned, ?_⟩
  rw [hplanned, hlost] at hsum
  omega

end Observing
