import Observing.Proofs.Agreement
import Observing.Proofs.Ceiling

/-!
# What a sequence depends on

The atoms of the science sequence are a matter of what was executed under each of them, and of nothing
else that was recorded.  The acquisition is a matter of the latest visit.

* `History.executedUnder`      the executed steps of an atom, in recording order;
* `History.latestRecords`      the records of the latest visit;
* `GeneratedSequence.Agrees`   two windows show the same atoms, at whatever price;
* `Agrees.window`              windows of progress that agrees;
* `generator_congr`, `telescope_congr`   an acquisition looks at the latest visit only;
* `Engine.generate_agrees`     both for the windows that are returned.
-/

namespace Observing

/-! ## Histories -/

namespace History

/-- The executed steps that were recorded under an atom of a sequence, in recording order. -/
def executedUnder (h : History) (sequence : SequenceType) (id : AtomId) : List StepRecord :=
  ((h.atomsOf sequence none).filter fun a => a.id = id).flatMap fun a =>
    a.steps.filter (·.isExecuted)

/-- The records of the latest visit. -/
def latestRecords (h : History) : List AtomRecord := h.atoms.filter (inVisit h.latestVisit)

end History

theorem Progress.executed_ofHistory (h : History) (sequence : SequenceType) (id : AtomId) :
    (ofHistory h sequence .allVisits).executed id =
      (h.executedUnder sequence id).map .ofRecord := by
  rw [executed_eq, records_ofHistory, List.filter_map, List.flatMap_map, History.executedUnder,
    List.map_flatMap]
  rfl

/-- Progress in the latest visit is a matter of the records of that visit. -/
theorem Progress.ofHistory_latestVisit (h : History) (sequence : SequenceType) :
    (ofHistory h sequence .latestVisit).records =
      (h.latestRecords.filter fun a => a.sequenceType = sequence).map entry := by
  rw [records_ofHistory, History.latestRecords, List.filter_filter]
  rfl

/-- The executed steps of the visits that count, atom by atom. -/
theorem History.executedSteps_filter (h : History) (visit : Option String) :
    (h.executedSteps.filter fun x => inVisit visit x.1).map (·.2) =
      (h.atoms.filter (inVisit visit)).flatMap fun a => a.steps.filter (·.isExecuted) := by
  unfold executedSteps
  induction h.atoms with
  | nil => rfl
  | cons a as ih =>
    rw [List.flatMap_cons, List.filter_append, List.map_append, ih]
    by_cases ha : inVisit visit a = true
    · rw [List.filter_cons_of_pos ha, List.flatMap_cons]
      simp [List.filter_map, Function.comp_def, ha]
    · rw [List.filter_cons_of_neg ha]
      simp [List.filter_map, Function.comp_def, ha]

theorem TelescopeState.ofHistory_latestVisit (h : History) : ofHistory h .latestVisit =
    initial.behind (h.latestRecords.flatMap fun a => a.steps.filter (·.isExecuted)) := by
  rw [ofHistory_eq, VisitScope.visit, History.executedSteps_filter]
  rfl

/-! ## Windows -/

/-- Two windows show the same atoms, at whatever price, and both or neither has more. -/
structure GeneratedSequence.Agrees (w w' : GeneratedSequence) : Prop where
  nextAtom : w.nextAtom.map Atom.due = w'.nextAtom.map Atom.due
  possibleFuture : w.possibleFuture.map Atom.due = w'.possibleFuture.map Atom.due
  hasMore : w.hasMore = w'.hasMore

theorem Progress.Agrees.window {g : Generator} {p : Progress} (h : p.Agrees g.progress)
    (hf : g.plan.Filled) (hend : g.plan.isUnbounded = false) (t t' : TelescopeState) (limit : Nat) :
    ((g.progressed p).window t' limit).Agrees (g.window t limit) := by
  have htake : ∀ n, ((g.progressed p).take n (.start t')).1.map (·.atom.due) =
      (g.take n (.start t)).1.map (·.atom.due) := fun n => h.take hf hend n ⟨0, []⟩ t t'
  have hatoms : ((g.progressed p).window t' limit).atoms.map Atom.due =
      (g.window t limit).atoms.map Atom.due := by
    rw [Generator.window_atoms, Generator.window_atoms, List.map_map, List.map_map]
    exact htake (limit + 1)
  refine ⟨?_, ?_, ?_⟩
  · rw [Generator.nextAtom_window, Generator.nextAtom_window, ← List.head?_map, hatoms,
      List.head?_map]
  · rw [Generator.possibleFuture_window, Generator.possibleFuture_window, List.map_tail, hatoms,
      List.map_tail]
  · have hlen := congrArg List.length (htake (limit + 2))
    rw [List.length_map, List.length_map] at hlen
    rw [Generator.window_hasMore, Generator.window_hasMore, hlen]

/-! ## The engine -/

namespace Engine

variable {e : Engine} {o : Observation} {h h' : History} {plan : AtomPlan}

theorem generator_congr (hlatest : h'.latestRecords = h.latestRecords) :
    e.generator (o.withHistory h') .acquisition plan =
      e.generator (o.withHistory h) .acquisition plan := by
  have hprogress : Progress.ofHistory h' .acquisition .latestVisit =
      Progress.ofHistory h .acquisition .latestVisit := by
    refine congrArg Progress.mk ?_
    have hrecords := Progress.ofHistory_latestVisit h' .acquisition
    rw [hlatest, ← Progress.ofHistory_latestVisit] at hrecords
    exact hrecords
  exact congrArg (Generator.mk o.id .acquisition plan · e.costs) hprogress

theorem telescope_congr (hlatest : h'.latestRecords = h.latestRecords) :
    telescope (o.withHistory h') .acquisition = telescope (o.withHistory h) .acquisition := by
  show TelescopeState.ofHistory h' .latestVisit = TelescopeState.ofHistory h .latestVisit
  rw [TelescopeState.ofHistory_latestVisit, TelescopeState.ofHistory_latestVisit, hlatest]

/-- The specification of an observation is not a matter of its history. -/
theorem specification_withHistory (e : Engine) (o : Observation) (calculator : Calculator)
    (h : History) : e.specification (o.withHistory h) calculator = e.specification o calculator := rfl

/-- The first `n` searches for science atoms come to something. -/
def SearchesScience (e : Engine) (o : Observation) (s : Specification) (n : Nat) : Prop :=
  (e.science o s).Searches n (.start (telescope o .science))

/-- The first `n` searches for atoms of the acquisition come to something, if there is one. -/
def SearchesAcquisition (e : Engine) (o : Observation) (s : Specification) (n : Nat) : Prop :=
  ∀ plan ∈ (Plans.ofSpecification s).acquisition,
    (e.generator o .acquisition plan).Searches n (.start (telescope o .acquisition))

/-- What a sequence depends on.  Where the same steps were executed under each science atom, the science
sequence shows the same atoms, at whatever price; it has more behind them on both sides or on none, and
its searches end on both sides or on none.  Where the latest visit has the same records, the
acquisition is the same with all its times, and its searches end on both sides or on none. -/
theorem generate_agrees (e : Engine) (o : Observation) (calculator : Calculator)
    (s : Specification) (h h' : History) (limit : Option Nat)
    (hs : e.specification o calculator = .ok s) :
    ((∀ id, (h'.executedUnder .science id).map ExecutedStep.ofRecord =
        (h.executedUnder .science id).map ExecutedStep.ofRecord) →
      (∀ config config', e.generate (o.withHistory h) calculator limit = .ok config →
        e.generate (o.withHistory h') calculator limit = .ok config' →
          config'.science.Agrees config.science) ∧
      ∀ n, e.SearchesScience (o.withHistory h') s n ↔ e.SearchesScience (o.withHistory h) s n) ∧
    (h'.latestRecords = h.latestRecords →
      (∀ config config', e.generate (o.withHistory h) calculator limit = .ok config →
        e.generate (o.withHistory h') calculator limit = .ok config' →
          config'.acquisition = config.acquisition) ∧
      ∀ n, e.SearchesAcquisition (o.withHistory h') s n ↔
        e.SearchesAcquisition (o.withHistory h) s n) := by
  have hbefore := (specification_withHistory e o calculator h).trans hs
  have hbehind := (specification_withHistory e o calculator h').trans hs
  refine ⟨fun hexecuted => ?_, fun hlatest => ⟨fun config config' hconfig hconfig' => ?_, fun n => ?_⟩⟩
  · have hagrees : (Progress.ofHistory h' .science .allVisits).Agrees
        (e.science (o.withHistory h) s).progress := by
      intro id
      show _ = (Progress.ofHistory h .science .allVisits).executed id
      rw [Progress.executed_ofHistory, Progress.executed_ofHistory, hexecuted id]
    have hfilled : (e.science (o.withHistory h) s).plan.Filled :=
      Specification.filled_of_get? (projectedAtoms_le hs).1 .science rfl
    refine ⟨fun config config' hconfig hconfig' => ?_,
      fun n => hagrees.searches hfilled n ⟨0, []⟩ _ _⟩
    rw [science_of_generate hbefore hconfig, science_of_generate hbehind hconfig']
    exact hagrees.window hfilled rfl _ _ _
  · have hwindow := get?_of_generate hbefore hconfig .acquisition
    have hwindow' := get?_of_generate hbehind hconfig' .acquisition
    calc config'.acquisition
        = e.generateType (o.withHistory h') (Plans.ofSpecification s) .acquisition
            (e.limits.future limit) := hwindow'
      _ = e.generateType (o.withHistory h) (Plans.ofSpecification s) .acquisition
            (e.limits.future limit) := by
          simp only [generateType, generator_congr hlatest, telescope_congr hlatest]
      _ = config.acquisition := hwindow.symm
  · simp only [SearchesAcquisition, generator_congr hlatest, telescope_congr hlatest]

end Engine

/-! ## One history in two versions -/

namespace Slit

/-- Both lamps are recorded together. -/
def together : History :=
  ⟨[⟨lamps.id, "v-1", .science, lamps.steps.map (·.finished .pass)⟩, acquisition]⟩

/-- Each lamp is recorded in a visit of its own, and the second one after an acquisition. -/
def apart : History :=
  ⟨[⟨lamps.id, "v-0", .science, (lamps.steps.take 1).map (·.finished .pass)⟩,
    ⟨acquired.id, "v-1", .acquisition, (acquired.steps.take 1).map (·.finished .fail)⟩,
    ⟨lamps.id, "v-1", .science, (lamps.steps.drop 1).map (·.finished .pass)⟩, acquisition]⟩

theorem executedUnder_apart (id : AtomId) :
    apart.executedUnder .science id = together.executedUnder .science id := by
  have hexecuted : ∀ steps : List Step, (steps.map (·.finished .pass)).filter (·.isExecuted) =
      steps.map (·.finished .pass) := fun steps => executed_of_carries (carries_finished steps)
  have hapart : apart.atomsOf .science none =
      [⟨lamps.id, "v-0", .science, (lamps.steps.take 1).map (·.finished .pass)⟩,
        ⟨lamps.id, "v-1", .science, (lamps.steps.drop 1).map (·.finished .pass)⟩] := rfl
  have htogether : together.atomsOf .science none =
      [⟨lamps.id, "v-1", .science, lamps.steps.map (·.finished .pass)⟩] := rfl
  rw [History.executedUnder, History.executedUnder, hapart, htogether]
  by_cases hid : lamps.id = id
  · rw [List.filter_cons_of_pos (by simpa using hid), List.filter_cons_of_pos (by simpa using hid),
      List.filter_cons_of_pos (by simpa using hid), List.flatMap_cons, List.flatMap_cons,
      List.flatMap_cons, hexecuted, hexecuted, hexecuted, List.filter_nil, List.flatMap_nil,
      List.append_nil, List.append_nil, ← List.map_append, List.take_append_drop]
  · rw [List.filter_cons_of_neg (by simpa using hid), List.filter_cons_of_neg (by simpa using hid),
      List.filter_cons_of_neg (by simpa using hid)]

end Slit

/-- How the lamps were recorded changes neither the science atoms nor the acquisition. -/
theorem Engine.generate_agrees_slit :
    ∃ config config', (default : Engine).generate
        ((Slit.observation 4 ⟨[]⟩).withHistory Slit.together) (Slit.calculator 4) none = .ok config ∧
      (default : Engine).generate
        ((Slit.observation 4 ⟨[]⟩).withHistory Slit.apart) (Slit.calculator 4) none = .ok config' ∧
      Slit.apart.atoms.length = 4 ∧ Slit.together.atoms.length = 2 ∧
      config'.science.Agrees config.science ∧ config'.acquisition = config.acquisition := by
  have hs : (default : Engine).specification (Slit.observation 4 ⟨[]⟩) (Slit.calculator 4) =
      .ok (Slit.specification 4) := by decide +kernel
  have hgenerate : ∀ h, ∃ config, (default : Engine).generate
      ((Slit.observation 4 ⟨[]⟩).withHistory h) (Slit.calculator 4) none = .ok config := by
    intro h
    have hbehind := (Engine.specification_withHistory default (Slit.observation 4 ⟨[]⟩)
      (Slit.calculator 4) h).trans hs
    exact Engine.generate_ok hbehind none
  obtain ⟨config, hconfig⟩ := hgenerate Slit.together
  obtain ⟨config', hconfig'⟩ := hgenerate Slit.apart
  obtain ⟨hscience, hacquisition⟩ := Engine.generate_agrees default (Slit.observation 4 ⟨[]⟩)
    (Slit.calculator 4) (Slit.specification 4) Slit.together Slit.apart none hs
  refine ⟨config, config', hconfig, hconfig', rfl, rfl, ?_, ?_⟩
  · exact (hscience fun id => by rw [Slit.executedUnder_apart]).1 _ _ hconfig hconfig'
  · exact (hacquisition (by rfl)).1 _ _ hconfig hconfig'

end Observing
