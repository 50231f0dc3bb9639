import Observing.Proofs.Agreement
import Observing.Proofs.Ceiling

/-!
# Records in which nothing was executed

A step that was begun and not finished, or that was aborted, is recorded, but nothing came of it.
Wherever such a record stands in a history, the same atoms are returned at the same price, and the same
is charged.

* `AtomRecord.Idle`      no step of the record was executed;
* `Progress.Idles`       the progress with such a record more;
* `Idles.take`           the same atoms are yielded at the same price;
* `Idles.window`, `Idles.remaining`   so windows show the same and the same remains;
* `Engine.digest_idle`   the same for what is returned of an observation.
-/

namespace Observing

/-- No step of the record was executed. -/
def AtomRecord.Idle (r : AtomRecord) : Prop := ∀ x ∈ r.steps, x.isExecuted = false

theorem AtomRecord.Idle.filter_eq_nil {r : AtomRecord} (h : r.Idle) :
    r.steps.filter (·.isExecuted) = [] :=
  List.filter_eq_nil_iff.2 fun x hx => by rw [h x hx]; exact Bool.false_ne_true

/-! ## Histories -/

namespace History

variable {before after : List AtomRecord} {r : AtomRecord}

theorem executedSteps_idle (hr : r.Idle) :
    executedSteps ⟨before ++ r :: after⟩ = executedSteps ⟨before ++ after⟩ := by
  rw [executedSteps, executedSteps, List.flatMap_append, List.flatMap_append, List.flatMap_cons,
    hr.filter_eq_nil]
  rfl

/-- The latest visit stays the same, or there was none. -/
def KeepsVisit (before after : List AtomRecord) (r : AtomRecord) : Prop :=
  before ++ after = [] ∨
    latestVisit ⟨before ++ r :: after⟩ = latestVisit ⟨before ++ after⟩

/-- What counts of the records that were there goes on counting. -/
theorem inVisit_idle (hvisit : KeepsVisit before after r) (scope : VisitScope) {a : AtomRecord}
    (ha : a ∈ before ++ after) : inVisit (scope.visit ⟨before ++ r :: after⟩) a =
      inVisit (scope.visit ⟨before ++ after⟩) a := by
  cases scope with
  | allVisits => rfl
  | latestVisit =>
    rcases hvisit with hnil | hvisit
    · rw [hnil] at ha
      cases ha
    · exact congrArg (inVisit · a) hvisit

theorem telescope_idle (hr : r.Idle) (hvisit : KeepsVisit before after r) (scope : VisitScope) :
    TelescopeState.ofHistory ⟨before ++ r :: after⟩ scope =
      TelescopeState.ofHistory ⟨before ++ after⟩ scope := by
  unfold TelescopeState.ofHistory
  rw [executedSteps_idle hr]
  refine congrArg _ (List.filter_congr fun x hx => ?_)
  obtain ⟨a, ha, hxa⟩ := List.mem_flatMap.1 hx
  obtain ⟨_, -, rfl⟩ := List.mem_map.1 hxa
  exact inVisit_idle hvisit scope ha

end History

/-! ## Progress -/

namespace Progress

variable {p q : Progress}

/-- The progress with a record more in which nothing was executed. -/
structure Idles (p q : Progress) : Prop where
  agrees : q.Agrees p
  failures : q.failures = p.failures
  length : q.records.length ≤ p.records.length + 1

theorem Idles.refl (p : Progress) : p.Idles p := ⟨fun _ => rfl, rfl, Nat.le_succ _⟩

theorem idles_insert (before after : List (AtomId × List ExecutedStep)) (id : AtomId) :
    Idles ⟨before ++ after⟩ ⟨before ++ (id, []) :: after⟩ := by
  refine ⟨fun a => ?_, ?_, ?_⟩
  · rw [executed_eq, executed_eq, List.filter_append, List.filter_append, List.flatMap_append,
      List.flatMap_append]
    by_cases ha : id = a
    · rw [List.filter_cons_of_pos (by simpa using ha), List.flatMap_cons]
      rfl
    · rw [List.filter_cons_of_neg (by simpa using ha)]
  · rw [failures, failures, List.flatMap_append, List.flatMap_append, List.flatMap_cons]
    rfl
  · rw [List.length_append, List.length_append, List.length_cons, Nat.add_assoc]

theorem idles_ofHistory {before after : List AtomRecord} {r : AtomRecord} (hr : r.Idle)
    (hvisit : History.KeepsVisit before after r) (sequence : SequenceType) (scope : VisitScope) :
    (ofHistory ⟨before ++ after⟩ sequence scope).Idles
      (ofHistory ⟨before ++ r :: after⟩ sequence scope) := by
  have hsame : (before ++ after).filter (fun a => a.sequenceType = sequence &&
      History.inVisit (scope.visit ⟨before ++ r :: after⟩) a) =
      (before ++ after).filter (fun a => a.sequenceType = sequence &&
        History.inVisit (scope.visit ⟨before ++ after⟩) a) :=
    List.filter_congr fun a ha => by rw [History.inVisit_idle hvisit scope ha]
  have hentry : entry r = (r.id, []) := by
    rw [entry, hr.filter_eq_nil]
    rfl
  have hold : ofHistory ⟨before ++ after⟩ sequence scope =
      ⟨((before ++ after).filter fun a => a.sequenceType = sequence &&
        History.inVisit (scope.visit ⟨before ++ r :: after⟩) a).map entry⟩ := by
    rw [hsame]
    rfl
  have hnew : ofHistory ⟨before ++ r :: after⟩ sequence scope =
      ⟨((before ++ r :: after).filter fun a => a.sequenceType = sequence &&
        History.inVisit (scope.visit ⟨before ++ r :: after⟩) a).map entry⟩ := rfl
  rw [hold, hnew, List.filter_append, List.filter_append, List.filter_cons, List.map_append,
    List.map_append]
  split
  · rw [List.map_cons, hentry]
    exact idles_insert _ _ _
  · exact .refl _

end Progress

/-! ## Generation -/

namespace Progress.Idles

open Generator

variable {g : Generator} {p : Progress} {m limit : Nat}

theorem failedIds (h : g.progress.Idles p) : p.failedIds = g.progress.failedIds :=
  congrArg (List.map Prod.snd) h.failures

theorem reach_le (h : g.progress.Idles p) (m : Nat) : (g.progressed p).reach m ≤ g.reach (m + 1) := by
  have hlen := h.length
  unfold reach
  show (if g.plan.isUnbounded = true then p.records.length + m + 1 else g.plan.atoms.length) ≤ _
  split <;> omega

theorem sound (h : g.progress.Idles p) (hs : g.Sound (g.reach (m + 1))) :
    (g.progressed p).Sound ((g.progressed p).reach m) := by
  have hkeys : (g.progressed p).atomKeys ((g.progressed p).reach m) =
      g.atomKeys ((g.progressed p).reach m) :=
    congrArg (_ ++ List.map _ ·) h.failedIds
  refine ⟨?_, ?_⟩
  · rw [hkeys]
    exact (hs.mono (h.reach_le m)).apart
  · intro a b f ha hb
    have hfailures : (g.progressed p).progress.failures = g.progress.failures := h.failures
    rw [hfailures] at ha hb
    exact hs.owner a b f ha hb

/-- The same atoms are yielded at the same price. -/
theorem take (h : g.progress.Idles p) (hf : g.plan.Filled) (hs : g.Sound (g.reach (m + 1)))
    (hn : g.progress.failedIds.Nodup) (t : TelescopeState) :
    ((g.progressed p).take m (.start t)).1.map (·.atom) =
      (g.take m (.start t)).1.map (·.atom) := by
  have hs' := hs.mono (g.reach_mono (Nat.le_succ m))
  have hn' : (g.progressed p).progress.failedIds.Nodup := by
    show p.failedIds.Nodup
    rw [h.failedIds]
    exact hn
  -- The atoms come from one route, which is a route of both sides with the same atoms open.
  obtain ⟨vs, s, hp, hdone, hopen⟩ := exists_route hs' hn
  have hne := hp.steps_ne_nil hf
  have hfilter := h.agrees.filter_opened hne
  have hdone' : (g.progressed p).look s = none ∨ m ≤ (vs.filter (g.progressed p).opened).length := by
    rw [h.agrees.look hf, hfilter]
    exact hdone
  have hopen' : (g.progressed p).plan.isUnbounded = true →
      (vs.filter (g.progressed p).opened).length ≤ m := by
    rw [hfilter]
    exact hopen
  rw [take_route hs' hn hp hdone hopen, take_route (h.sound hs) hn' (h.agrees.path hf hp) hdone' hopen',
    List.map_take, List.map_take, map_atom_price, map_atom_price, h.agrees.map_due hne]
  rfl

end Progress.Idles

/-- What a window shows, but for where generation stands. -/
def GeneratedSequence.shown (w : GeneratedSequence) : Option Atom × List Atom × Bool :=
  (w.nextAtom, w.possibleFuture, w.hasMore)

namespace Progress.Idles

open Generator

variable {g : Generator} {p : Progress} {limit : Nat}

theorem window (h : g.progress.Idles p) (hf : g.plan.Filled)
    (hs : g.Sound (g.reach (limit + 3))) (hn : g.progress.failedIds.Nodup) (t : TelescopeState) :
    ((g.progressed p).window t limit).shown = (g.window t limit).shown := by
  have hatoms : ((g.progressed p).window t limit).atoms = (g.window t limit).atoms := by
    rw [window_atoms, window_atoms]
    exact h.take hf (hs.mono (g.reach_mono (Nat.le_succ _))) hn t
  have hlen := congrArg List.length (h.take hf hs hn t)
  rw [List.length_map, List.length_map] at hlen
  rw [GeneratedSequence.shown, GeneratedSequence.shown, nextAtom_window, nextAtom_window,
    possibleFuture_window, possibleFuture_window, hatoms, window_hasMore, window_hasMore, hlen]

theorem remaining (h : g.progress.Idles p) (hf : g.plan.Filled)
    (hs : g.Sound (g.reach (max g.plan.atoms.length 1 + 1))) (hn : g.progress.failedIds.Nodup)
    (t : TelescopeState) : (g.progressed p).remaining t = g.remaining t := by
  unfold Generator.remaining
  cases hend : g.plan.isUnbounded with
  | true =>
    have hend' : (g.progressed p).plan.isUnbounded = true := hend
    simp only [hend', if_true]
    exact h.take hf hs hn t
  | false =>
    have hend' : (g.progressed p).plan.isUnbounded = false := hend
    have hreach : ∀ m, g.reach m = g.plan.atoms.length := reach_finite hend
    have henough : (g.progressed p).enough (.start t) = g.enough (.start t) :=
      h.agrees.enough hend ⟨0, []⟩ t t
    simp only [hend', Bool.false_eq_true, if_false, henough]
    exact h.take hf (by rwa [hreach] at hs ⊢) hn t

end Progress.Idles

/-! ## The engine -/

theorem Invoice.executionTime_idle {before after : List AtomRecord} {r : AtomRecord} (hr : r.Idle)
    (m : CostModel) : executionTime m ⟨before ++ r :: after⟩ = executionTime m ⟨before ++ after⟩ := by
  rw [executionTime_eq, executionTime_eq, History.executedSteps_idle hr]

namespace Engine

variable {e : Engine} {o : Observation} {calculator : Calculator} {s : Specification}
  {before after : List AtomRecord} {r : AtomRecord} {sequence : SequenceType} {plan : AtomPlan}

/-- The steps that a digest needs do not lie beyond those that a window does. -/
theorem reach_remaining_le {g : Generator} {m : Nat} (hg : g.plan.isUnbounded = true →
    g.plan.atoms.length ≤ m + 1) : g.reach (max g.plan.atoms.length 1 + 1) ≤ g.reach (m + 3) := by
  cases hend : g.plan.isUnbounded with
  | true =>
    have hlen := hg hend
    exact g.reach_mono (by omega)
  | false => rw [Generator.reach_finite hend, Generator.reach_finite hend]

section

variable (hs : e.specification o calculator = .ok s) (hr : r.Idle)
  (hvisit : History.KeepsVisit before after r)
  (hdistinct : History.DistinctFailures ⟨before ++ after⟩) {m : Nat}
  (hapart : AtomKey.Apart (e.atomKeys (o.withHistory ⟨before ++ after⟩) s sequence (m + 3)))
  (hplan : (Plans.ofSpecification s).get? sequence = some plan)

include hs hr hvisit hdistinct hapart hplan

theorem window_idle :
    ((e.generator (o.withHistory ⟨before ++ r :: after⟩) sequence plan).window
        (telescope (o.withHistory ⟨before ++ r :: after⟩) sequence) m).shown =
      ((e.generator (o.withHistory ⟨before ++ after⟩) sequence plan).window
        (telescope (o.withHistory ⟨before ++ after⟩) sequence) m).shown := by
  have hidles := Progress.idles_ofHistory hr hvisit sequence (.ofSequence sequence)
  have htelescope : telescope (o.withHistory ⟨before ++ r :: after⟩) sequence =
      telescope (o.withHistory ⟨before ++ after⟩) sequence :=
    History.telescope_idle hr hvisit (.ofSequence sequence)
  rw [htelescope]
  exact hidles.window (Specification.filled_of_get? (projectedAtoms_le hs).1 sequence hplan)
    (sound (o := o.withHistory ⟨before ++ after⟩) hplan hdistinct hapart)
    (nodup_failedIds (o := o.withHistory ⟨before ++ after⟩) hdistinct) _

theorem sequenceDigest_idle :
    e.sequenceDigest (o.withHistory ⟨before ++ r :: after⟩) sequence plan =
      e.sequenceDigest (o.withHistory ⟨before ++ after⟩) sequence plan := by
  have hidles := Progress.idles_ofHistory hr hvisit sequence (.ofSequence sequence)
  have htelescope : telescope (o.withHistory ⟨before ++ r :: after⟩) sequence =
      telescope (o.withHistory ⟨before ++ after⟩) sequence :=
    History.telescope_idle hr hvisit (.ofSequence sequence)
  have hsound := sound (o := o.withHistory ⟨before ++ after⟩) hplan hdistinct hapart
  have hreach := reach_remaining_le (m := m)
    (g := e.generator (o.withHistory ⟨before ++ after⟩) sequence plan)
    fun hend => (length_atoms_le hplan hend).trans (Nat.le_add_left 1 m)
  unfold sequenceDigest
  rw [htelescope]
  refine congrArg SequenceDigest.ofAtoms ?_
  exact hidles.remaining (Specification.filled_of_get? (projectedAtoms_le hs).1 sequence hplan)
    (hsound.mono hreach) (nodup_failedIds (o := o.withHistory ⟨before ++ after⟩) hdistinct) _

end

/-- Records in which nothing was executed change nothing.  Wherever such a record is put into a history
in which failed steps have identities of their own, both sequences show the same atoms at the same
price and have more or not as before, and the whole digest is the same. -/
theorem digest_idle (e : Engine) (o : Observation) (calculator : Calculator) (s : Specification)
    (before after : List AtomRecord) (r : AtomRecord) (limit : Option Nat)
    (hs : e.specification o calculator = .ok s) (hr : r.Idle)
    (hvisit : History.KeepsVisit before after r)
    (hdistinct : History.DistinctFailures ⟨before ++ after⟩)
    (hapart : ∀ sequence, AtomKey.Apart
      (e.atomKeys (o.withHistory ⟨before ++ after⟩) s sequence (e.limits.future limit + 3))) :
    ∃ config config',
      e.generate (o.withHistory ⟨before ++ after⟩) calculator limit = .ok config ∧
      e.generate (o.withHistory ⟨before ++ r :: after⟩) calculator limit = .ok config' ∧
      (∀ sequence, (config'.get? sequence).map (·.shown) = (config.get? sequence).map (·.shown)) ∧
      e.digest (o.withHistory ⟨before ++ r :: after⟩) calculator =
        e.digest (o.withHistory ⟨before ++ after⟩) calculator := by
  have hbefore : e.specification (o.withHistory ⟨before ++ after⟩) calculator = .ok s := hs
  have hbehind : e.specification (o.withHistory ⟨before ++ r :: after⟩) calculator = .ok s := hs
  obtain ⟨config, hconfig⟩ := generate_ok hbefore limit
  obtain ⟨config', hconfig'⟩ := generate_ok hbehind limit
  refine ⟨config, config', hconfig, hconfig', fun sequence => ?_, ?_⟩
  · rw [get?_of_generate hbefore hconfig, get?_of_generate hbehind hconfig', generateType,
      generateType, Option.map_map, Option.map_map]
    refine Option.map_congr fun plan hplan => ?_
    exact window_idle hs hr hvisit hdistinct (hapart sequence) hplan
  · have hdigest : ∀ sequence plan, (Plans.ofSpecification s).get? sequence = some plan →
        e.sequenceDigest (o.withHistory ⟨before ++ r :: after⟩) sequence plan =
          e.sequenceDigest (o.withHistory ⟨before ++ after⟩) sequence plan :=
      fun sequence plan hplan => sequenceDigest_idle hs hr hvisit hdistinct (hapart sequence) hplan
    have hacquisition : (Plans.ofSpecification s).acquisition.map
          (e.sequenceDigest (o.withHistory ⟨before ++ r :: after⟩) .acquisition) =
        (Plans.ofSpecification s).acquisition.map
          (e.sequenceDigest (o.withHistory ⟨before ++ after⟩) .acquisition) :=
      Option.map_congr fun plan hplan => hdigest .acquisition plan hplan
    have hscience := hdigest .science _ rfl
    have hinvoice : Invoice.ofHistory e.costs ⟨before ++ r :: after⟩ o.corrections =
        Invoice.ofHistory e.costs ⟨before ++ after⟩ o.corrections := by
      rw [Invoice.ofHistory, Invoice.executionTime_idle hr]
      rfl
    unfold digest
    rw [hbefore, hbehind]
    simp only [bind, Except.bind, hacquisition, hscience]
    exact congrArg (fun invoice => Except.ok (ObservationDigest.mk o.id _ invoice _)) hinvoice

end Engine

/-! ## An atom that was begun and aborted -/

/-- The record of a step that was begun and aborted. -/
def Step.aborted (x : Step) : StepRecord :=
  ⟨x.id, x.instrumentConfig, x.stepConfig, x.observeClass,
    [⟨.startStep, ⟨0, 0⟩⟩, ⟨.abort, ⟨1, 0⟩⟩], []⟩

theorem idle_aborted (id : AtomId) (visit : String) (sequence : SequenceType) (steps : List Step) :
    AtomRecord.Idle ⟨id, visit, sequence, steps.map (·.aborted)⟩ := by
  intro x hx
  obtain ⟨y, -, rfl⟩ := List.mem_map.1 hx
  rfl

namespace Slit

/-- The lamps are exposed, and the data of the first fail. -/
def exposed : AtomRecord :=
  ⟨lamps.id, "v-1", .science,
    (lamps.steps.take 1).map (·.finished .fail) ++ (lamps.steps.drop 1).map (·.finished .pass)⟩

/-- The science atom that comes next behind that and an acquisition. -/
def exposure : Atom := (next? .science ⟨[exposed, acquisition]⟩).get (by decide +kernel)

/-- It is begun before the acquisition, and aborted. -/
def begun : AtomRecord := ⟨exposure.id, "v-1", .science, exposure.steps.map (·.aborted)⟩

end Slit

/-- An aborted atom changes nothing, although it is the next one. -/
theorem Engine.digest_idle_slit :
    (Slit.next? .science ⟨[Slit.exposed, Slit.acquisition]⟩).map (·.id) = some Slit.begun.id ∧
    (default : Engine).digest
        ((Slit.observation 4 ⟨[]⟩).withHistory ⟨[Slit.exposed, Slit.begun, Slit.acquisition]⟩)
        (Slit.calculator 4) =
      (default : Engine).digest
        ((Slit.observation 4 ⟨[]⟩).withHistory ⟨[Slit.exposed, Slit.acquisition]⟩)
        (Slit.calculator 4) := by
  refine ⟨by decide +kernel, ?_⟩
  have hapart : ∀ sequence, AtomKey.Apart ((default : Engine).atomKeys
      ((Slit.observation 4 ⟨[]⟩).withHistory ⟨[Slit.exposed, Slit.acquisition]⟩)
      (Slit.specification 4) sequence ((default : Engine).limits.future (some 1) + 3)) := by
    intro sequence
    cases sequence with
    | acquisition => decide +kernel
    | science => decide +kernel
  obtain ⟨config, config', -, -, -, hdigest⟩ := Engine.digest_idle default (Slit.observation 4 ⟨[]⟩)
    (Slit.calculator 4) (Slit.specification 4) [Slit.exposed] [Slit.acquisition] Slit.begun (some 1)
    (by decide +kernel) (idle_aborted _ _ _ _) (.inr (by decide +kernel))
    (by decide +kernel) hapart
  exact hdigest

end Observing
