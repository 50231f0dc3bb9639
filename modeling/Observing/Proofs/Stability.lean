import Observing.Proofs.Extended

/-!
# The next atom while it is executed

The atom that comes next stays the next one while its planned steps are executed: it keeps its
identity, and the steps left are those that it had, as they were.  When all planned steps are met, it
is closed, and another atom comes next; the repetitions that it was handed out with are then made in
atoms of their own.

* `Generator.stepsOf_split`   the steps of an atom: planned ones, and behind them repetitions;
* `nextAtom_push_planned`     the next atom while its steps are recorded.
-/

namespace Observing

namespace Generator

variable {g : Generator} {v : Visit}

theorem stepsOf_split (hv : g.opened v = true) (t : TelescopeState) :
    ∃ planned repeats, g.stepsOf t v = planned ++ repeats ∧
      planned.length = (g.tally v).unmet.length ∧
      (∀ p ∈ planned, ∃ i, p.id = (StepKey.planned v.key.id i).id) ∧
      (∀ p ∈ repeats, ∃ failed, p.id = (StepKey.repeated v.key.id failed).id) := by
  have hids := map_id_stepsOf (g := g) t v
  rw [todo_of_opened hv, Tally.handout, List.map_append, List.map_map, List.map_map] at hids
  obtain ⟨planned, repeats, hsteps, hplanned, hrepeats⟩ := List.map_eq_append_iff.1 hids
  refine ⟨planned, repeats, hsteps, ?_, ?_, ?_⟩
  · have hlen := congrArg List.length hplanned
    rw [List.length_map, List.length_map] at hlen
    exact hlen
  · intro p hp
    have hmem : p.id ∈ planned.map (·.id) := List.mem_map_of_mem hp
    rw [hplanned] at hmem
    obtain ⟨u, -, hu⟩ := List.mem_map.1 hmem
    exact ⟨u.1, hu.symm⟩
  · intro p hp
    have hmem : p.id ∈ repeats.map (·.id) := List.mem_map_of_mem hp
    rw [hrepeats] at hmem
    obtain ⟨r, -, hr⟩ := List.mem_map.1 hmem
    exact ⟨r.failedStep, hr.symm⟩

end Generator

namespace Engine

/-- The next atom keeps its identity, and its other steps stay what they were, while the planned steps
that it was handed out with are executed one after another.  When all of them are, its identity is not
that of the next atom any more. -/
theorem nextAtom_push_planned (e : Engine) (o : Observation) (calculator : Calculator)
    (s : Specification) (x : Atom) (hs : e.specification o calculator = .ok s)
    (hx : e.nextAtom o calculator .science = .ok (some x)) (hd : o.history.DistinctFailures)
    (hapart : AtomKey.Apart (e.atomKeys o s .science 0)) :
    ∃ planned repeats, x.steps = planned ++ repeats ∧
      (∀ p ∈ planned, ∃ i, p.id = (StepKey.planned x.id i).id) ∧
      (∀ p ∈ repeats, ∃ failed, p.id = (StepKey.repeated x.id failed).id) ∧
      ∀ k visit rs, List.Forall₂ StepRecord.Carries rs (x.steps.take k) →
        (k < planned.length → ∃ y,
          e.nextAtom (o.push ⟨x.id, visit, .science, rs⟩) calculator .science = .ok (some y) ∧
          y.id = x.id ∧ y.description = x.description ∧ y.kind = x.kind ∧
          y.steps = x.steps.drop k) ∧
        (planned.length ≤ k → ∀ y,
          e.nextAtom (o.push ⟨x.id, visit, .science, rs⟩) calculator .science = .ok (some y) →
          y.id ≠ x.id) := by
  have hplan : (Plans.ofSpecification s).get? .science = some (.finite s.scienceAtoms) := rfl
  obtain ⟨g, hg⟩ : ∃ g, g = e.generator o .science (.finite s.scienceAtoms) := ⟨_, rfl⟩
  obtain ⟨t, ht⟩ : ∃ t, t = telescope o .science := ⟨_, rfl⟩
  have hn : g.progress.failedIds.Nodup := hg ▸ nodup_failedIds hd
  have hsound (m : Nat) : g.Sound (g.reach m) := by
    rw [hg]
    exact sound hplan hd hapart
  -- the atom returned is the first open one
  rw [nextAtom_eq hs hplan, ← hg, ← ht] at hx
  obtain ⟨⟨emission, c⟩, hadvance, rfl⟩ := Option.map_eq_some_iff.1 (Except.ok.inj hx)
  obtain ⟨us, place, v, next, hfirst, rfl, -⟩ := Generator.first_of_advance hadvance
  obtain ⟨planned, repeats, hsteps, hlen, hids, hids'⟩ := Generator.stepsOf_split hfirst.opened t
  refine ⟨planned, repeats, hsteps, hids, hids', fun k visit rs hrs => ?_⟩
  have hdoes := Generator.does_of_carries hrs
  have hpassed := Generator.passed_of_does hdoes
  have hcounts : AtomRecord.Counts ⟨v.key.id, visit, .science, rs⟩ o.history .allVisits :=
    AtomRecord.counts_allVisits _ _
  have hexecuted := executed_of_carries hrs
  have hnext : e.nextAtom (o.push ⟨v.key.id, visit, .science, rs⟩) calculator .science =
      .ok (((g.recorded v.key.id (rs.map .ofRecord)).advance (.start (t.behind rs))).map (·.1.atom)) := by
    have hs' : e.specification (o.push ⟨v.key.id, visit, .science, rs⟩) calculator = .ok s := hs
    rw [nextAtom_eq hs' hplan, generator_push hcounts hexecuted, telescope_push hcounts hexecuted,
      ← hg, ← ht]
  refine ⟨fun hk => ?_, fun hk y hy => ?_⟩
  · rw [hlen] at hk
    have hfirst' := hfirst.recorded_lt (hsound 1) hn hdoes hk
    have hprompt : (g.recorded v.key.id (rs.map .ofRecord)).Prompt ⟨0, []⟩ :=
      (Generator.Path.nil _).prompt_of_reach ((hsound 1).recorded_reach hpassed)
        (Generator.nodup_recorded hn hpassed) fun _ => Nat.le_refl 0
    rw [hfirst'.advance hprompt, Option.map_some] at hnext
    refine ⟨_, hnext, rfl, rfl, rfl, ?_⟩
    rw [Generator.behind_of_carries hrs]
    exact Generator.stepsOf_executed hfirst.opened hdoes hk t
  · rw [hlen] at hk
    have hy' := hnext.symm.trans hy
    obtain ⟨⟨emission, c'⟩, hadvance', rfl⟩ := Option.map_eq_some_iff.1 (Except.ok.inj hy')
    obtain ⟨us', place', v', next', hfirst', rfl, -⟩ := Generator.first_of_advance hadvance'
    exact hfirst.ne_of_recorded (hsound 2) hn hdoes hk hfirst'

/-- The next atom stays the next one while its other planned step is executed. -/
theorem nextAtom_push_planned_resumed : ∃ planned repeats,
    Short.resumed.steps = planned ++ repeats ∧
    ∀ k, (k < planned.length → ∃ y,
        nextAtom default ((Short.observation Short.failed).push
          ⟨Short.resumed.id, "v", .science, (Short.resumed.steps.take k).map (·.finished .pass)⟩)
          Short.calculator .science = .ok (some y) ∧
        y.id = Short.resumed.id ∧ y.steps = Short.resumed.steps.drop k) ∧
      (planned.length ≤ k → ∀ y,
        nextAtom default ((Short.observation Short.failed).push
          ⟨Short.resumed.id, "v", .science, (Short.resumed.steps.take k).map (·.finished .pass)⟩)
          Short.calculator .science = .ok (some y) → y.id ≠ Short.resumed.id) := by
  obtain ⟨planned, repeats, hsteps, -, -, h⟩ := nextAtom_push_planned default
    (Short.observation Short.failed) Short.calculator Short.specification Short.resumed
    (by decide +kernel) (by decide +kernel) (by decide +kernel) (by decide +kernel)
  refine ⟨planned, repeats, hsteps, fun k => ?_⟩
  obtain ⟨hlt, hge⟩ := h k "v" _ (carries_finished (Short.resumed.steps.take k))
  refine ⟨fun hk => ?_, hge⟩
  obtain ⟨y, hy, hid, -, -, hrest⟩ := hlt hk
  exact ⟨y, hy, hid, hrest⟩

/-- An atom that was handed out with a repetition does not stay the next one until that is made. -/
theorem nextAtom_push_not_stable : ¬ ∀ (e : Engine) (o : Observation) (calculator : Calculator)
    (s : Specification) (x : Atom) (k : Nat) (visit : String) (rs : List StepRecord),
    e.specification o calculator = .ok s → e.nextAtom o calculator .science = .ok (some x) →
    o.history.DistinctFailures → AtomKey.Apart (e.atomKeys o s .science 0) → k < x.steps.length →
    List.Forall₂ StepRecord.Carries rs (x.steps.take k) →
    ∃ y, e.nextAtom (o.push ⟨x.id, visit, .science, rs⟩) calculator .science = .ok (some y) ∧
      y.id = x.id ∧ y.steps = x.steps.drop k := by
  intro h
  obtain ⟨y, hy, hid, -⟩ := h default (Short.observation Short.failed) Short.calculator
    Short.specification Short.resumed 1 "v" _ (by decide +kernel) (by decide +kernel)
    (by decide +kernel) (by decide +kernel) (by decide +kernel)
    (carries_finished (Short.resumed.steps.take 1))
  have hother : ∀ a, nextAtom default ((Short.observation Short.failed).push
      ⟨Short.resumed.id, "v", .science, (Short.resumed.steps.take 1).map (·.finished .pass)⟩)
      Short.calculator .science = .ok (some a) → a.id ≠ Short.resumed.id := by
    have hnext : (nextAtom default ((Short.observation Short.failed).push
        ⟨Short.resumed.id, "v", .science, (Short.resumed.steps.take 1).map (·.finished .pass)⟩)
        Short.calculator .science).toOption.map (·.map (·.id)) ≠ some (some Short.resumed.id) := by
      decide +kernel
    intro a ha he
    rw [ha] at hnext
    exact hnext (congrArg (some ∘ some) he)
  exact hother y hy hid

end Engine
end Observing
