import Mathlib.Algebra.BigOperators.Group.Finset.Piecewise
import Observing.Proofs.Handout

/-!
# Exposures of one configuration

What is planned in a configuration, what was executed in it with data that did not fail, and what is
still to be executed.

* `Tally.due`       the steps of a configuration that are to be executed;
* `due_take`        an executed step that is counted is due before or again afterwards;
* `Progress.countP_executed`   executed steps, counted atom by atom.
-/

namespace Observing

/-- The number of steps of a configuration. -/
def plannedIn (c : Configuration) (ps : List ProtoStep) : Nat :=
  ps.countP fun p => p.configuration = c

/-- The number of executed steps of a configuration whose data did not fail. -/
def acceptedIn (c : Configuration) (es : List ExecutedStep) : Nat :=
  es.countP fun e => !e.failed && e.configuration = c

theorem acceptedIn_append (c : Configuration) (es fs : List ExecutedStep) :
    acceptedIn c (es ++ fs) = acceptedIn c es + acceptedIn c fs := List.countP_append

namespace Tally

/-- The number of steps of a configuration that are to be executed, for the first time or again. -/
def due (t : Tally) (c : Configuration) : Nat :=
  plannedIn c (t.unmet.map (·.2)) + plannedIn c (t.redo.map (·.step))

theorem due_start (planned : List ProtoStep) (c : Configuration) :
    (start planned).due c = plannedIn c planned := by
  rw [due, map_snd_unmet_start]
  rfl

theorem plannedIn_again {e : ExecutedStep} {p : ProtoStep} (h : e.executes p = true)
    (c : Configuration) : plannedIn c ((again e p).map (·.step)) + acceptedIn c [e] = plannedIn c [p] := by
  have hc : p.configuration = e.configuration := ExecutedStep.executes_iff.1 h
  unfold again plannedIn acceptedIn
  by_cases hf : e.failed = true
  · simp [hf]
  · simp [hf, hc]

theorem plannedIn_append (c : Configuration) (ps qs : List ProtoStep) :
    plannedIn c (ps ++ qs) = plannedIn c ps + plannedIn c qs := List.countP_append

theorem plannedIn_cons (c : Configuration) (p : ProtoStep) (ps : List ProtoStep) :
    plannedIn c (p :: ps) = plannedIn c [p] + plannedIn c ps :=
  plannedIn_append c [p] ps

/-- An executed step that is to be executed is accepted, or it is due again. -/
theorem due_take {t : Tally} {e : ExecutedStep}
    (h : (∃ u ∈ t.unmet, e.executes u.2 = true) ∨ ∃ q ∈ t.redo, e.executes q.step = true)
    (c : Configuration) : (t.take e).due c + acceptedIn c [e] = t.due c := by
  rcases take_cases t e with ⟨l, i, p, r, hl, hp, ht⟩ | ⟨l, q, r, -, hl, hq, ht⟩ | ⟨hu, hr, -⟩
  · have hagain := plannedIn_again hp c
    rw [ht, due, due, hl]
    simp only [List.map_append, List.map_cons, plannedIn_append]
    rw [plannedIn_cons c p]
    omega
  · have hagain := plannedIn_again hq c
    rw [ht, due, due, hl]
    simp only [List.map_append, List.map_cons, plannedIn_append]
    rw [plannedIn_cons c q.step]
    omega
  · exfalso
    rcases h with ⟨u, hmem, he⟩ | ⟨q, hmem, he⟩
    · rw [hu u hmem] at he
      cases he
    · rw [hr q hmem] at he
      cases he

theorem mem_handout {id : AtomId} {t : Tally} {x : StepId × ProtoStep} (hx : x ∈ t.handout id) :
    (∃ u ∈ t.unmet, x = ((StepKey.planned id u.1).id, u.2)) ∨
      ∃ q ∈ t.redo, x = ((StepKey.repeated id q.failedStep).id, q.step) := by
  rcases List.mem_append.1 hx with h | h
  · obtain ⟨u, hu, rfl⟩ := List.mem_map.1 h
    exact .inl ⟨u, hu, rfl⟩
  · obtain ⟨q, hq, rfl⟩ := List.mem_map.1 h
    exact .inr ⟨q, hq, rfl⟩

end Tally

namespace Progress

/-! ## Atom by atom -/

theorem countP_executed {p : Progress} {ids : List AtomId} (hn : ids.Nodup)
    (hall : ∀ r ∈ p.records, r.1 ∈ ids) (P : ExecutedStep → Bool) :
    (p.records.flatMap (·.2)).countP P = (ids.map fun id => (p.executed id).countP P).sum := by
  obtain ⟨records⟩ := p
  simp only [executed_eq] at hall ⊢
  induction records with
  | nil => simp
  | cons r rs ih =>
    have hself : (ids.map fun id => if r.1 = id then r.2.countP P else 0).sum = r.2.countP P := by
      rw [← List.sum_toFinset _ hn, Finset.sum_ite_eq, if_pos]
      rw [List.mem_toFinset]
      exact hall r List.mem_cons_self
    have hsplit : ∀ id, (((r :: rs).filter fun r => r.1 = id).flatMap (·.2)).countP P =
        (if r.1 = id then r.2.countP P else 0) +
          ((rs.filter fun r => r.1 = id).flatMap (·.2)).countP P := by
      intro id
      by_cases hid : r.1 = id
      · rw [List.filter_cons_of_pos (by simpa using hid), List.flatMap_cons, List.countP_append,
          if_pos hid]
      · rw [List.filter_cons_of_neg (by simpa using hid), if_neg hid, Nat.zero_add]
    rw [List.flatMap_cons, List.countP_append, ih fun s hs => hall s (List.mem_cons_of_mem _ hs)]
    simp only [hsplit, List.sum_map_add, hself]

end Progress
end Observing
