import Observing.Proofs.Accounting

/-!
# Progress that grows

What is known about failed steps only grows with what is executed.

* `Progress.Grows`   an atom has executed more steps, all others are as they were;
* `History.Adds`     an atom is recorded: behind all others, or as a part of its last record;
* `Adds.grows`       what that comes to.
-/

namespace Observing

namespace Progress

variable {p p' : Progress} {id a : AtomId} {es : List ExecutedStep} {f : StepId} {c : Configuration}

/-- An atom has executed more steps, and all others are as they were. -/
structure Grows (p p' : Progress) (id : AtomId) (es : List ExecutedStep) : Prop where
  self : p'.executed? id = some (p.executed id ++ es)
  other : ∀ a, a ≠ id → p'.executed? a = p.executed? a

theorem Grows.executed_self (h : p.Grows p' id es) : p'.executed id = p.executed id ++ es := by
  exact executed_of_some h.self

theorem Grows.executed_other (h : p.Grows p' id es) (ha : a ≠ id) :
    p'.executed a = p.executed a := by
  rw [executed, h.other a ha, executed]

theorem Grows.mem_executed (h : p.Grows p' id es) {e : ExecutedStep} :
    e ∈ p'.executed a ↔ e ∈ p.executed a ∨ (a = id ∧ e ∈ es) := by
  by_cases ha : a = id
  · rw [ha, h.executed_self, List.mem_append]
    simp
  · rw [h.executed_other ha]
    simp [ha]

/-! ## Failed steps -/

theorem Fails.mono (hf : p.Fails a f c) (h : p.Grows p' id es) : p'.Fails a f c := by
  obtain ⟨e, he, hfailed⟩ := hf
  exact ⟨e, h.mem_executed.2 (.inl he), hfailed⟩

theorem Grows.failures_subset (h : p.Grows p' id es) : p.failures ⊆ p'.failures := by
  rintro ⟨a, f⟩ hmem
  obtain ⟨c, hf⟩ := mem_failures_iff.1 hmem
  exact (hf.mono h).mem_failures

theorem Grows.failedIds_subset (h : p.Grows p' id es) : p.failedIds ⊆ p'.failedIds :=
  List.map_subset _ h.failures_subset

/-! ## One more record -/

theorem executed?_congr {q : Progress} (hfilter : p.records.filter (fun r => r.1 = a) =
    q.records.filter (fun r => r.1 = a)) : p.executed? a = q.executed? a := by
  unfold executed?
  rw [hfilter]

theorem grows_push (p : Progress) (id : AtomId) (es : List ExecutedStep) :
    p.Grows ⟨p.records ++ [(id, es)]⟩ id es where
  self := executed?_append_self p id es
  other _ ha := executed?_append_of_ne p ha.symm es

theorem grows_onward {before after : List (AtomId × List ExecutedStep)}
    (hafter : ∀ r ∈ after, r.1 ≠ id) (fs es : List ExecutedStep) :
    Grows ⟨before ++ (id, fs) :: after⟩ ⟨before ++ (id, fs ++ es) :: after⟩ id es := by
  refine ⟨?_, fun a ha => ?_⟩
  · have hnone : after.filter (fun r => r.1 = id) = [] := by
      rw [List.filter_eq_nil_iff]
      intro r hr
      simpa using hafter r hr
    obtain ⟨gs, hgs⟩ : ∃ gs, executed? ⟨before ++ (id, fs ++ es) :: after⟩ id = some gs :=
      executed?_of_mem (by simp)
    rw [hgs, ← executed_of_some hgs, executed_eq, executed_eq]
    simp [List.filter_append, hnone]
  · refine executed?_congr ?_
    rw [List.filter_append, List.filter_append, List.filter_cons_of_neg (by simpa using ha.symm),
      List.filter_cons_of_neg (by simpa using ha.symm)]

end Progress

namespace History

/-- An atom is recorded: behind all others, or as a part of its last record. -/
inductive Adds (r : AtomRecord) : History → History → Prop
  | push (h : History) : Adds r h (h.push r)
  | onward {before after : List AtomRecord} {last : AtomRecord} (hid : last.id = r.id)
    (hsequence : last.sequenceType = r.sequenceType) (hafter : ∀ b ∈ after, b.id ≠ r.id) :
    Adds r ⟨before ++ last :: after⟩
      ⟨before ++ { last with steps := last.steps ++ r.steps } :: after⟩

theorem ofHistory_middle {before after : List AtomRecord} {b : AtomRecord} {sequence : SequenceType}
    (hb : b.sequenceType = sequence) :
    Progress.ofHistory ⟨before ++ b :: after⟩ sequence .allVisits =
      ⟨(Progress.ofHistory ⟨before⟩ sequence .allVisits).records ++ Progress.entry b ::
        (Progress.ofHistory ⟨after⟩ sequence .allVisits).records⟩ := by
  refine congrArg Progress.mk ?_
  simp only [Progress.records_ofHistory, atomsOf, VisitScope.visit, inVisit, Bool.and_true]
  rw [List.filter_append, List.filter_cons_of_pos (by simpa using hb), List.map_append,
    List.map_cons]
  rfl

/-- What is executed grows by the executed steps of a record. -/
theorem Adds.grows {r : AtomRecord} {h h' : History} (hadds : Adds r h h') :
    (Progress.ofHistory h r.sequenceType .allVisits).Grows
      (Progress.ofHistory h' r.sequenceType .allVisits) r.id (Progress.entry r).2 := by
  cases hadds with
  | push =>
    have hpush : Progress.ofHistory (h.push r) r.sequenceType .allVisits =
        ⟨(Progress.ofHistory h r.sequenceType .allVisits).records ++ [Progress.entry r]⟩ :=
      congrArg Progress.mk (Progress.records_push (r.counts_allVisits h))
    rw [hpush]
    exact Progress.grows_push _ _ _
  | @onward before after last hid hsequence hafter =>
    have hentry : Progress.entry { last with steps := last.steps ++ r.steps } =
        (r.id, (Progress.entry last).2 ++ (Progress.entry r).2) := by
      simp only [Progress.entry, List.filter_append, List.map_append, hid]
    have hlast : Progress.entry last = (r.id, (Progress.entry last).2) := by
      simp only [Progress.entry, hid]
    have hothers : ∀ x ∈ (Progress.ofHistory ⟨after⟩ r.sequenceType .allVisits).records,
        x.1 ≠ r.id := by
      intro x hx
      rw [Progress.records_ofHistory] at hx
      obtain ⟨b, hb, rfl⟩ := List.mem_map.1 hx
      exact hafter b (List.mem_of_mem_filter hb)
    rw [ofHistory_middle hsequence, ofHistory_middle (b := { last with steps := last.steps ++ r.steps })
      hsequence, hentry, hlast]
    exact Progress.grows_onward hothers _ _

end History
end Observing
