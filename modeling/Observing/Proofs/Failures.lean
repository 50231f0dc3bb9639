import Mathlib.Data.List.Flatten
import Mathlib.Data.List.Nodup
import Observing.Proofs.Tally

/-!
# Failed steps and the atoms they belong to

Which executed steps of a sequence had data that failed, each with the atom under which it was
recorded, and what a closed atom leaves behind.

* `Progress.executed`      the executed steps of an atom;
* `Progress.Fails`         a step failed under an atom, in a configuration;
* `Progress.failures`      the failed steps of a sequence with their atoms;
* `Progress.SingleOwner`   a failed step was recorded under one atom only;
* `executed_of_closed`, `executed_of_inProgress`   what was executed of an atom that was begun.
-/

namespace Observing

namespace Progress

/-! ## Recorded atoms -/

theorem executed?_eq_none_iff {p : Progress} {id : AtomId} :
    p.executed? id = none ↔ ∀ r ∈ p.records, r.1 ≠ id := by
  unfold executed?
  split
  · rename_i h
    simpa using h
  · rename_i r rs h
    simp only [reduceCtorEq, false_iff, not_forall, not_not]
    have hr : r ∈ p.records.filter fun r => r.1 = id := by rw [h]; exact List.mem_cons_self
    exact ⟨r, List.mem_of_mem_filter hr, by simpa using List.of_mem_filter hr⟩

theorem executed?_eq_some {p : Progress} {id : AtomId} {es : List ExecutedStep}
    (h : p.executed? id = some es) : es = (p.records.filter fun r => r.1 = id).flatMap (·.2) := by
  unfold executed? at h
  split at h
  · cases h
  · rename_i r rs hrs
    rw [hrs]
    exact (Option.some.inj h).symm

theorem executed?_of_mem {p : Progress} {id : AtomId} (h : id ∈ p.records.map (·.1)) :
    ∃ es, p.executed? id = some es := by
  cases hes : p.executed? id with
  | none =>
    obtain ⟨r, hr, hid⟩ := List.mem_map.1 h
    exact absurd hid (executed?_eq_none_iff.1 hes r hr)
  | some es => exact ⟨es, rfl⟩

/-- The executed steps of an atom in recording order, none where it was not recorded. -/
def executed (p : Progress) (id : AtomId) : List ExecutedStep := (p.executed? id).getD []

theorem executed_of_some {p : Progress} {id : AtomId} {es : List ExecutedStep}
    (h : p.executed? id = some es) : p.executed id = es := by
  rw [executed, h, Option.getD_some]

theorem executed_eq (p : Progress) (id : AtomId) :
    p.executed id = (p.records.filter fun r => r.1 = id).flatMap (·.2) := by
  cases h : p.executed? id with
  | none =>
    have hnil : p.records.filter (fun r => r.1 = id) = [] := by
      rw [List.filter_eq_nil_iff]
      intro r hr
      simpa using executed?_eq_none_iff.1 h r hr
    rw [executed, h, hnil]
    rfl
  | some es =>
    rw [executed_of_some h]
    exact executed?_eq_some h

theorem executedCount_eq (p : Progress) : p.executedCount = (p.records.flatMap (·.2)).length := by
  rw [executedCount, List.length_flatMap]

theorem length_executed?_le {p : Progress} {id : AtomId} {es : List ExecutedStep}
    (h : p.executed? id = some es) : es.length ≤ p.executedCount := by
  rw [executed?_eq_some h, executedCount_eq]
  exact (List.Sublist.flatMap List.filter_sublist _).length_le

/-! ## Failed steps -/

/-- The failed steps of a record, each with its atom. -/
def failuresOf (r : AtomId × List ExecutedStep) : List (AtomId × StepId) :=
  (r.2.filter (·.failed)).map fun e => (r.1, e.id)

/-- The failed steps of a sequence, each with the atom under which it was recorded. -/
def failures (p : Progress) : List (AtomId × StepId) := p.records.flatMap failuresOf

/-- The identities of the failed steps. -/
def failedIds (p : Progress) : List StepId := p.failures.map (·.2)

/-- No failed step was recorded under two atoms. -/
def SingleOwner (p : Progress) : Prop :=
  ∀ a b f, (a, f) ∈ p.failures → (b, f) ∈ p.failures → a = b

theorem singleOwner_of_nodup {p : Progress} (h : p.failedIds.Nodup) : p.SingleOwner := by
  intro a b f ha hb
  exact congrArg Prod.fst (List.inj_on_of_nodup_map h ha hb rfl)

theorem length_failures_le (p : Progress) : p.failures.length ≤ p.executedCount := by
  have hmap : ((p.records.flatMap (·.2)).filter (·.failed)).length = p.failures.length := by
    simp [failures, failuresOf, List.length_flatMap, List.filter_flatMap]
  rw [← hmap, executedCount_eq]
  exact List.length_filter_le _ _

theorem failed_sublist {p : Progress} {id : AtomId} {es : List ExecutedStep}
    (h : p.executed? id = some es) :
    ((es.filter (·.failed)).map fun e => (id, e.id)).Sublist p.failures := by
  have hrecords : ∀ r ∈ p.records.filter (fun r => r.1 = id),
      (r.2.filter (·.failed)).map (fun e => (id, e.id)) = failuresOf r := by
    intro r hr
    have hid : r.1 = id := by simpa using List.of_mem_filter hr
    rw [failuresOf, hid]
  rw [executed?_eq_some h, List.filter_flatMap, List.map_flatMap, List.flatMap_congr hrecords]
  exact List.Sublist.flatMap List.filter_sublist _

theorem mem_failures_of_executed? {p : Progress} {id : AtomId} {es : List ExecutedStep}
    {e : ExecutedStep} (h : p.executed? id = some es) (he : e ∈ es) (hf : e.failed = true) :
    (id, e.id) ∈ p.failures := by
  refine (failed_sublist h).subset (List.mem_map.2 ⟨e, List.mem_filter.2 ⟨he, hf⟩, rfl⟩)

/-- A step that was executed under an atom in a configuration had data that failed. -/
def Fails (p : Progress) (a : AtomId) (f : StepId) (c : Configuration) : Prop :=
  ∃ e ∈ p.executed a, e.failed = true ∧ e.id = f ∧ e.configuration = c

theorem mem_failures_iff {p : Progress} {a : AtomId} {f : StepId} :
    (a, f) ∈ p.failures ↔ ∃ c, p.Fails a f c := by
  constructor
  · intro h
    obtain ⟨r, hr, hf⟩ := List.mem_flatMap.1 h
    obtain ⟨e, he, hid⟩ := List.mem_map.1 hf
    obtain ⟨rfl, rfl⟩ := Prod.mk.inj hid
    refine ⟨e.configuration, e, ?_, by simpa using List.of_mem_filter he, rfl, rfl⟩
    rw [executed_eq, List.mem_flatMap]
    exact ⟨r, List.mem_filter.2 ⟨hr, by simp⟩, List.mem_of_mem_filter he⟩
  · rintro ⟨c, e, he, hfailed, rfl, -⟩
    cases hes : p.executed? a with
    | none =>
      rw [executed, hes] at he
      cases he
    | some es =>
      rw [executed_of_some hes] at he
      exact mem_failures_of_executed? hes he hfailed

theorem Fails.mem_failures {p : Progress} {a : AtomId} {f : StepId} {c : Configuration}
    (h : p.Fails a f c) : (a, f) ∈ p.failures := mem_failures_iff.2 ⟨c, h⟩

theorem Fails.mem_failedIds {p : Progress} {a : AtomId} {f : StepId} {c : Configuration}
    (h : p.Fails a f c) : f ∈ p.failedIds := List.mem_map_of_mem h.mem_failures

theorem fails_of_mem_redo {p : Progress} {id : AtomId} {planned : List ProtoStep} {q : Redo}
    (hq : q ∈ ((Tally.start planned).takeAll (p.executed id)).redo) :
    p.Fails id q.failedStep q.step.configuration := by
  rcases Tally.executed_of_mem_redo hq with h | ⟨e, he, hfailed, hid, hexecutes⟩
  · cases h
  · exact ⟨e, he, hfailed, hid, (ExecutedStep.executes_iff.1 hexecutes).symm⟩

end Progress

/-! ## What an atom leaves behind -/

/-- The failed steps of a closed atom. -/
def Resolution.left : Resolution → List Redo
  | .closedWithRedo redo => redo
  | .fresh | .satisfied | .inProgress _ _ => []

/-- Something of the atom is still to be executed. -/
def Resolution.isOpen : Resolution → Bool
  | .fresh | .inProgress _ _ => true
  | .satisfied | .closedWithRedo _ => false

namespace Progress

theorem resolve_of_executed? {p : Progress} {id : AtomId} {es : List ExecutedStep}
    (h : p.executed? id = some es) (planned : List ProtoStep) :
    p.resolve id planned = ((Tally.start planned).takeAll es).resolution := by
  rw [resolve, h]

/-- Every atom is fresh where nothing was recorded. -/
theorem resolve_unrecorded {p : Progress} (h : p.records = []) (id : AtomId)
    (planned : List ProtoStep) : p.resolve id planned = .fresh := by
  rw [resolve_eq_fresh_iff, executed?_eq_none_iff, h]
  exact fun r hr => absurd hr List.not_mem_nil

/-- An atom that is not fresh was recorded. -/
theorem exists_executed? {p : Progress} {id : AtomId} {planned : List ProtoStep}
    (h : p.resolve id planned ≠ .fresh) : ∃ es, p.executed? id = some es ∧
      p.resolve id planned = ((Tally.start planned).takeAll es).resolution := by
  cases hes : p.executed? id with
  | none => exact absurd ((resolve_eq_fresh_iff p id planned).2 hes) h
  | some es => exact ⟨es, rfl, resolve_of_executed? hes planned⟩

theorem left_resolve {p : Progress} {id : AtomId} {planned : List ProtoStep} {q : Redo}
    (hq : q ∈ (p.resolve id planned).left) :
    ∃ es, p.executed? id = some es ∧ ((Tally.start planned).takeAll es).unmet = [] ∧
      (p.resolve id planned).left = ((Tally.start planned).takeAll es).redo := by
  obtain ⟨es, hes, hres⟩ := exists_executed? fun hfresh => by
    rw [hfresh] at hq
    cases hq
  rw [hres] at hq ⊢
  refine ⟨es, hes, ?_⟩
  rcases Tally.resolution_cases ((Tally.start planned).takeAll es) with
    ⟨-, -, ht⟩ | ⟨hunmet, -, ht⟩ | ⟨-, ht⟩ <;> rw [ht] at hq ⊢
  · cases hq
  · exact ⟨hunmet, rfl⟩
  · cases hq

theorem executed_of_closed {p : Progress} {id : AtomId} {planned : List ProtoStep}
    {redo : List Redo} (h : p.resolve id planned = .closedWithRedo redo) :
    ∃ es, p.executed? id = some es ∧ (Tally.start planned).takeAll es = ⟨[], redo⟩ := by
  have hne : p.resolve id planned ≠ .fresh := by simp [h]
  obtain ⟨es, hes, hres⟩ := exists_executed? hne
  rw [hres] at h
  refine ⟨es, hes, ?_⟩
  rcases Tally.resolution_cases ((Tally.start planned).takeAll es) with
    ⟨-, -, ht⟩ | ⟨hunmet, -, ht⟩ | ⟨-, ht⟩ <;> rw [ht] at h <;> cases h
  rw [← hunmet]

/-- The failed steps of a closed atom are in recording order. -/
theorem redo_sublist {p : Progress} {id : AtomId} {planned : List ProtoStep} {redo : List Redo}
    (h : p.resolve id planned = .closedWithRedo redo) :
    (redo.map (·.failedStep)).Sublist p.failedIds := by
  obtain ⟨es, hes, htally⟩ := executed_of_closed h
  have hsub := Tally.redo_takeAll_sublist (Tally.start planned) es
  have hfailed := (failed_sublist hes).map (·.2)
  rw [htally] at hsub
  rw [List.map_map] at hfailed
  exact hsub.trans hfailed

theorem executed_of_inProgress {p : Progress} {id : AtomId} {planned : List ProtoStep}
    {unmet : List (Nat × ProtoStep)} {redo : List Redo}
    (h : p.resolve id planned = .inProgress unmet redo) :
    ∃ es, p.executed? id = some es ∧ (Tally.start planned).takeAll es = ⟨unmet, redo⟩ ∧
      unmet ≠ [] := by
  have hne : p.resolve id planned ≠ .fresh := by simp [h]
  obtain ⟨es, hes, hres⟩ := exists_executed? hne
  rw [hres] at h
  refine ⟨es, hes, ?_⟩
  rcases Tally.resolution_cases ((Tally.start planned).takeAll es) with
    ⟨-, -, ht⟩ | ⟨-, -, ht⟩ | ⟨hunmet, ht⟩ <;> rw [ht] at h <;> cases h
  exact ⟨rfl, hunmet⟩

theorem unmet_sublist {p : Progress} {id : AtomId} {planned : List ProtoStep}
    {unmet : List (Nat × ProtoStep)} {redo : List Redo}
    (h : p.resolve id planned = .inProgress unmet redo) :
    unmet.Sublist (planned.zipIdx.map Prod.swap) := by
  obtain ⟨es, -, htally, -⟩ := executed_of_inProgress h
  have hsub := Tally.unmet_takeAll_sublist (Tally.start planned) es
  rw [htally] at hsub
  exact hsub

/-- An atom of one step that was begun is begun with nothing. -/
theorem inProgress_singleton {p : Progress} {id : AtomId} {step : ProtoStep}
    {unmet : List (Nat × ProtoStep)} {redo : List Redo}
    (h : p.resolve id [step] = .inProgress unmet redo) : unmet = [(0, step)] ∧ redo = [] := by
  obtain ⟨es, -, htally, hne⟩ := executed_of_inProgress h
  have hlen := Tally.length_takeAll_le (Tally.start [step]) es
  rw [htally, Tally.length_start, List.length_singleton] at hlen
  have hpos : 0 < unmet.length := List.length_pos_iff.2 hne
  have hredo : redo.length = 0 := by
    dsimp only at hlen
    omega
  have hunmet : unmet.length = [((0 : Nat), step)].length := by
    dsimp only at hlen
    rw [List.length_singleton]
    omega
  exact ⟨(unmet_sublist h).eq_of_length hunmet, List.length_eq_zero_iff.1 hredo⟩

end Progress
end Observing
