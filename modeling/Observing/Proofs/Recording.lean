import Observing.Cost
import Observing.Proofs.Chain

/-!
# One more record

What changes when an atom is recorded at the end of a history: the progress of its sequence gets one
entry, and the telescope moves on through its executed steps.

* `History.DistinctFailures`   no two executed steps with failed data have the same identity;
* `AtomRecord.Counts`          the record is of a visit that counts;
* `records_push`               the progress with one more record;
* `telescope_push`             the telescope behind one more record.
-/

namespace Observing

namespace History

/-- The identities of the executed steps with failed data, of both sequences. -/
def failedIds (h : History) : List StepId :=
  (h.executedSteps.filter fun (_, s) => s.hasFailedDataset).map fun (_, s) => s.id

/-- No two executed steps with failed data have the same identity. -/
def DistinctFailures (h : History) : Prop := h.failedIds.Nodup

instance (h : History) : Decidable h.DistinctFailures := inferInstanceAs (Decidable h.failedIds.Nodup)

theorem failedIds_eq (h : History) : h.failedIds = h.atoms.flatMap fun a =>
    ((a.steps.filter (·.isExecuted)).filter (·.hasFailedDataset)).map (·.id) := by
  unfold failedIds executedSteps
  rw [List.filter_flatMap, List.map_flatMap]
  refine List.flatMap_congr fun a _ => ?_
  rw [List.filter_map, List.map_map]
  rfl

/-- The history with one more record. -/
def push (h : History) (r : AtomRecord) : History := ⟨h.atoms ++ [r]⟩

theorem latestVisit_push (h : History) (r : AtomRecord) :
    (h.push r).latestVisit = some r.visitId := by
  simp [push, latestVisit]

end History

/-- The record is of a visit that counts behind a history: of the latest, where only that counts. -/
def AtomRecord.Counts (r : AtomRecord) (h : History) (scope : VisitScope) : Prop :=
  scope = .latestVisit → ∀ v, h.latestVisit = some v → r.visitId = v

theorem AtomRecord.counts_allVisits (r : AtomRecord) (h : History) : r.Counts h .allVisits :=
  fun hscope => by cases hscope

theorem inVisit_push_self (h : History) (r : AtomRecord) (scope : VisitScope) :
    History.inVisit (scope.visit (h.push r)) r = true := by
  cases scope with
  | allVisits => rfl
  | latestVisit => simp [VisitScope.visit, History.latestVisit_push, History.inVisit]

theorem inVisit_push {h : History} {r : AtomRecord} {scope : VisitScope} (hr : r.Counts h scope)
    {a : AtomRecord} (ha : a ∈ h.atoms) :
    History.inVisit (scope.visit (h.push r)) a = History.inVisit (scope.visit h) a := by
  cases scope with
  | allVisits => rfl
  | latestVisit =>
    have hlast : h.latestVisit = some r.visitId := by
      cases hv : h.latestVisit with
      | none =>
        rw [History.latestVisit, Option.map_eq_none_iff, List.getLast?_eq_none_iff] at hv
        rw [hv] at ha
        cases ha
      | some v => rw [hr rfl v hv]
    simp only [VisitScope.visit, History.latestVisit_push, hlast]

namespace Progress

/-- What counts about a record. -/
def entry (r : AtomRecord) : AtomId × List ExecutedStep :=
  (r.id, (r.steps.filter (·.isExecuted)).map .ofRecord)

theorem records_ofHistory (h : History) (sequence : SequenceType) (scope : VisitScope) :
    (ofHistory h sequence scope).records = (h.atomsOf sequence (scope.visit h)).map entry := rfl

theorem failuresOf_entry (r : AtomRecord) : (failuresOf (entry r)).map (·.2) =
    ((r.steps.filter (·.isExecuted)).filter (·.hasFailedDataset)).map (·.id) := by
  rw [failuresOf, entry, List.map_map, List.filter_map, List.map_map]
  rfl

theorem failedIds_sublist (h : History) (sequence : SequenceType) (scope : VisitScope) :
    (ofHistory h sequence scope).failedIds.Sublist h.failedIds := by
  rw [failedIds, failures, records_ofHistory, List.flatMap_map, List.map_flatMap,
    History.failedIds_eq]
  simp only [failuresOf_entry]
  exact List.Sublist.flatMap List.filter_sublist _

theorem nodup_failedIds {h : History} (hd : h.DistinctFailures) (sequence : SequenceType)
    (scope : VisitScope) : (ofHistory h sequence scope).failedIds.Nodup :=
  hd.sublist (failedIds_sublist h sequence scope)

theorem recorded_of_executed? {h : History} {sequence : SequenceType} {scope : VisitScope}
    {id : AtomId} {es : List ExecutedStep} {e : ExecutedStep}
    (hes : (ofHistory h sequence scope).executed? id = some es) (he : e ∈ es) :
    ∃ x ∈ h.executedSteps, e = .ofRecord x.2 := by
  rw [executed?_eq_some hes] at he
  obtain ⟨r, hr, her⟩ := List.mem_flatMap.1 he
  obtain ⟨a, ha, rfl⟩ := List.mem_map.1 (List.mem_of_mem_filter hr)
  obtain ⟨s, hs, rfl⟩ := List.mem_map.1 her
  refine ⟨(a, s), List.mem_flatMap.2 ⟨a, ?_, List.mem_map_of_mem hs⟩, rfl⟩
  exact List.mem_of_mem_filter ha

/-- A record of a visit that counts is one more entry of its sequence. -/
theorem records_push {h : History} {r : AtomRecord} {scope : VisitScope} (hr : r.Counts h scope) :
    (ofHistory (h.push r) r.sequenceType scope).records =
      (ofHistory h r.sequenceType scope).records ++ [entry r] := by
  have hold : h.atoms.filter (fun a => a.sequenceType = r.sequenceType &&
      History.inVisit (scope.visit (h.push r)) a) =
      h.atoms.filter (fun a => a.sequenceType = r.sequenceType &&
        History.inVisit (scope.visit h) a) :=
    List.filter_congr fun a ha => by rw [inVisit_push hr ha]
  have hself : [r].filter (fun a => a.sequenceType = r.sequenceType &&
      History.inVisit (scope.visit (h.push r)) a) = [r] := by
    rw [List.filter_singleton, inVisit_push_self]
    simp
  rw [records_ofHistory, records_ofHistory, History.atomsOf, History.atomsOf, ← hold]
  show ((h.atoms ++ [r]).filter _).map entry = _
  rw [List.filter_append, hself, List.map_append]
  rfl

/-! ## Looking atoms up -/

theorem executed?_append_self (p : Progress) (id : AtomId) (es : List ExecutedStep) :
    executed? ⟨p.records ++ [(id, es)]⟩ id = some ((p.executed? id).getD [] ++ es) := by
  unfold executed?
  rw [List.filter_append]
  have hself : [(id, es)].filter (fun r => r.1 = id) = [(id, es)] := by simp
  rw [hself]
  cases p.records.filter (fun r => r.1 = id) with
  | nil => simp
  | cons r rs => simp

theorem executed?_append_of_ne (p : Progress) {id other : AtomId} (hne : other ≠ id)
    (es : List ExecutedStep) : executed? ⟨p.records ++ [(other, es)]⟩ id = p.executed? id := by
  unfold executed?
  rw [List.filter_append]
  have hother : [(other, es)].filter (fun r => r.1 = id) = [] := by simp [hne]
  rw [hother, List.append_nil]

end Progress

/-! ## The telescope -/

namespace TelescopeState

/-- The state behind executed steps. -/
def behind (t : TelescopeState) (rs : List StepRecord) : TelescopeState :=
  rs.foldl (fun s r => s.after r.instrumentConfig r.stepConfig) t

theorem telescope_push {h : History} {r : AtomRecord} {scope : VisitScope}
    (hr : r.Counts h scope) : ofHistory (h.push r) scope =
      (ofHistory h scope).behind (r.steps.filter (·.isExecuted)) := by
  have hsteps : (h.push r).executedSteps =
      h.executedSteps ++ (r.steps.filter (·.isExecuted)).map fun s => (r, s) := by
    simp [History.executedSteps, History.push]
  have hold : h.executedSteps.filter (fun (a, _) => History.inVisit (scope.visit (h.push r)) a) =
      h.executedSteps.filter (fun (a, _) => History.inVisit (scope.visit h) a) := by
    refine List.filter_congr fun x hx => ?_
    obtain ⟨a, ha, hxa⟩ := List.mem_flatMap.1 hx
    obtain ⟨s, -, rfl⟩ := List.mem_map.1 hxa
    exact inVisit_push hr ha
  have hself : ((r.steps.filter (·.isExecuted)).map fun s => (r, s)).filter
      (fun (a, _) => History.inVisit (scope.visit (h.push r)) a) =
      (r.steps.filter (·.isExecuted)).map fun s => (r, s) := by
    rw [List.filter_eq_self]
    intro x hx
    obtain ⟨s, -, rfl⟩ := List.mem_map.1 hx
    exact inVisit_push_self h r scope
  unfold ofHistory
  rw [hsteps, List.filter_append, hold, hself, List.foldl_append, List.foldl_map]
  rfl

end TelescopeState
end Observing
