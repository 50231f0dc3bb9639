import Mathlib.Algebra.BigOperators.Group.Finset.Basic
import Observing.Proofs.Exhaustion

/-!
# What is accepted and what is lost

A closed atom leaves its failed steps to be repeated, each in an atom named for the failed step.
Failed steps of one atom that have the same identity share that atom: all but one of them are lost.
Nothing else is.

* `Generator.failedIn`    the failed steps that an atom leaves behind, of one configuration;
* `Generator.lost`        those that share their repetition with another;
* `accepted_add_lost`     what is accepted and what is lost is what was planned;
* `lost_eq_zero_iff`      nothing is lost where failed steps have identities of their own.
-/

namespace Observing
namespace Generator

variable {g : Generator} {p : Pending} {c : Configuration}

/-- The failed steps of a configuration that an atom leaves behind. -/
def failedIn (g : Generator) (c : Configuration) (v : Visit) : List StepId :=
  ((g.left v).filter fun p => p.redo.step.configuration = c).map (·.redo.failedStep)

/-- The failed steps of a configuration that share their repetition with another. -/
def lost (g : Generator) (c : Configuration) : Nat :=
  (g.plannedVisits.map fun v => (g.failedIn c v).length - (g.failedIn c v).dedup.length).sum

theorem mem_failedIn {v : Visit} {f : StepId} : f ∈ g.failedIn c v ↔
    ∃ p ∈ g.left v, p.redo.step.configuration = c ∧ p.redo.failedStep = f := by
  simp only [failedIn, List.mem_map, List.mem_filter, decide_eq_true_eq, and_assoc]

theorem due_of_closed {v : Visit} (h : g.opened v = false) :
    (g.tally v).due c = (g.failedIn c v).length := by
  obtain ⟨hunmet, hleft⟩ := tally_of_closed h
  rw [Tally.due, hunmet, failedIn, hleft, waiting, List.length_map, ← List.countP_eq_length_filter,
    List.countP_map, plannedIn, plannedIn, List.map_nil, List.countP_nil, Nat.zero_add,
    List.countP_map]
  rfl

theorem lost_eq_zero_iff : g.lost c = 0 ↔ ∀ v ∈ g.plannedVisits, (g.failedIn c v).Nodup := by
  rw [lost, List.sum_eq_zero_iff_forall_eq_nat]
  constructor
  · intro h v hv
    have hle := h _ (List.mem_map_of_mem hv)
    have hsub := List.dedup_sublist (g.failedIn c v)
    rw [← List.dedup_eq_self]
    exact hsub.eq_of_length_le (Nat.sub_eq_zero_iff_le.1 hle)
  · intro h n hn
    obtain ⟨v, hv, rfl⟩ := List.mem_map.1 hn
    rw [List.dedup_eq_self.2 (h v hv), Nat.sub_self]

/-- An atom without two equal steps loses none. -/
theorem lost_eq_zero_of_distinct (hr : g.Regular) (hclosed : ∀ v, g.Arises v → g.opened v = false)
    (hdistinct : ∀ v ∈ g.plannedVisits, plannedIn c v.planned.steps ≤ 1) : g.lost c = 0 := by
  rw [lost_eq_zero_iff]
  intro v hv
  have hkept := hr.kept v hv c
  have hle := hdistinct v hv
  rw [due_of_closed (hclosed v (.planned hv))] at hkept
  have hlen : (g.failedIn c v).length ≤ 1 := by omega
  exact List.nodup_iff_count_le_one.2 fun f => List.count_le_length.trans hlen

/-! ## Repetitions -/

/-- The failed steps of a configuration that wait at some time. -/
def waitingIn (g : Generator) (c : Configuration) : Finset StepId :=
  ((g.repetitions.filter fun p => p.redo.step.configuration = c).map (·.redo.failedStep)).toFinset

/-- The failed steps of a configuration that wait behind planned atoms. -/
def rootsIn (g : Generator) (c : Configuration) : Finset StepId :=
  (g.plannedVisits.flatMap (g.failedIn c)).toFinset

/-- The failed step of a repetition. -/
def nextFailed (g : Generator) (f : StepId) : Option StepId :=
  ((g.progress.executed (g.redoAtomId f)).find? (·.failed)).map (·.id)

theorem mem_rootsIn {f : StepId} : f ∈ g.rootsIn c ↔
    ∃ v ∈ g.plannedVisits, ∃ p ∈ g.left v, p.redo.step.configuration = c ∧ p.redo.failedStep = f := by
  simp only [rootsIn, List.mem_toFinset, List.mem_flatMap, mem_failedIn]

section Exhausted

variable (hend : g.plan.onward = none) (hr : g.Regular) (hd : g.Distinct)
  (hclosed : ∀ v, g.Arises v → g.opened v = false)

include hend hr hd

theorem mem_waitingIn {f : StepId} : f ∈ g.waitingIn c ↔
    ∃ l p, g.Awaits g.plan.atoms.length l p ∧ p.redo.step.configuration = c ∧
      p.redo.failedStep = f := by
  simp only [waitingIn, List.mem_toFinset, List.mem_map, List.mem_filter, decide_eq_true_eq,
    mem_repetitions hend (hr.sound hd)]
  constructor
  · rintro ⟨p, ⟨⟨l, hp⟩, hc⟩, hf⟩
    exact ⟨l, p, hp, hc, hf⟩
  · rintro ⟨l, p, hp, hc, hf⟩
    exact ⟨p, ⟨⟨l, hp⟩, hc⟩, hf⟩

include hclosed

omit hend in
theorem nextFailed_eq {l : List StepId} (hp : g.Awaits g.plan.atoms.length l p) {f : StepId}
    (hf : g.nextFailed p.redo.failedStep = some f) :
    ⟨⟨f, p.redo.step⟩, p.kind⟩ ∈ g.left (g.repeatVisit p) := by
  obtain ⟨e, he, -, hleft⟩ := executed_repeat hr hd hp (hclosed _ (.repeated hp))
  rw [nextFailed, he] at hf
  by_cases hfailed : e.failed = true
  · rw [List.find?_cons_of_pos (p := fun e : ExecutedStep => e.failed) hfailed] at hf
    rw [hleft, Tally.again, if_pos hfailed, ← Option.some.inj hf]
    exact List.mem_singleton_self _
  · rw [List.find?_cons_of_neg (p := fun e : ExecutedStep => e.failed) hfailed] at hf
    cases hf

omit hend in
theorem nextFailed_of_left {l : List StepId} (hp : g.Awaits g.plan.atoms.length l p)
    {q : Pending} (hq : q ∈ g.left (g.repeatVisit p)) :
    g.nextFailed p.redo.failedStep = some q.redo.failedStep := by
  obtain ⟨e, he, -, hleft⟩ := executed_repeat hr hd hp (hclosed _ (.repeated hp))
  rw [hleft, Tally.again] at hq
  by_cases hfailed : e.failed = true
  · rw [if_pos hfailed] at hq
    rw [nextFailed, he, List.find?_cons_of_pos (p := fun e : ExecutedStep => e.failed) hfailed,
      List.mem_singleton.1 hq]
    rfl
  · rw [if_neg hfailed] at hq
    cases hq

omit hend in
theorem failure_of_nextFailed {l : List StepId} (hp : g.Awaits g.plan.atoms.length l p) {f : StepId}
    (hf : g.nextFailed p.redo.failedStep = some f) :
    (g.redoAtomId p.redo.failedStep, f) ∈ g.progress.failures := by
  have hfailure := failure_of_mem_left (nextFailed_eq hr hd hclosed hp hf)
  exact hfailure

/-- As many repetitions end their chain as steps wait behind planned atoms. -/
theorem card_ends_waitingIn (c : Configuration) :
    ((g.waitingIn c).filter fun f => g.nextFailed f = none).card = (g.rootsIn c).card := by
  have hs := hr.sound hd
  refine card_ends ?_ ?_ ?_ ?_
  · intro f hf
    obtain ⟨v, hv, p, hp, hc, rfl⟩ := mem_rootsIn.1 hf
    exact (mem_waitingIn hend hr hd).2 ⟨[], p, awaits_of_planned hend hv hp, hc, rfl⟩
  · intro f hf hnot
    obtain ⟨l, p, hp, hc, rfl⟩ := (mem_waitingIn hend hr hd).1 hf
    cases hp with
    | planned _ hv hleft =>
      rw [plannedVisit?_eq hend] at hv
      exact absurd (mem_rootsIn.2 ⟨_, List.mem_of_getElem? hv, p, hleft, hc, rfl⟩) hnot
    | @repeated l q p hq hleft =>
      refine ⟨q.redo.failedStep, (mem_waitingIn hend hr hd).2 ⟨l, q, hq, ?_, rfl⟩,
        nextFailed_of_left hr hd hclosed hq hleft⟩
      rw [← (repeats_same hleft).1]
      exact hc
  · intro b hb f hf
    obtain ⟨l, q, hq, hc, rfl⟩ := (mem_waitingIn hend hr hd).1 hb
    have hnext := Awaits.repeated hq (nextFailed_eq hr hd hclosed hq hf)
    refine ⟨(mem_waitingIn hend hr hd).2 ⟨_, _, hnext, hc, rfl⟩, ?_⟩
    -- a failed step has one atom, and planned atoms are not repetitions
    intro hroot
    obtain ⟨v, hv, p, hp, -, rfl⟩ := mem_rootsIn.1 hroot
    have hsame := hs.owner _ _ _ (failure_of_mem_left hp)
      (failure_of_nextFailed hr hd hclosed hq hf)
    exact hd.planned_ne_repeated hv hq.mem_failedIds hsame
  · intro b hb b' hb' f hf hf'
    obtain ⟨l, q, hq, -, rfl⟩ := (mem_waitingIn hend hr hd).1 hb
    obtain ⟨l', q', hq', -, rfl⟩ := (mem_waitingIn hend hr hd).1 hb'
    have hsame := hs.owner _ _ _ (failure_of_nextFailed hr hd hclosed hq hf)
      (failure_of_nextFailed hr hd hclosed hq' hf')
    exact hd.repeated_inj hq.mem_failedIds hq'.mem_failedIds hsame

/-- A repetition is accepted in its configuration if it ends its chain. -/
theorem acceptedIn_repeat {l : List StepId} (hp : g.Awaits g.plan.atoms.length l p)
    (c : Configuration) : acceptedIn c (g.progress.executed (g.redoAtomId p.redo.failedStep)) =
      if p.redo.failedStep ∈ (g.waitingIn c).filter (fun f => g.nextFailed f = none) then 1
      else 0 := by
  obtain ⟨e, he, hconf, -⟩ := executed_repeat hr hd hp (hclosed _ (.repeated hp))
  have hnext : g.nextFailed p.redo.failedStep = none ↔ e.failed = false := by
    rw [nextFailed, he]
    by_cases hfailed : e.failed = true
    · simp [hfailed]
    · simp [hfailed]
  have hwaiting : p.redo.failedStep ∈ g.waitingIn c ↔ e.configuration = c := by
    rw [mem_waitingIn hend hr hd, hconf]
    constructor
    · rintro ⟨l', p', hp', rfl, hf⟩
      obtain ⟨a, hfails⟩ := hp.fails
      obtain ⟨a', hfails'⟩ := hp'.fails
      exact hr.uniform hfails (hf ▸ hfails')
    · intro hc
      exact ⟨l, p, hp, hc, rfl⟩
  simp only [Finset.mem_filter, hnext, hwaiting, he, acceptedIn, List.countP_singleton,
    Bool.and_eq_true, Bool.not_eq_true', decide_eq_true_eq]
  simp only [and_comm]

theorem sum_acceptedIn_repeat (c : Configuration) :
    ((g.repetitions.map (·.redo.failedStep)).dedup.map fun f =>
      acceptedIn c (g.progress.executed (g.redoAtomId f))).sum = (g.rootsIn c).card := by
  have hawaits : ∀ f ∈ (g.repetitions.map (·.redo.failedStep)).dedup.toFinset,
      ∃ l p, g.Awaits g.plan.atoms.length l p ∧ p.redo.failedStep = f := by
    intro f hf
    rw [List.mem_toFinset, List.mem_dedup, List.mem_map] at hf
    obtain ⟨p, hp, rfl⟩ := hf
    obtain ⟨l, hl⟩ := (mem_repetitions hend (hr.sound hd)).1 hp
    exact ⟨l, p, hl, rfl⟩
  have hsub : (g.waitingIn c).filter (fun f => g.nextFailed f = none) ⊆
      (g.repetitions.map (·.redo.failedStep)).dedup.toFinset := by
    intro f hf
    obtain ⟨l, p, hp, -, rfl⟩ := (mem_waitingIn hend hr hd).1 (Finset.mem_filter.1 hf).1
    rw [List.mem_toFinset, List.mem_dedup]
    exact List.mem_map_of_mem ((mem_repetitions hend (hr.sound hd)).2 ⟨l, hp⟩)
  rw [← List.sum_toFinset _ (List.nodup_dedup _), ← card_ends_waitingIn hend hr hd hclosed c,
    Finset.card_eq_sum_ones, ← Finset.inter_eq_right.2 hsub, ← Finset.sum_ite_mem]
  refine Finset.sum_congr rfl fun f hf => ?_
  obtain ⟨l, p, hp, rfl⟩ := hawaits f hf
  exact acceptedIn_repeat hend hr hd hclosed hp c

end Exhausted

/-! ## All atoms -/

theorem nodup_plannedVisits (hd : g.Distinct) : (g.plannedVisits.map (·.key.id)).Nodup := by
  have hnodup : g.plannedVisits.Nodup := by
    have hzip : g.plan.atoms.zipIdx.Nodup := by
      refine List.Nodup.of_map Prod.snd ?_
      rw [List.zipIdx_map_snd]
      exact List.nodup_range'
    refine List.Nodup.map_on ?_ hzip
    rintro ⟨a, i⟩ - ⟨b, j⟩ - h
    obtain ⟨hkey, rfl⟩ := Visit.mk.inj h
    cases hkey
    rfl
  exact hnodup.map_on fun u hu v hv h => hd.planned_inj hu hv h

/-- The identities of the atoms that arise, each once. -/
def arisingIds (g : Generator) : List AtomId :=
  g.plannedVisits.map (·.key.id) ++ (g.repetitions.map (·.redo.failedStep)).dedup.map g.redoAtomId

theorem card_toFinset_flatMap {α β : Type} [DecidableEq β] {F : α → List β} {vs : List α}
    (h : vs.Pairwise fun u v => Disjoint (F u).toFinset (F v).toFinset) :
    (vs.flatMap F).toFinset.card = (vs.map fun v => (F v).dedup.length).sum := by
  induction vs with
  | nil => rfl
  | cons v vs ih =>
    rw [List.pairwise_cons] at h
    have hdisjoint : Disjoint (F v).toFinset (vs.flatMap F).toFinset := by
      rw [Finset.disjoint_left]
      intro f hv hvs
      obtain ⟨u, hu, hf⟩ := List.mem_flatMap.1 (List.mem_toFinset.1 hvs)
      exact Finset.disjoint_left.1 (h.1 u hu) hv (List.mem_toFinset.2 hf)
    rw [List.flatMap_cons, List.toFinset_append, Finset.card_union_of_disjoint hdisjoint, ih h.2,
      List.card_toFinset, List.map_cons, List.sum_cons]

theorem card_rootsIn (hs : g.Sound g.plan.atoms.length) (hd : g.Distinct) (c : Configuration) :
    (g.rootsIn c).card = (g.plannedVisits.map fun v => (g.failedIn c v).dedup.length).sum := by
  -- a failed step has one atom, so that planned atoms do not share any
  have hpairwise : g.plannedVisits.Pairwise fun u v =>
      Disjoint (g.failedIn c u).toFinset (g.failedIn c v).toFinset := by
    have hids := nodup_plannedVisits hd
    rw [List.Nodup, List.pairwise_map] at hids
    refine hids.imp fun {u v} hne => ?_
    rw [Finset.disjoint_left]
    intro f hu hv
    obtain ⟨p, hp, -, rfl⟩ := mem_failedIn.1 (List.mem_toFinset.1 hu)
    obtain ⟨q, hq, -, hf⟩ := mem_failedIn.1 (List.mem_toFinset.1 hv)
    exact hne (hs.owner _ _ _ (failure_of_mem_left hp) (hf ▸ failure_of_mem_left hq))
  exact card_toFinset_flatMap hpairwise

section Exhausted

variable (hend : g.plan.onward = none) (hr : g.Regular) (hd : g.Distinct)

include hend hr hd

theorem nodup_arisingIds : g.arisingIds.Nodup := by
  have hfailed : ∀ f ∈ (g.repetitions.map (·.redo.failedStep)).dedup, f ∈ g.progress.failedIds := by
    intro f hf
    obtain ⟨p, hp, rfl⟩ := List.mem_map.1 (List.mem_dedup.1 hf)
    obtain ⟨l, hl⟩ := (mem_repetitions hend (hr.sound hd)).1 hp
    exact hl.mem_failedIds
  refine List.Nodup.append (nodup_plannedVisits hd) ?_ ?_
  · refine List.Nodup.map_on ?_ (List.nodup_dedup _)
    intro f hf k hk h
    exact hd.repeated_inj (hfailed f hf) (hfailed k hk) h
  · intro a ha hb
    obtain ⟨v, hv, rfl⟩ := List.mem_map.1 ha
    obtain ⟨f, hf, h⟩ := List.mem_map.1 hb
    exact hd.planned_ne_repeated hv (hfailed f hf) h.symm

theorem mem_arisingIds {r : AtomId × List ExecutedStep} (hmem : r ∈ g.progress.records) :
    r.1 ∈ g.arisingIds := by
  obtain ⟨es, hes⟩ := Progress.executed?_of_mem (List.mem_map_of_mem hmem)
  rcases hr.known hes with ⟨v, hv, hid⟩ | ⟨l, p, hp, hid, -⟩
  · rw [← hid]
    exact List.mem_append_left _ (List.mem_map_of_mem hv)
  · rw [← hid]
    refine List.mem_append_right _ (List.mem_map_of_mem (List.mem_dedup.2 ?_))
    exact List.mem_map_of_mem ((mem_repetitions hend (hr.sound hd)).2 ⟨l, hp⟩)

/-- What is accepted and what is lost is what was planned. -/
theorem accepted_add_lost (hclosed : ∀ v, g.Arises v → g.opened v = false) (c : Configuration) :
    acceptedIn c (g.progress.records.flatMap (·.2)) + g.lost c =
      plannedIn c (g.plan.atoms.flatMap (·.steps)) := by
  have hatoms := Progress.countP_executed (nodup_arisingIds hend hr hd)
    (fun r hmem => mem_arisingIds hend hr hd hmem) fun e => !e.failed && e.configuration = c
  have hrepeat := sum_acceptedIn_repeat hend hr hd hclosed c
  have hkept : ∀ v ∈ g.plannedVisits, acceptedIn c (g.progress.executed v.key.id) +
      (g.failedIn c v).length = plannedIn c v.planned.steps := by
    intro v hv
    rw [Nat.add_comm, ← due_of_closed (hclosed v (.planned hv))]
    exact hr.kept v hv c
  have hplanned : plannedIn c (g.plan.atoms.flatMap (·.steps)) =
      (g.plannedVisits.map fun v => plannedIn c v.planned.steps).sum := by
    have hvisits : g.plannedVisits.map (·.planned) = g.plan.atoms := by
      rw [plannedVisits, List.map_map]
      exact List.zipIdx_map_fst _ _
    rw [plannedIn, List.countP_flatMap, ← hvisits, List.map_map]
    rfl
  rw [arisingIds, List.map_append, List.sum_append, List.map_map, List.map_map] at hatoms
  have hsum : acceptedIn c (g.progress.records.flatMap (·.2)) =
      (g.plannedVisits.map fun v => acceptedIn c (g.progress.executed v.key.id)).sum +
        (g.plannedVisits.map fun v => (g.failedIn c v).dedup.length).sum := by
    rw [← card_rootsIn (hr.sound hd) hd, ← hrepeat]
    exact hatoms
  rw [hsum, hplanned, lost, ← List.sum_map_add, ← List.sum_map_add]
  refine congrArg List.sum (List.map_congr_left fun v hv => ?_)
  have hle := (List.dedup_sublist (g.failedIn c v)).length_le
  have hv' := hkept v hv
  omega

end Exhausted
end Generator
end Observing
