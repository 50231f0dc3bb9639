import Observing.Proofs.Extended
import Observing.Proofs.Remaining
import Observing.Proofs.Working

/-!
# Identities of one sequence

The atoms that are yielded one after another have identities of their own, and so have all their
steps, on a plan with an end and on one without.

* `Generator.todoKeys`     the places of the steps that an atom hands out;
* `Generator.stepKeysTo`   the places of the steps that arise for the first positions of a plan;
* `nodup_todoKeys`         the steps of one atom have places of their own;
* `nodup_flatMap_todoKeys` and so have the steps of all atoms on the way;
* `nodup_take`             so their identities are distinct.
-/

namespace Observing
namespace Generator

variable {g : Generator} {v : Visit} {n : Nat}

/-! ## Places of steps -/

/-- The places of the steps that an open atom hands out. -/
def todoKeys (g : Generator) (v : Visit) : List StepKey :=
  (g.tally v).unmet.map (fun u => .planned v.key.id u.1) ++
    (g.tally v).redo.map fun q => .repeated v.key.id q.failedStep

theorem map_todo (h : g.opened v = true) :
    (g.todo v).map (·.1) = (g.todoKeys v).map StepKey.id := by
  rw [todo_of_opened h, Tally.handout, todoKeys, List.map_append, List.map_append, List.map_map,
    List.map_map, List.map_map, List.map_map]
  rfl

theorem atom_of_mem_todoKeys {k : StepKey} (hk : k ∈ g.todoKeys v) : k.atom = v.key.id := by
  rcases List.mem_append.1 hk with h | h
  · obtain ⟨u, -, rfl⟩ := List.mem_map.1 h
    rfl
  · obtain ⟨q, -, rfl⟩ := List.mem_map.1 h
    rfl

theorem nodup_unmet (g : Generator) (v : Visit) : ((g.tally v).unmet.map (·.1)).Nodup := by
  have hsub := (Tally.unmet_takeAll_sublist (Tally.start v.planned.steps)
    (g.progress.executed v.key.id)).map (·.1)
  rw [Tally.map_fst_unmet_start] at hsub
  exact List.Nodup.sublist hsub List.nodup_range'

theorem nodup_redo (hn : g.progress.failedIds.Nodup) (v : Visit) :
    ((g.tally v).redo.map (·.failedStep)).Nodup := by
  have hsub := Tally.redo_takeAll_sublist (Tally.start v.planned.steps)
    (g.progress.executed v.key.id)
  have hfailed : (((g.progress.executed v.key.id).filter (·.failed)).map (·.id)).Nodup := by
    cases hes : g.progress.executed? v.key.id with
    | none =>
      rw [Progress.executed, hes]
      exact List.nodup_nil
    | some es =>
      have hids := (Progress.failed_sublist hes).map (·.2)
      rw [List.map_map] at hids
      rw [Progress.executed_of_some hes]
      exact List.Nodup.sublist hids hn
  exact List.Nodup.sublist hsub hfailed

/-- The steps of an atom have places of their own. -/
theorem nodup_todoKeys (hn : g.progress.failedIds.Nodup) (v : Visit) : (g.todoKeys v).Nodup := by
  have hplanned : ((g.tally v).unmet.map fun u => StepKey.planned v.key.id u.1).Nodup := by
    have hmap := (nodup_unmet g v).map (f := StepKey.planned v.key.id) fun i j h =>
      (StepKey.planned.inj h).2
    rwa [List.map_map] at hmap
  have hrepeated : ((g.tally v).redo.map fun q => StepKey.repeated v.key.id q.failedStep).Nodup := by
    have hmap := (nodup_redo hn v).map (f := StepKey.repeated v.key.id) fun f k h =>
      (StepKey.repeated.inj h).2
    rwa [List.map_map] at hmap
  refine List.nodup_append.2 ⟨hplanned, hrepeated, ?_⟩
  intro k hk l hl hkl
  obtain ⟨u, -, rfl⟩ := List.mem_map.1 hk
  obtain ⟨q, -, rfl⟩ := List.mem_map.1 hl
  cases hkl

/-- The steps of all atoms have places of their own, since a place belongs to one atom. -/
theorem nodup_flatMap_todoKeys (hn : g.progress.failedIds.Nodup) {us : List Visit}
    (hids : (us.map (·.key.id)).Nodup) : (us.flatMap g.todoKeys).Nodup := by
  rw [List.nodup_flatMap]
  refine ⟨fun v _ => nodup_todoKeys hn v, ?_⟩
  rw [List.Nodup, List.pairwise_map] at hids
  refine hids.imp ?_
  intro u v hne k hk hl
  exact hne ((atom_of_mem_todoKeys hk).symm.trans (atom_of_mem_todoKeys hl))

/-! ## Places that arise -/

/-- The places of the steps that arise for the first `n` positions of a plan: those of planned atoms,
of repetitions in an atom of their own and of repetitions inside an atom. -/
def stepKeysTo (g : Generator) (n : Nat) : List StepKey :=
  (((List.range n).filterMap g.plannedVisit?).flatMap fun v =>
      (List.range v.planned.steps.length).map (.planned v.key.id))
    ++ g.progress.failedIds.map (fun f => .planned (g.redoAtomId f) 0)
    ++ g.progress.failures.map fun (a, f) => .repeated a f

/-- The visits that come about before position `n`. -/
inductive Before (g : Generator) (n : Nat) : Visit → Prop
  | planned {i : Nat} {v : Visit} : i < n → g.plannedVisit? i = some v → Before g n v
  | repeated {p : Pending} : p.redo.failedStep ∈ g.progress.failedIds → Before g n (g.repeatVisit p)

theorem Path.before {s : Place} {us : List Visit} (h : g.Path ⟨0, []⟩ us s) (hle : s.position ≤ n)
    (hv : v ∈ us) : g.Before n v := by
  obtain ⟨ws, vs, rfl⟩ := List.append_of_mem hv
  obtain ⟨r, hr, hrest⟩ := h.split
  cases hrest with
  | @cons _ r' _ _ _ hl hvs =>
    rcases look_cases hl with ⟨p, rest, hp, -, rfl, -⟩ | ⟨hplanned, rfl⟩
    · obtain ⟨l, hawaits⟩ := hr.awaits (fun p hp => absurd hp List.not_mem_nil) (Nat.le_refl _) p
        (hp ▸ List.mem_cons_self)
      exact .repeated hawaits.mem_failedIds
    · have hlt : r.position < s.position := hvs.position_le
      exact .planned (Nat.lt_of_lt_of_le hlt hle) hplanned

theorem todoKeys_subset (hv : g.Before n v) : g.todoKeys v ⊆ g.stepKeysTo n := by
  intro k hk
  rcases List.mem_append.1 hk with h | h
  · obtain ⟨u, hu, rfl⟩ := List.mem_map.1 h
    have hlt : u.1 < v.planned.steps.length :=
      (List.getElem?_eq_some_iff.1 (getElem?_of_mem_unmet hu)).1
    refine List.mem_append_left _ ?_
    cases hv with
    | @planned i v hi hv =>
      refine List.mem_append_left _ (List.mem_flatMap.2 ⟨v, ?_, ?_⟩)
      · exact List.mem_filterMap.2 ⟨i, List.mem_range.2 hi, hv⟩
      · exact List.mem_map_of_mem (List.mem_range.2 hlt)
    | @repeated p hp =>
      have hzero : u.1 = 0 := Nat.lt_one_iff.1 hlt
      rw [hzero]
      exact List.mem_append_right _ (List.mem_map_of_mem hp)
  · obtain ⟨q, hq, rfl⟩ := List.mem_map.1 h
    have hfails : g.progress.Fails v.key.id q.failedStep q.step.configuration :=
      Progress.fails_of_mem_redo hq
    exact List.mem_append_right _ (List.mem_map.2 ⟨(v.key.id, q.failedStep), hfails.mem_failures, rfl⟩)

/-! ## The atoms that are yielded -/

theorem map_id_price (t : TelescopeState) (us : List Visit) :
    (g.price t us).map (·.atom.id) = us.map (·.key.id) := by
  induction us generalizing t with
  | nil => rfl
  | cons u us ih =>
    rw [price, List.map_cons, ih, List.map_cons]
    rfl

theorem flatMap_steps_price {us : List Visit} (h : ∀ u ∈ us, g.opened u = true) (t : TelescopeState) :
    ((g.price t us).flatMap fun x => x.atom.steps.map (·.id)) =
      (us.flatMap g.todoKeys).map StepKey.id := by
  induction us generalizing t with
  | nil => rfl
  | cons u us ih =>
    have hu : ((g.emission t u).atom.steps.map (·.id)) = (g.todoKeys u).map StepKey.id := by
      rw [← map_todo (h u List.mem_cons_self), ← map_id_stepsOf t u]
      rfl
    rw [price, List.flatMap_cons, List.flatMap_cons, List.map_append, hu,
      ih (fun w hw => h w (List.mem_cons_of_mem _ hw))]

/-- The atoms that are yielded one after another have identities of their own, and so have all their
steps: on any plan, for any history in which failed steps have identities of their own. -/
theorem nodup_take (g : Generator) (h : History) (sequence : SequenceType) (scope : VisitScope)
    (n : Nat) (t : TelescopeState) (hprogress : g.progress = .ofHistory h sequence scope)
    (hdistinct : h.DistinctFailures) (hatoms : AtomKey.Apart (g.atomKeys (g.reach n)))
    (hsteps : StepKey.Apart (g.stepKeysTo (g.reach n))) :
    ((g.take n (.start t)).1.map (·.atom.id)).Nodup ∧
      ((g.take n (.start t)).1.flatMap fun x => x.atom.steps.map (·.id)).Nodup := by
  have hn : g.progress.failedIds.Nodup := by
    rw [hprogress]
    exact Progress.nodup_failedIds hdistinct sequence scope
  have hs : g.Sound (g.reach n) := ⟨hatoms, Progress.singleOwner_of_nodup hn⟩
  obtain ⟨vs, s, hpath, hdone, hopen⟩ := exists_route hs hn
  have hle : s.position ≤ g.reach n := hpath.position_le_reach hs hn hopen
  have htake := take_route hs hn hpath hdone hopen t
  have hseen : g.Seen vs s := hpath.seen hs hn (seen_start g) hle
  have hids : ((vs.filter g.opened).map (·.key.id)).Nodup :=
    (hseen.nodup_ids (hs.mono hle)).sublist (List.filter_sublist.map _)
  have hopened : ∀ v ∈ vs.filter g.opened, g.opened v = true := fun v hv => List.of_mem_filter hv
  have hkeys : ∀ k ∈ (vs.filter g.opened).flatMap g.todoKeys, k ∈ g.stepKeysTo (g.reach n) := by
    intro k hk
    obtain ⟨v, hv, hkv⟩ := List.mem_flatMap.1 hk
    exact todoKeys_subset (hpath.before hle (List.mem_of_mem_filter hv)) hkv
  rw [htake]
  constructor
  · rw [List.map_take, map_id_price]
    exact hids.sublist (List.take_sublist n _)
  · have hall : ((g.price t (vs.filter g.opened)).flatMap fun x => x.atom.steps.map (·.id)).Nodup := by
      rw [flatMap_steps_price hopened]
      exact (nodup_flatMap_todoKeys hn hids).map_on fun k hk l hl hkl =>
        hsteps k (hkeys k hk) l (hkeys l hl) hkl
    exact hall.sublist (List.Sublist.flatMap (List.take_sublist n _) _)

/-- An atom of two steps that is planned for ever. -/
def endlessGenerator : Generator :=
  { sampleGenerator with
    plan := .repeating [⟨none, .science, [sampleStep 0, sampleStep 15]⟩]
      ⟨none, .science, [sampleStep 0, sampleStep 15]⟩ }

/-- Behind a step that failed twice: its repetition, and the first of the atoms that go on for ever. -/
theorem nodup_take_endless :
    (endlessGenerator.take 2 (.start .initial)).1.map (·.atom.steps.length) = [1, 2] ∧
    ((endlessGenerator.take 2 (.start .initial)).1.map (·.atom.id)).Nodup ∧
    ((endlessGenerator.take 2 (.start .initial)).1.flatMap fun x => x.atom.steps.map (·.id)).Nodup :=
  ⟨by decide +kernel, nodup_take endlessGenerator sampleHistory .science .allVisits 2 .initial rfl
    (by decide +kernel) (by decide +kernel) (by decide +kernel)⟩

end Generator
end Observing
