import Observing.Proofs.Growth
import Observing.Proofs.Waves

/-!
# Where executed steps come from

A step is recorded with the identity of the place at which it was handed out.  Identical steps of an
atom share a place from one call to the next, but a place belongs to one atom and has one
configuration.

* `Generator.Arises`     the visits that come about;
* `Generator.Placed`     the places at which steps of a configuration are handed out;
* `Generator.Regular`    what holds when steps are recorded as they are handed out;
* `Regular.sound`        no failed step is recorded under two atoms;
* `opened_repeatVisit`   a repetition is open until it is executed, and it is executed once;
* `key_id_ne`            no open atom has the identity of a closed one.
-/

namespace Observing

/-- The atom of a place. -/
def StepKey.atom : StepKey → AtomId
  | .planned atom _ => atom
  | .repeated atom _ => atom

/-- Distinct places among those given have distinct identities. -/
def StepKey.Apart (keys : List StepKey) : Prop :=
  ∀ k ∈ keys, ∀ l ∈ keys, k.id = l.id → k = l

instance (keys : List StepKey) : Decidable (StepKey.Apart keys) :=
  inferInstanceAs (Decidable (∀ k ∈ keys, ∀ l ∈ keys, k.id = l.id → k = l))

namespace Generator

variable {g : Generator} {c d : Configuration}

/-- The places of the steps that arise: those of planned atoms, of repetitions in an atom of their own
and of repetitions inside an atom. -/
def stepKeys (g : Generator) : List StepKey :=
  (g.plannedVisits.flatMap fun v => (List.range v.planned.steps.length).map (.planned v.key.id))
    ++ g.progress.failedIds.map (fun f => .planned (g.redoAtomId f) 0)
    ++ g.progress.failures.map fun (a, f) => .repeated a f

/-- All places that arise have identities of their own. -/
structure Distinct (g : Generator) : Prop where
  atoms : AtomKey.Apart (g.atomKeys g.plan.atoms.length)
  steps : StepKey.Apart g.stepKeys

/-! ## Visits -/

theorem plannedVisits_key {v : Visit} (h : v ∈ g.plannedVisits) :
    ∃ i < g.plan.atoms.length, v.key = .planned g.observation g.sequence i ∧
      g.plannedVisits[i]? = some v := by
  obtain ⟨i, hi, hv⟩ := List.mem_iff_getElem.1 h
  refine ⟨i, by rwa [length_plannedVisits] at hi, ?_, hv ▸ List.getElem?_eq_getElem hi⟩
  rw [← hv]
  simp [plannedVisits]

theorem Distinct.planned_inj (hd : g.Distinct) {u v : Visit} (hu : u ∈ g.plannedVisits)
    (hv : v ∈ g.plannedVisits) (h : u.key.id = v.key.id) : u = v := by
  obtain ⟨i, hi, hui, hgeti⟩ := plannedVisits_key hu
  obtain ⟨j, hj, hvj, hgetj⟩ := plannedVisits_key hv
  rw [hui, hvj] at h
  have hij := atomId_inj hd.atoms hi hj h
  subst hij
  exact Option.some.inj (hgeti.symm.trans hgetj)

theorem Distinct.planned_ne_repeated (hd : g.Distinct) {v : Visit} (hv : v ∈ g.plannedVisits)
    {f : StepId} (hf : f ∈ g.progress.failedIds) : v.key.id ≠ g.redoAtomId f := by
  obtain ⟨i, hi, hvi, -⟩ := plannedVisits_key hv
  rw [hvi]
  exact atomId_ne_redoAtomId hd.atoms hi hf

theorem Distinct.repeated_inj (hd : g.Distinct) {f k : StepId} (hf : f ∈ g.progress.failedIds)
    (hk : k ∈ g.progress.failedIds) (h : g.redoAtomId f = g.redoAtomId k) : f = k :=
  redoAtomId_inj hd.atoms hf hk h

/-- The visits that come about: those of planned atoms, and those that repeat a waiting step. -/
inductive Arises (g : Generator) : Visit → Prop
  | planned {v : Visit} : v ∈ g.plannedVisits → Arises g v
  | repeated {l : List StepId} {p : Pending} :
    g.Awaits g.plan.atoms.length l p → Arises g (g.repeatVisit p)

theorem Path.arises (hend : g.plan.onward = none) {us : List Visit} {s : Place}
    (h : g.Path ⟨0, []⟩ us s) {v : Visit} (hv : v ∈ us) : g.Arises v := by
  obtain ⟨ws, vs, rfl⟩ := List.append_of_mem hv
  obtain ⟨r, hr, hrest⟩ := h.split
  cases hrest with
  | cons hl _ =>
    rcases look_cases hl with ⟨p, rest, hp, -, rfl, -⟩ | ⟨hplanned, -⟩
    · have hle := hr.position_le_length hend (Nat.zero_le _)
      obtain ⟨l, hl⟩ := hr.awaits (fun p hp => absurd hp List.not_mem_nil) hle p
        (hp ▸ List.mem_cons_self)
      exact .repeated hl
    · rw [plannedVisit?_eq hend] at hplanned
      exact .planned (List.mem_of_getElem? hplanned)

theorem Awaits.fails {n : Nat} {l : List StepId} {p : Pending} (h : g.Awaits n l p) :
    ∃ a, g.progress.Fails a p.redo.failedStep p.redo.step.configuration := by
  cases h with
  | planned _ _ hp => exact ⟨_, fails_of_mem_left hp⟩
  | repeated _ hp => exact ⟨_, fails_of_mem_left hp⟩

/-! ## Places of steps -/

/-- The places at which steps of a configuration are handed out. -/
inductive Placed (g : Generator) : StepKey → Configuration → Prop
  | planned {v : Visit} {i : Nat} {step : ProtoStep} :
    v ∈ g.plannedVisits → v.planned.steps[i]? = some step →
      Placed g (.planned v.key.id i) step.configuration
  | repeated {a : AtomId} {f : StepId} {c : Configuration} :
    g.progress.Fails a f c → Placed g (.planned (g.redoAtomId f) 0) c
  | again {v : Visit} {f : StepId} {c : Configuration} :
    v ∈ g.plannedVisits → g.progress.Fails v.key.id f c → Placed g (.repeated v.key.id f) c

theorem Placed.mem_stepKeys {k : StepKey} (h : g.Placed k c) : k ∈ g.stepKeys := by
  cases h with
  | @planned v i step hv hi =>
    refine List.mem_append_left _ (List.mem_append_left _ (List.mem_flatMap.2 ⟨v, hv, ?_⟩))
    exact List.mem_map_of_mem (List.mem_range.2 (List.getElem?_eq_some_iff.1 hi).1)
  | @repeated a f c hf =>
    exact List.mem_append_left _ (List.mem_append_right _ (List.mem_map.2 ⟨f, hf.mem_failedIds, rfl⟩))
  | @again v f c hv hf =>
    exact List.mem_append_right _ (List.mem_map.2 ⟨(v.key.id, f), hf.mem_failures, rfl⟩)

/-- What holds when steps are recorded as they are handed out: an executed step has the identity of a
place of its atom, a failed step has one configuration, atoms that are recorded arise, an atom that
repeats a step is executed once, and nothing of a planned atom is lost. -/
structure Regular (g : Generator) : Prop where
  origin : ∀ a, ∀ e ∈ g.progress.executed a,
    ∃ k, g.Placed k e.configuration ∧ k.atom = a ∧ k.id = e.id
  uniform : ∀ {a b f c d}, g.progress.Fails a f c → g.progress.Fails b f d → c = d
  known : ∀ {a es}, g.progress.executed? a = some es →
    (∃ v ∈ g.plannedVisits, v.key.id = a) ∨
      ∃ l p, g.Awaits g.plan.atoms.length l p ∧ g.redoAtomId p.redo.failedStep = a ∧ es.length ≤ 1
  kept : ∀ v ∈ g.plannedVisits, ∀ c,
    (g.tally v).due c + acceptedIn c (g.progress.executed v.key.id) = plannedIn c v.planned.steps

namespace Regular

theorem placed_unique (hr : g.Regular) (hd : g.Distinct) {k : StepKey} (h : g.Placed k c)
    (h' : g.Placed k d) : c = d := by
  cases h with
  | @planned v i step hv hi =>
    generalize hk : StepKey.planned v.key.id i = k at h'
    cases h' with
    | @planned u j other hu hj =>
      obtain ⟨hid, rfl⟩ := StepKey.planned.inj hk
      rw [hd.planned_inj hv hu hid, hj] at hi
      exact congrArg ProtoStep.configuration (Option.some.inj hi).symm
    | repeated hf =>
      exact absurd (StepKey.planned.inj hk).1 (hd.planned_ne_repeated hv hf.mem_failedIds)
    | again _ _ => cases hk
  | @repeated a f c hf =>
    generalize hk : StepKey.planned (g.redoAtomId f) 0 = k at h'
    cases h' with
    | planned hu _ =>
      exact absurd (StepKey.planned.inj hk).1.symm (hd.planned_ne_repeated hu hf.mem_failedIds)
    | repeated hf' =>
      have hsame := hd.repeated_inj hf.mem_failedIds hf'.mem_failedIds (StepKey.planned.inj hk).1
      exact hr.uniform hf (hsame ▸ hf')
    | again _ _ => cases hk
  | @again v f c hv hf =>
    generalize hk : StepKey.repeated v.key.id f = k at h'
    cases h' with
    | planned _ _ => cases hk
    | repeated _ => cases hk
    | again _ hf' =>
      obtain ⟨-, rfl⟩ := StepKey.repeated.inj hk
      exact hr.uniform hf hf'

/-- No failed step is recorded under two atoms. -/
theorem sound (hr : g.Regular) (hd : g.Distinct) : g.Sound g.plan.atoms.length := by
  refine ⟨hd.atoms, fun a b f ha hb => ?_⟩
  obtain ⟨c, e, he, -, rfl, -⟩ := Progress.mem_failures_iff.1 ha
  obtain ⟨c', e', he', -, hid, -⟩ := Progress.mem_failures_iff.1 hb
  obtain ⟨k, hk, rfl, hke⟩ := hr.origin a e he
  obtain ⟨l, hl, rfl, hle⟩ := hr.origin b e' he'
  have hsame : k.id = l.id := by rw [hke, hle, hid]
  rw [hd.steps k hk.mem_stepKeys l hl.mem_stepKeys hsame]

variable {l : List StepId} {p : Pending}

/-- A repetition is executed in the configuration in which its step failed. -/
theorem configuration_repeat (hr : g.Regular) (hd : g.Distinct)
    (hp : g.Awaits g.plan.atoms.length l p) {e : ExecutedStep}
    (he : e ∈ g.progress.executed (g.redoAtomId p.redo.failedStep)) :
    e.configuration = p.redo.step.configuration := by
  obtain ⟨a, hfails⟩ := hp.fails
  obtain ⟨k, hk, hatom, -⟩ := hr.origin _ e he
  generalize hc : e.configuration = c at hk
  cases hk with
  | planned hv _ => exact absurd hatom (hd.planned_ne_repeated hv hfails.mem_failedIds)
  | again hv _ => exact absurd hatom (hd.planned_ne_repeated hv hfails.mem_failedIds)
  | @repeated _ f _ hf =>
    have hsame := hd.repeated_inj hf.mem_failedIds hfails.mem_failedIds hatom
    exact hr.uniform hf (hsame ▸ hfails)

theorem length_repeat_le (hr : g.Regular) (hd : g.Distinct)
    (hp : g.Awaits g.plan.atoms.length l p) :
    (g.progress.executed (g.redoAtomId p.redo.failedStep)).length ≤ 1 := by
  unfold Progress.executed
  cases hes : g.progress.executed? (g.redoAtomId p.redo.failedStep) with
  | none => exact Nat.zero_le 1
  | some es =>
    rcases hr.known hes with ⟨v, hv, hid⟩ | ⟨k, q, -, -, hlen⟩
    · exact absurd hid (hd.planned_ne_repeated hv hp.mem_failedIds)
    · exact hlen

end Regular

/-! ## Open and closed atoms -/

theorem resolution_of_executed {v : Visit} {es : List ExecutedStep}
    (h : g.progress.executed? v.key.id = some es) : g.resolution v = (g.tally v).resolution := by
  rw [resolution, Progress.resolve_of_executed? h, tally, h]
  rfl

theorem opened_of_executed {v : Visit} {es : List ExecutedStep}
    (h : g.progress.executed? v.key.id = some es) :
    g.opened v = !(g.tally v).unmet.isEmpty := by
  rw [opened, resolution_of_executed h]
  rcases (g.tally v).resolution_cases with ⟨hunmet, -, ht⟩ | ⟨hunmet, -, ht⟩ | ⟨hunmet, ht⟩ <;>
    rw [ht]
  · rw [hunmet]
    rfl
  · rw [hunmet]
    rfl
  · rw [List.isEmpty_eq_false_iff.2 hunmet]
    rfl

/-- A closed atom has met its planned steps, and leaves those behind that are to be repeated. -/
theorem tally_of_closed {v : Visit} (h : g.opened v = false) :
    (g.tally v).unmet = [] ∧ g.left v = waiting v.planned.kind (g.tally v).redo := by
  cases hes : g.progress.executed? v.key.id with
  | none =>
    have hfresh : g.resolution v = .fresh := (Progress.resolve_eq_fresh_iff _ _ _).2 hes
    rw [opened, hfresh] at h
    cases h
  | some es =>
    rw [opened, resolution_of_executed hes] at h
    rw [left, resolution_of_executed hes]
    rcases (g.tally v).resolution_cases with ⟨hunmet, hredo, ht⟩ | ⟨hunmet, -, ht⟩ | ⟨-, ht⟩ <;>
      rw [ht] at h ⊢
    · rw [hredo]
      exact ⟨hunmet, rfl⟩
    · exact ⟨hunmet, rfl⟩
    · cases h

theorem tally_repeatVisit (g : Generator) (p : Pending) :
    g.tally (g.repeatVisit p) = (Tally.start [p.redo.step]).takeAll
      (g.progress.executed (g.redoAtomId p.redo.failedStep)) := rfl

namespace Regular

variable {l : List StepId} {p : Pending}

/-- A repetition is open until it is executed. -/
theorem opened_repeatVisit (hr : g.Regular) (hd : g.Distinct)
    (hp : g.Awaits g.plan.atoms.length l p) :
    g.opened (g.repeatVisit p) = true ↔ g.progress.executed (g.redoAtomId p.redo.failedStep) = [] := by
  have hconf : ∀ e ∈ g.progress.executed (g.redoAtomId p.redo.failedStep),
      e.executes p.redo.step = true := fun e he =>
    ExecutedStep.executes_iff.2 (hr.configuration_repeat hd hp he).symm
  have htally := tally_repeatVisit g p
  cases hes : g.progress.executed? (g.redoAtomId p.redo.failedStep) with
  | none =>
    have hfresh : g.resolution (g.repeatVisit p) = .fresh :=
      (Progress.resolve_eq_fresh_iff _ _ _).2 hes
    rw [opened, hfresh, Progress.executed, hes]
    exact iff_of_true rfl rfl
  | some es =>
    rw [Progress.executed_of_some hes] at hconf htally ⊢
    rw [opened_of_executed (v := g.repeatVisit p) hes, htally]
    cases es with
    | nil => exact iff_of_true rfl rfl
    | cons e rest =>
      have hsub := Tally.unmet_takeAll_sublist ((Tally.start [p.redo.step]).take e) rest
      have htake : ((Tally.start [p.redo.step]).take e).unmet = [] := by
        simp [Tally.start, Tally.take, hconf e List.mem_cons_self]
      rw [htake] at hsub
      rw [Tally.takeAll_cons, List.sublist_nil.1 hsub]
      exact iff_of_false Bool.false_ne_true (List.cons_ne_nil _ _)

/-- No open atom has the identity of a closed one. -/
theorem key_id_ne (hr : g.Regular) (hd : g.Distinct) {u v : Visit} (hu : g.Arises u)
    (hv : g.Arises v) (hclosed : g.opened u = false) (hopen : g.opened v = true) :
    u.key.id ≠ v.key.id := by
  intro h
  have hsame : g.opened u = g.opened v := by
    cases hu with
    | planned hu =>
      cases hv with
      | planned hv => rw [hd.planned_inj hu hv h]
      | repeated hq => exact absurd h (hd.planned_ne_repeated hu hq.mem_failedIds)
    | @repeated l p hp =>
      cases hv with
      | planned hv => exact absurd h.symm (hd.planned_ne_repeated hv hp.mem_failedIds)
      | @repeated k q hq =>
        rw [Bool.eq_iff_iff, hr.opened_repeatVisit hd hp, hr.opened_repeatVisit hd hq,
          hd.repeated_inj hp.mem_failedIds hq.mem_failedIds h]
  rw [hclosed, hopen] at hsame
  cases hsame

end Regular
end Generator
end Observing
