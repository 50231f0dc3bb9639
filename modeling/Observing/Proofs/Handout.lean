import Observing.Proofs.Endless
import Observing.Proofs.Recording

/-!
# Steps executed as they are handed out

An open atom hands out the planned steps that it has not met, and behind them the repetitions.  When
the first of these are executed, in order and with data that do not fail, the atom is left with the
others, and nothing else changes.

* `Tally.handout`         the steps that an atom hands out;
* `takeAll_handout`       the first of them executed leave the others;
* `Generator.recorded`    the generator with one more record;
* `Path.recorded`         the way through the plan stays what it was;
* `stepsOf_executed`      the other steps are handed out as they were before, at the same price.
-/

namespace Observing

namespace Tally

/-- The steps that an atom hands out: those not met yet, and behind them the repetitions. -/
def handout (id : AtomId) (t : Tally) : List (StepId × ProtoStep) :=
  (t.unmet.map fun (i, p) => ((StepKey.planned id i).id, p))
    ++ t.redo.map fun r => ((StepKey.repeated id r.failedStep).id, r.step)

theorem length_handout (id : AtomId) (t : Tally) :
    (t.handout id).length = t.unmet.length + t.redo.length := by
  rw [handout, List.length_append, List.length_map, List.length_map]

theorem handout_drop (id : AtomId) (t : Tally) (k : Nat) :
    handout id ⟨t.unmet.drop k, t.redo.drop (k - t.unmet.length)⟩ = (t.handout id).drop k := by
  rw [handout, handout, List.drop_append, List.length_map, List.map_drop, List.map_drop]

/-- The first steps handed out, executed in order, leave the others. -/
theorem takeAll_handout {id : AtomId} {t : Tally} {es : List ExecutedStep} {k : Nat}
    (h : List.Forall₂ (fun e x => ExecutedStep.Does e x.2) es ((t.handout id).take k)) :
    t.takeAll es = ⟨t.unmet.drop k, t.redo.drop (k - t.unmet.length)⟩ := by
  obtain ⟨unmet, redo⟩ := t
  rw [handout, List.take_append, List.length_map, ← List.map_take, ← List.map_take] at h
  have hplanned := List.forall₂_take_append _ _ _ h
  have hrepeats := List.forall₂_drop_append _ _ _ h
  rw [List.forall₂_map_right_iff] at hplanned hrepeats
  rw [List.length_map] at hplanned hrepeats
  have hunmet := takeAll_unmet hplanned (unmet.drop k) redo
  rw [List.take_append_drop] at hunmet
  have hes : takeAll ⟨unmet, redo⟩ es =
      takeAll ⟨unmet.drop k, redo⟩ (es.drop (unmet.take k).length) := by
    rw [← hunmet, ← takeAll_append, List.take_append_drop]
  rw [hes]
  dsimp only
  rcases Nat.lt_or_ge k unmet.length with hlt | hge
  · -- some planned step is still unmet: no repetition was executed
    have hk : k - unmet.length = 0 := Nat.sub_eq_zero_of_le hlt.le
    rw [hk, List.take_zero, List.forall₂_nil_right_iff] at hrepeats
    rw [hrepeats, hk, List.drop_zero]
    rfl
  · have hredo := takeAll_redo hrepeats (redo.drop (k - unmet.length))
    rw [List.take_append_drop] at hredo
    rw [List.drop_eq_nil_of_le hge, hredo]

end Tally

namespace Generator

variable {g : Generator}

/-- What is to be done on the atom of a visit. -/
def tally (g : Generator) (v : Visit) : Tally :=
  (Tally.start v.planned.steps).takeAll ((g.progress.executed? v.key.id).getD [])

theorem todo_of_opened {v : Visit} (h : g.opened v = true) :
    g.todo v = (g.tally v).handout v.key.id := by
  unfold opened at h
  unfold todo
  cases hr : g.resolution v with
  | fresh =>
    have hnone : g.progress.executed? v.key.id = none :=
      (Progress.resolve_eq_fresh_iff _ _ _).1 hr
    simp [tally, hnone, Tally.takeAll, Tally.start, Tally.handout, stepsToDo]
  | inProgress unmet redo =>
    obtain ⟨es, hes, htally, -⟩ := Progress.executed_of_inProgress hr
    rw [tally, hes, Option.getD_some, htally]
    rfl
  | satisfied =>
    rw [hr] at h
    cases h
  | closedWithRedo redo =>
    rw [hr] at h
    cases h

/-! ## One more record -/

/-- The generator with one more record. -/
def recorded (g : Generator) (id : AtomId) (es : List ExecutedStep) : Generator :=
  { g with progress := ⟨g.progress.records ++ [(id, es)]⟩ }

variable {id : AtomId} {es : List ExecutedStep}

theorem resolution_recorded_of_ne {u : Visit} (h : u.key.id ≠ id) :
    (g.recorded id es).resolution u = g.resolution u := by
  unfold resolution recorded Progress.resolve
  dsimp only
  rw [Progress.executed?_append_of_ne _ h.symm]

theorem resolution_recorded_self (v : Visit) :
    (g.recorded v.key.id es).resolution v = ((g.tally v).takeAll es).resolution := by
  unfold resolution recorded Progress.resolve tally
  dsimp only
  rw [Progress.executed?_append_self]
  dsimp only
  rw [Tally.takeAll_append]

theorem failures_recorded (hes : ∀ e ∈ es, e.failed = false) :
    (g.recorded id es).progress.failures = g.progress.failures := by
  have hnone : es.filter (·.failed) = [] :=
    List.filter_eq_nil_iff.2 fun e he => by rw [hes e he]; exact Bool.false_ne_true
  show (g.progress.records ++ [(id, es)]).flatMap Progress.failuresOf = _
  rw [List.flatMap_append, List.flatMap_singleton, Progress.failuresOf, hnone, List.map_nil,
    List.append_nil]
  rfl

theorem failedIds_recorded (hes : ∀ e ∈ es, e.failed = false) :
    (g.recorded id es).progress.failedIds = g.progress.failedIds := by
  rw [Progress.failedIds, failures_recorded hes, Progress.failedIds]

theorem Sound.recorded {n : Nat} (hs : g.Sound n) (hes : ∀ e ∈ es, e.failed = false) :
    (g.recorded id es).Sound n := by
  refine ⟨?_, ?_⟩
  · have hkeys : (g.recorded id es).atomKeys n = g.atomKeys n := by
      rw [atomKeys, failedIds_recorded hes]
      rfl
    rw [hkeys]
    exact hs.apart
  · unfold Progress.SingleOwner
    rw [failures_recorded hes]
    exact hs.owner

theorem reach_recorded (m : Nat) : (g.recorded id es).reach m = g.reach (m + 1) := by
  unfold reach
  show (if g.plan.isUnbounded = true then (g.progress.records ++ [(id, es)]).length + m + 1 else _) = _
  rw [List.length_append, List.length_singleton]
  split
  · omega
  · rfl

theorem Sound.recorded_reach {m : Nat} (hs : g.Sound (g.reach (m + 1)))
    (hes : ∀ e ∈ es, e.failed = false) :
    (g.recorded id es).Sound ((g.recorded id es).reach m) := by
  rw [reach_recorded]
  exact hs.recorded hes

theorem nodup_recorded (hn : g.progress.failedIds.Nodup) (hes : ∀ e ∈ es, e.failed = false) :
    (g.recorded id es).progress.failedIds.Nodup := by
  rw [failedIds_recorded hes]
  exact hn

/-! ## The way with one more record -/

theorem ahead_recorded (s : Place) : (g.recorded id es).ahead s = g.ahead s := rfl

theorem look_recorded {s s' : Place} {v : Visit} (h : g.look s = some (v, s'))
    (hleft : (g.recorded id es).left v = g.left v) :
    (g.recorded id es).look s = some (v, s') := by
  obtain ⟨⟨u, next⟩, hahead, he⟩ := Option.map_eq_some_iff.1 h
  cases he
  rw [look, ahead_recorded, hahead, Option.map_some]
  dsimp only
  rw [hleft]

theorem look_recorded_none {s : Place} (h : g.look s = none) : (g.recorded id es).look s = none := by
  rw [look, ahead_recorded, Option.map_eq_none_iff]
  exact Option.map_eq_none_iff.1 h

/-- The way through the plan stays what it was where atoms leave the same behind. -/
theorem Path.recorded {s s' : Place} {vs : List Visit} (h : g.Path s vs s')
    (hleft : ∀ v ∈ vs, (g.recorded id es).left v = g.left v) :
    (g.recorded id es).Path s vs s' := by
  induction h with
  | nil => exact .nil _
  | cons hl _ ih =>
    exact .cons (look_recorded hl (hleft _ List.mem_cons_self))
      (ih fun v hv => hleft v (List.mem_cons_of_mem _ hv))

/-! ## The atom that was executed -/

theorem passed_of_does {es : List ExecutedStep} {xs : List (StepId × ProtoStep)}
    (h : List.Forall₂ (fun e x => ExecutedStep.Does e x.2) es xs) : ∀ e ∈ es, e.failed = false := by
  induction h with
  | nil => intro e he; cases he
  | cons hx _ ih =>
    intro e he
    rcases List.mem_cons.1 he with rfl | he
    · exact hx.failed
    · exact ih e he

variable {v : Visit} {k : Nat}

theorem resolution_executed (hv : g.opened v = true)
    (hes : List.Forall₂ (fun e x => ExecutedStep.Does e x.2) es ((g.todo v).take k)) :
    (g.recorded v.key.id es).resolution v = Tally.resolution
      ⟨(g.tally v).unmet.drop k, (g.tally v).redo.drop (k - (g.tally v).unmet.length)⟩ := by
  rw [todo_of_opened hv] at hes
  rw [resolution_recorded_self, Tally.takeAll_handout hes]

/-- As long as planned steps are not met, the atom is begun and has the steps left that were not
executed. -/
theorem resolution_executed_lt (hv : g.opened v = true)
    (hes : List.Forall₂ (fun e x => ExecutedStep.Does e x.2) es ((g.todo v).take k))
    (hk : k < (g.tally v).unmet.length) :
    (g.recorded v.key.id es).resolution v =
      .inProgress ((g.tally v).unmet.drop k) ((g.tally v).redo.drop (k - (g.tally v).unmet.length)) := by
  have hne : ((g.tally v).unmet.drop k).isEmpty = false := by
    rw [List.isEmpty_eq_false_iff, ne_eq, List.drop_eq_nil_iff]
    omega
  rw [resolution_executed hv hes, Tally.resolution, hne]
  rfl

theorem opened_executed_ge (hv : g.opened v = true)
    (hes : List.Forall₂ (fun e x => ExecutedStep.Does e x.2) es ((g.todo v).take k))
    (hk : (g.tally v).unmet.length ≤ k) : (g.recorded v.key.id es).opened v = false := by
  have hnil : ((g.tally v).unmet.drop k).isEmpty = true :=
    List.isEmpty_iff.2 (List.drop_eq_nil_of_le hk)
  rw [opened, resolution_executed hv hes, Tally.resolution, hnil, if_pos rfl]
  split <;> rfl

theorem resolution_executed_all (hv : g.opened v = true)
    (hes : List.Forall₂ (fun e x => ExecutedStep.Does e x.2) es (g.todo v)) :
    (g.recorded v.key.id es).resolution v = .satisfied := by
  have hlen : (g.todo v).length = (g.tally v).unmet.length + (g.tally v).redo.length := by
    rw [todo_of_opened hv, Tally.length_handout]
  rw [← List.take_length (l := g.todo v)] at hes
  rw [resolution_executed hv hes, hlen, List.drop_eq_nil_of_le (Nat.le_add_right _ _),
    Nat.add_sub_cancel_left, List.drop_length]
  rfl

theorem todo_executed_lt (hv : g.opened v = true)
    (hes : List.Forall₂ (fun e x => ExecutedStep.Does e x.2) es ((g.todo v).take k))
    (hk : k < (g.tally v).unmet.length) :
    (g.recorded v.key.id es).todo v = (g.todo v).drop k := by
  rw [todo, resolution_executed_lt hv hes hk, todo_of_opened hv, ← Tally.handout_drop]
  rfl

end Generator

namespace CostModel

theorem estimateAll_drop (m : CostModel) (t : TelescopeState) (ps : List ProtoStep) (k : Nat) :
    (m.estimateAll (m.estimateAll t (ps.take k)).2 (ps.drop k)).1 = (m.estimateAll t ps).1.drop k := by
  have hsplit := m.estimateAll_append t (ps.take k) (ps.drop k)
  rw [List.take_append_drop] at hsplit
  rw [hsplit]
  rcases Nat.le_total k ps.length with hle | hge
  · have hlen : (m.estimateAll t (ps.take k)).1.length = k := by
      rw [length_estimateAll, List.length_take_of_le hle]
    rw [List.drop_left' hlen]
  · have hnil : ps.drop k = [] := List.drop_eq_nil_of_le hge
    have hlen : (m.estimateAll t (ps.take k)).1.length ≤ k := by
      rw [length_estimateAll]
      exact (List.length_take_le' k ps).trans hge
    rw [hnil]
    show [] = (_ ++ []).drop k
    rw [List.append_nil, List.drop_eq_nil_of_le hlen]

end CostModel

namespace Generator

variable {g : Generator} {v : Visit} {k : Nat} {es : List ExecutedStep}

/-- The steps left of an atom are handed out as they were before, at the same price. -/
theorem stepsOf_executed (hv : g.opened v = true)
    (hes : List.Forall₂ (fun e x => ExecutedStep.Does e x.2) es ((g.todo v).take k))
    (hk : k < (g.tally v).unmet.length) (t : TelescopeState) :
    (g.recorded v.key.id es).stepsOf
      (g.costs.estimateAll t (((g.todo v).take k).map (·.2))).2 v = (g.stepsOf t v).drop k := by
  have hestimates := g.costs.estimateAll_drop t ((g.todo v).map (·.2)) k
  rw [← List.map_take, ← List.map_drop] at hestimates
  unfold stepsOf estimates
  rw [todo_executed_lt hv hes hk]
  show List.map _ (((g.todo v).drop k).zip (g.costs.estimateAll _ _).1) = _
  rw [hestimates, ← List.map_drop, List.zip_eq_zipWith, List.zip_eq_zipWith, List.drop_zipWith]

end Generator
end Observing
