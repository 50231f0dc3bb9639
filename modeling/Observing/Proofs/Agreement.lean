import Mathlib.Data.Option.Basic
import Observing.Proofs.Exposures
import Observing.Proofs.Origin
import Observing.Proofs.Searches
import Observing.Proofs.Working

/-!
# Progress that agrees

Which record an executed step was part of does not matter, nor what was recorded without being
executed.  Where two progresses have the same executed steps of every atom, the same atoms are met on
the way through a plan, and the same of them are open with the same steps to do.

* `Progress.Agrees`      every atom has the same executed steps;
* `Agrees.perm`          then the executed steps of all atoms are the same up to their order;
* `Agrees.look`          every look meets the same atom and leaves the same behind;
* `Agrees.take`          on a plan with an end the same atoms are yielded, at whatever price;
* `Agrees.searches`      searches end on both sides or on none.
-/

namespace Observing

namespace Progress

variable {p q : Progress}

/-- Every atom has the same executed steps, whatever records they are part of. -/
def Agrees (p q : Progress) : Prop := ∀ id, p.executed id = q.executed id

theorem Agrees.symm (h : p.Agrees q) : q.Agrees p := fun id => (h id).symm

/-- The executed steps of all atoms, each with its atom. -/
def listed (p : Progress) : List (AtomId × ExecutedStep) :=
  p.records.flatMap fun r => r.2.map fun e => (r.1, e)

theorem executed_eq_listed (p : Progress) (id : AtomId) :
    p.executed id = (p.listed.filter (·.1 = id)).map (·.2) := by
  rw [executed_eq, listed]
  induction p.records with
  | nil => rfl
  | cons r rs ih =>
    rw [List.flatMap_cons, List.filter_append, List.map_append, ← ih]
    by_cases hr : r.1 = id
    · rw [List.filter_cons_of_pos (by simpa using hr), List.flatMap_cons]
      simp [List.filter_map, Function.comp_def, hr]
    · rw [List.filter_cons_of_neg (by simpa using hr)]
      simp [List.filter_map, Function.comp_def, hr]

theorem executedCount_eq_listed (p : Progress) : p.executedCount = p.listed.length := by
  simp [executedCount, listed, List.length_flatMap]

theorem count_listed (l : List (AtomId × ExecutedStep)) (x : AtomId × ExecutedStep) :
    l.count x = ((l.filter (·.1 = x.1)).map (·.2)).count x.2 := by
  induction l with
  | nil => rfl
  | cons y l ih =>
    by_cases hy : y.1 = x.1
    · rw [List.filter_cons_of_pos (by simpa using hy), List.map_cons, List.count_cons,
        List.count_cons, ih]
      simp [Prod.ext_iff, hy]
    · rw [List.filter_cons_of_neg (by simpa using hy), ← ih,
        List.count_cons_of_ne fun h => hy (congrArg Prod.fst h)]

/-- The executed steps of all atoms are the same up to their order. -/
theorem Agrees.perm (h : p.Agrees q) : p.listed.Perm q.listed := by
  rw [List.perm_iff_count]
  intro x
  rw [count_listed, count_listed, ← executed_eq_listed, ← executed_eq_listed, h x.1]

theorem Agrees.executedCount (h : p.Agrees q) : p.executedCount = q.executedCount := by
  rw [executedCount_eq_listed, executedCount_eq_listed]
  exact h.perm.length_eq

end Progress

/-! ## Atoms with steps -/

/-- Every atom of the plan has steps. -/
def AtomPlan.Filled (p : AtomPlan) : Prop := ∀ a ∈ p.atoms ++ p.onward.toList, a.steps ≠ []

theorem Specification.filled_of_get? {o : Observation} {calculator : Calculator} {s : Specification}
    (h : build o calculator = .ok s) (sequence : SequenceType) {plan : AtomPlan}
    (hplan : (Plans.ofSpecification s).get? sequence = some plan) : plan.Filled := by
  cases sequence with
  | science =>
    cases hplan
    intro a ha
    rcases List.mem_append.1 ha with ha | ha
    · exact steps_ne_nil (filled_of_build h) a ha
    · cases ha
  | acquisition =>
    obtain ⟨b, hb, rfl⟩ := Option.map_eq_some_iff.1 hplan
    obtain ⟨times, mode, rfl⟩ := exists_ofMode_of_build h
    intro a ha
    rcases List.mem_cons.1 ha with rfl | ha
    · exact first_ne_nil_ofMode _ _ _ _ hb
    · rw [List.mem_singleton.1 ha]
      exact List.cons_ne_nil _ _

namespace Generator

variable {g : Generator} {v : Visit}

theorem unmet_tally_of_none (h : g.progress.executed? v.key.id = none)
    (hv : v.planned.steps ≠ []) : (g.tally v).unmet.isEmpty = false := by
  rw [tally, h]
  show (Tally.start v.planned.steps).unmet.isEmpty = false
  simp [Tally.start, hv]

/-- An atom with steps is open as long as it has steps that are not met. -/
theorem opened_eq (hv : v.planned.steps ≠ []) : g.opened v = !(g.tally v).unmet.isEmpty := by
  cases hes : g.progress.executed? v.key.id with
  | none =>
    have hfresh : g.resolution v = .fresh := (Progress.resolve_eq_fresh_iff _ _ _).2 hes
    rw [opened, hfresh, unmet_tally_of_none hes hv]
    rfl
  | some es => exact opened_of_executed hes

/-- An atom with steps leaves its failed steps behind once all others are met. -/
theorem left_eq (hv : v.planned.steps ≠ []) : g.left v =
    if (g.tally v).unmet.isEmpty then waiting v.planned.kind (g.tally v).redo else [] := by
  have hopened := opened_eq (g := g) hv
  cases hunmet : (g.tally v).unmet.isEmpty with
  | true =>
    rw [hunmet] at hopened
    exact (tally_of_closed hopened).2
  | false =>
    rw [hunmet] at hopened
    exact left_of_opened hopened

theorem ahead_ne_nil (hf : g.plan.Filled) {s next : Place} (h : g.ahead s = some (v, next)) :
    v.planned.steps ≠ [] := by
  have hplanned : ∀ pending, (g.plannedVisit? s.position).map
      (fun v => (v, (⟨s.position + 1, pending⟩ : Place))) = some (v, next) → v.planned.steps ≠ [] := by
    intro pending h
    obtain ⟨w, hw, he⟩ := Option.map_eq_some_iff.1 h
    cases he
    obtain ⟨a, ha, rfl⟩ := Option.map_eq_some_iff.1 hw
    exact hf a (AtomPlan.mem_of_get? ha)
  unfold ahead at h
  split at h
  · exact hplanned _ h
  · split at h
    · cases h
      exact List.cons_ne_nil _ _
    · exact hplanned _ h

theorem Path.steps_ne_nil (hf : g.plan.Filled) {s s' : Place} {vs : List Visit}
    (h : g.Path s vs s') : ∀ v ∈ vs, v.planned.steps ≠ [] := by
  induction h with
  | nil => exact fun v hv => absurd hv List.not_mem_nil
  | cons hl _ ih =>
    obtain ⟨⟨u, next⟩, hahead, he⟩ := Option.map_eq_some_iff.1 hl
    cases he
    exact List.forall_mem_cons.2 ⟨ahead_ne_nil hf hahead, ih⟩

end Generator

/-! ## The same way -/

namespace Progress.Agrees

open Generator

variable {g : Generator} {p : Progress} {v : Visit} {s s' : Place} {vs : List Visit}

theorem tally (h : p.Agrees g.progress) (v : Visit) : (g.progressed p).tally v = g.tally v :=
  congrArg (Tally.takeAll _) (h v.key.id)

theorem opened (h : p.Agrees g.progress) (hv : v.planned.steps ≠ []) :
    (g.progressed p).opened v = g.opened v := by
  rw [opened_eq hv, opened_eq hv, h.tally]

theorem left (h : p.Agrees g.progress) (hv : v.planned.steps ≠ []) :
    (g.progressed p).left v = g.left v := by
  rw [left_eq hv, left_eq hv, h.tally]

theorem due (h : p.Agrees g.progress) (hv : v.planned.steps ≠ []) (hopen : g.opened v = true) :
    (g.progressed p).due v = g.due v := by
  have hopen' : (g.progressed p).opened v = true := (h.opened hv).trans hopen
  rw [Generator.due, Generator.due, todo_of_opened hopen, todo_of_opened hopen', h.tally]

/-- Every look meets the same atom and leaves the same behind. -/
theorem look (h : p.Agrees g.progress) (hf : g.plan.Filled) (s : Place) :
    (g.progressed p).look s = g.look s := by
  have hahead : (g.progressed p).ahead s = g.ahead s := rfl
  rw [Generator.look, Generator.look, hahead]
  cases hs : g.ahead s with
  | none => rfl
  | some x =>
    obtain ⟨v, next⟩ := x
    simp only [Option.map_some, h.left (ahead_ne_nil hf hs)]

theorem path (h : p.Agrees g.progress) (hf : g.plan.Filled) (hp : g.Path s vs s') :
    (g.progressed p).Path s vs s' := by
  induction hp with
  | nil => exact .nil _
  | cons hl _ ih => exact .cons ((h.look hf _).trans hl) ih

theorem filter_opened (h : p.Agrees g.progress) (hne : ∀ v ∈ vs, v.planned.steps ≠ []) :
    vs.filter (g.progressed p).opened = vs.filter g.opened :=
  List.filter_congr fun v hv => h.opened (hne v hv)

/-- The open atoms on a way are the same, with the same steps to do. -/
theorem map_due (h : p.Agrees g.progress) (hne : ∀ v ∈ vs, v.planned.steps ≠ []) :
    (vs.filter (g.progressed p).opened).map (g.progressed p).due =
      (vs.filter g.opened).map g.due := by
  rw [h.filter_opened hne]
  refine List.map_congr_left fun v hv => ?_
  exact h.due (hne v (List.mem_of_mem_filter hv)) (List.of_mem_filter hv)

end Progress.Agrees

/-! ## Atoms without their prices -/

namespace Generator

variable {g : Generator} {v : Visit}

theorem due_emission (t : TelescopeState) (v : Visit) : (g.emission t v).atom.due = g.due v := by
  have hlen : (g.todo v).length ≤ (g.estimates t v).1.length := by
    rw [estimates, CostModel.length_estimateAll, List.length_map]
  exact Atom.due_ofSteps hlen

theorem nextAtom_window (t : TelescopeState) (limit : Nat) :
    (g.window t limit).nextAtom = (g.window t limit).atoms.head? := by
  cases h : g.advance (.start t) with
  | none =>
    rw [window_none h]
    rfl
  | some r =>
    rw [window_some h]
    rfl

theorem possibleFuture_window (t : TelescopeState) (limit : Nat) :
    (g.window t limit).possibleFuture = (g.window t limit).atoms.tail := by
  cases h : g.advance (.start t) with
  | none =>
    rw [window_none h]
    rfl
  | some r =>
    rw [window_some h]
    rfl

end Generator

/-- The place at which a continuation goes on. -/
def Continuation.place (c : Continuation) : Place := ⟨c.position, c.pending⟩

/-- The same atom was found, and the search goes on at the same place. -/
def Alike (x y : Emission × Continuation) : Prop :=
  x.1.atom.due = y.1.atom.due ∧ x.2.place = y.2.place

namespace Progress.Agrees

open Generator

variable {g : Generator} {p : Progress} {s : Place}

theorem turns (h : p.Agrees g.progress) (hf : g.plan.Filled) (n : Nat) (s : Place)
    (t t' : TelescopeState) :
    Option.Rel Alike ((g.progressed p).turns n (s.at t')) (g.turns n (s.at t)) := by
  -- Turn by turn: both sides stand at one place, and the telescope does not decide what is open.
  induction n generalizing s with
  | zero =>
    rw [turns_zero, turns_zero]
    exact .none
  | succ n ih =>
    rw [Generator.turns, Generator.turns, step_at, step_at, h.look hf]
    cases hl : g.look s with
    | none => exact .none
    | some x =>
      obtain ⟨v, s'⟩ := x
      have hv : v.planned.steps ≠ [] :=
        (Path.single hl).steps_ne_nil hf v (List.mem_singleton_self v)
      rw [turnOf, turnOf, h.opened hv]
      by_cases hopen : g.opened v = true
      · rw [if_pos hopen, if_pos hopen]
        refine .some ⟨?_, rfl⟩
        rw [due_emission, due_emission, h.due hv hopen]
      · rw [if_neg hopen, if_neg hopen]
        exact ih s'

/-- On a plan with an end there are as many turns for each atom. -/
theorem enough (h : p.Agrees g.progress) (hend : g.plan.isUnbounded = false) (s : Place)
    (t t' : TelescopeState) : (g.progressed p).enough (s.at t') = g.enough (s.at t) := by
  have hpositions : (g.progressed p).positionsLeft (s.at t') = g.positionsLeft (s.at t) := by
    rw [positionsLeft, positionsLeft, hend, if_neg Bool.false_ne_true]
    exact if_neg (by simp [progressed, hend])
  -- The records may be split otherwise, but the executed steps are as many.
  have hcount : (g.progressed p).progress.executedCount = g.progress.executedCount :=
    h.executedCount
  rw [Generator.enough, Generator.enough, hpositions, hcount]
  rfl

theorem advance (h : p.Agrees g.progress) (hf : g.plan.Filled) (hend : g.plan.isUnbounded = false)
    (s : Place) (t t' : TelescopeState) :
    Option.Rel Alike ((g.progressed p).advance (s.at t')) (g.advance (s.at t)) := by
  rw [Generator.advance, Generator.advance, h.enough hend s t t']
  exact h.turns hf _ s t t'

/-- On a plan with an end the same atoms are yielded, at whatever price. -/
theorem take (h : p.Agrees g.progress) (hf : g.plan.Filled) (hend : g.plan.isUnbounded = false)
    (n : Nat) (s : Place) (t t' : TelescopeState) :
    ((g.progressed p).take n (s.at t')).1.map (·.atom.due) =
      (g.take n (s.at t)).1.map (·.atom.due) := by
  induction n generalizing s t t' with
  | zero => rfl
  | succ n ih =>
    have hadvance := h.advance hf hend s t t'
    generalize hx : (g.progressed p).advance (s.at t') = x at hadvance
    generalize hy : g.advance (s.at t) = y at hadvance
    cases hadvance with
    | none => rw [take_succ_none hx, take_succ_none hy, List.map_nil]
    | @some x y hxy =>
      obtain ⟨hdue, hplace⟩ := hxy
      have hrest := ih y.2.place y.2.telescope x.2.telescope
      have hnext : y.2.place.at x.2.telescope = x.2 := by
        rw [← hplace]
        rfl
      rw [hnext] at hrest
      rw [take_succ_some hx, take_succ_some hy, List.map_cons, List.map_cons, hdue, hrest]
      rfl

/-- What a search comes to on one side it comes to on the other. -/
theorem finds (h : p.Agrees g.progress) (hf : g.plan.Filled) {t : TelescopeState}
    {y : Option (Emission × Continuation)} (hy : g.Finds (s.at t) y) (t' : TelescopeState) :
    ∃ x, (g.progressed p).Finds (s.at t') x ∧ Option.Rel Alike x y := by
  obtain ⟨us, s₁, hp, hclosed, hfound⟩ := hy.path
  have hne := hp.steps_ne_nil hf
  have hclosed' : ∀ u ∈ us, (g.progressed p).opened u = false :=
    fun u hu => (h.opened (hne u hu)).trans (hclosed u hu)
  rcases hfound with ⟨hnone, rfl⟩ | ⟨v, s₂, hl, hv, rfl⟩
  · have hnone' : (g.progressed p).look s₁ = none := (h.look hf s₁).trans hnone
    exact ⟨none, finds_of_path (h.path hf hp) hclosed' (finds_of_look_none hnone'), .none⟩
  · have hv' := (Path.single hl).steps_ne_nil hf v (List.mem_singleton_self v)
    have hl' : (g.progressed p).look s₁ = some (v, s₂) := (h.look hf s₁).trans hl
    refine ⟨_, finds_of_path (h.path hf hp) hclosed'
      (finds_of_opened hl' ((h.opened hv').trans hv)), .some ⟨?_, rfl⟩⟩
    rw [due_emission, due_emission, h.due hv' hv]

theorem searches_of (h : p.Agrees g.progress) (hf : g.plan.Filled) {n : Nat} {t : TelescopeState}
    (hn : g.Searches n (s.at t)) (t' : TelescopeState) : (g.progressed p).Searches n (s.at t') := by
  induction n generalizing s t t' with
  | zero => trivial
  | succ n ih =>
    obtain ⟨y, hy, hrest⟩ := hn
    obtain ⟨x, hx, hxy⟩ := h.finds hf hy t'
    refine ⟨x, hx, ?_⟩
    rintro e c rfl
    cases hxy with
    | @some _ y hxy =>
      have hnext : y.2.place.at c.telescope = c := by
        rw [← hxy.2]
        rfl
      rw [← hnext]
      exact ih (hrest _ _ rfl) c.telescope

/-- Searches end on both sides or on none. -/
theorem searches (h : p.Agrees g.progress) (hf : g.plan.Filled) (n : Nat) (s : Place)
    (t t' : TelescopeState) : (g.progressed p).Searches n (s.at t') ↔ g.Searches n (s.at t) := by
  refine ⟨fun hn => ?_, fun hn => h.searches_of hf hn t'⟩
  -- The other way round the first progress takes the place of the second.
  have hback : ((g.progressed p).progressed g.progress) = g := rfl
  rw [← hback]
  exact h.symm.searches_of (g := g.progressed p) hf hn t

end Progress.Agrees
end Observing
