import Observing.Proofs.Provenance

/-!
# Steps recorded as they are handed out

Any step of any open atom may be executed next, and whatever becomes of it is recorded.

* `Generator.Attempts`   a step of an open atom was executed, or was recorded without that;
* `Generator.Worked`     what such a record after another leads to;
* `Attempts.awaits`      closed atoms stay as they are, so that waiting steps go on waiting;
* `Attempts.regular`     what one such record preserves;
* `Worked.regular`       what holds after any number of them.
-/

namespace Observing
namespace Generator

variable {g : Generator} {v : Visit} {es : List ExecutedStep} {p : Progress}

/-- A step of an open atom was executed as it was handed out, or nothing was executed. -/
structure Attempts (g : Generator) (v : Visit) (es : List ExecutedStep) : Prop where
  arises : g.Arises v
  opened : g.opened v = true
  handed : ∃ x ∈ g.todo v, ∀ e ∈ es, e.id = x.1 ∧ e.configuration = x.2.configuration
  once : es.length ≤ 1

/-- The generator with other progress on the same plan. -/
def progressed (g : Generator) (p : Progress) : Generator := { g with progress := p }

/-- Steps were recorded one after another as they were handed out, from the beginning of a plan. -/
inductive Worked : Generator → Prop
  | start {g : Generator} : g.progress.records = [] → Worked g
  | attempt {g : Generator} {v : Visit} {es : List ExecutedStep} {p : Progress} :
    Worked g → g.Attempts v es → g.progress.Grows p v.key.id es → Worked (g.progressed p)

/-! ## What arises goes on arising -/

theorem atomKeys_progressed (hp : g.progress.Grows p v.key.id es) (n : Nat) :
    g.atomKeys n ⊆ (g.progressed p).atomKeys n := by
  intro k hk
  rcases List.mem_append.1 hk with hk | hk
  · exact List.mem_append_left _ hk
  · exact List.mem_append_right _ (List.map_subset _ hp.failedIds_subset hk)

theorem stepKeys_progressed (hp : g.progress.Grows p v.key.id es) :
    g.stepKeys ⊆ (g.progressed p).stepKeys := by
  intro k hk
  rcases List.mem_append.1 hk with hk | hk
  · rcases List.mem_append.1 hk with hk | hk
    · exact List.mem_append_left _ (List.mem_append_left _ hk)
    · exact List.mem_append_left _
        (List.mem_append_right _ (List.map_subset _ hp.failedIds_subset hk))
  · exact List.mem_append_right _ (List.map_subset _ hp.failures_subset hk)

theorem Distinct.of_progressed (hd : (g.progressed p).Distinct)
    (hp : g.progress.Grows p v.key.id es) : g.Distinct where
  atoms := hd.atoms.mono (atomKeys_progressed hp _)
  steps k hk l hl := hd.steps k (stepKeys_progressed hp hk) l (stepKeys_progressed hp hl)

theorem Placed.progressed {k : StepKey} {c : Configuration} (h : g.Placed k c)
    (hp : g.progress.Grows p v.key.id es) : (g.progressed p).Placed k c := by
  cases h with
  | planned hv hi => exact .planned (g := g.progressed p) hv hi
  | repeated hf => exact .repeated (g := g.progressed p) (hf.mono hp)
  | again hv hf => exact .again (g := g.progressed p) hv (hf.mono hp)

theorem resolution_progressed {u : Visit} (hp : g.progress.Grows p v.key.id es)
    (hu : u.key.id ≠ v.key.id) : (g.progressed p).resolution u = g.resolution u := by
  unfold resolution progressed Progress.resolve
  dsimp only
  rw [hp.other _ hu]

theorem left_progressed {u : Visit} (hp : g.progress.Grows p v.key.id es)
    (hu : u.key.id ≠ v.key.id) : (g.progressed p).left u = g.left u := by
  rw [left, left, resolution_progressed hp hu]

theorem closed_of_mem_left {u : Visit} {q : Pending} (hq : q ∈ g.left u) : g.opened u = false := by
  rw [Bool.eq_false_iff]
  intro hopen
  rw [left_of_opened hopen] at hq
  cases hq

theorem Attempts.left (ha : g.Attempts v es) (hr : g.Regular) (hd : g.Distinct)
    (hp : g.progress.Grows p v.key.id es) {u : Visit} (hu : g.Arises u) {q : Pending}
    (hq : q ∈ g.left u) : q ∈ (g.progressed p).left u := by
  have hne := hr.key_id_ne hd hu ha.arises (closed_of_mem_left hq) ha.opened
  rwa [left_progressed hp hne]

/-- Steps that wait go on waiting. -/
theorem Attempts.awaits (ha : g.Attempts v es) (hr : g.Regular) (hd : g.Distinct)
    (hend : g.plan.onward = none) (hp : g.progress.Grows p v.key.id es) {l : List StepId}
    {q : Pending} (hq : g.Awaits g.plan.atoms.length l q) :
    (g.progressed p).Awaits g.plan.atoms.length l q := by
  induction hq with
  | @planned i u q hi hu hleft =>
    refine .planned (g := g.progressed p) hi hu (ha.left hr hd hp ?_ hleft)
    rw [plannedVisit?_eq hend] at hu
    exact .planned (List.mem_of_getElem? hu)
  | repeated hq hleft ih =>
    exact .repeated (g := g.progressed p) ih (ha.left hr hd hp (.repeated hq) hleft)

/-! ## One more record -/

theorem getElem?_of_mem_unmet {u : Nat × ProtoStep} (hu : u ∈ (g.tally v).unmet) :
    v.planned.steps[u.1]? = some u.2 := by
  have hmem := (Tally.unmet_takeAll_sublist (Tally.start v.planned.steps) _).subset hu
  obtain ⟨⟨step, i⟩, hi, rfl⟩ := List.mem_map.1 hmem
  exact List.mem_zipIdx_iff_getElem?.1 hi

/-- A step that is handed out has the identity of its place. -/
theorem placed_of_todo (hr : g.Regular) (hd : g.Distinct) (hv : g.Arises v)
    (hopen : g.opened v = true) {x : StepId × ProtoStep} (hx : x ∈ g.todo v) :
    ∃ k, g.Placed k x.2.configuration ∧ k.atom = v.key.id ∧ k.id = x.1 := by
  rw [todo_of_opened hopen] at hx
  rcases Tally.mem_handout hx with ⟨u, hu, rfl⟩ | ⟨q, hq, rfl⟩
  · have hget := getElem?_of_mem_unmet hu
    cases hv with
    | planned hv => exact ⟨_, .planned hv hget, rfl, rfl⟩
    | @repeated l r hawaits =>
      obtain ⟨a, hfails⟩ := hawaits.fails
      obtain ⟨i, step⟩ := u
      have hi : i = 0 := by
        have hlt := (List.getElem?_eq_some_iff.1 hget).1
        exact Nat.lt_one_iff.1 hlt
      subst hi
      cases hget
      exact ⟨_, .repeated hfails, rfl, rfl⟩
  · have hfails : g.progress.Fails v.key.id q.failedStep q.step.configuration :=
      Progress.fails_of_mem_redo hq
    cases hv with
    | planned hv => exact ⟨_, .again hv hfails, rfl, rfl⟩
    | repeated hawaits =>
      obtain ⟨e, he, -⟩ := hfails
      have hnil := (hr.opened_repeatVisit hd hawaits).1 hopen
      exact absurd (hnil ▸ he) List.not_mem_nil

theorem Attempts.placed (ha : g.Attempts v es) (hr : g.Regular) (hd : g.Distinct)
    (hp : g.progress.Grows p v.key.id es) {a : AtomId} {e : ExecutedStep} (he : e ∈ p.executed a) :
    ∃ k, g.Placed k e.configuration ∧ k.atom = a ∧ k.id = e.id := by
  rcases hp.mem_executed.1 he with hold | ⟨rfl, hnew⟩
  · exact hr.origin a e hold
  · obtain ⟨x, hx, hall⟩ := ha.handed
    obtain ⟨hid, hconf⟩ := hall e hnew
    rw [hid, hconf]
    exact placed_of_todo hr hd ha.arises ha.opened hx

/-- An open atom gets its steps one by one, each accepted or due again. -/
theorem Attempts.due (ha : g.Attempts v es) (c : Configuration) :
    ((g.tally v).takeAll es).due c + acceptedIn c es = (g.tally v).due c := by
  obtain ⟨x, hx, hall⟩ := ha.handed
  rw [todo_of_opened ha.opened] at hx
  have honce := ha.once
  cases es with
  | nil => rw [Tally.takeAll_nil, acceptedIn, List.countP_nil, Nat.add_zero]
  | cons e rest =>
    have hrest : rest = [] := by
      rw [List.length_cons] at honce
      exact List.length_eq_zero_iff.1 (Nat.le_zero.1 (Nat.le_of_succ_le_succ honce))
    subst hrest
    have hconf := (hall e List.mem_cons_self).2
    refine Tally.due_take ?_ c
    rcases Tally.mem_handout hx with ⟨u, hu, rfl⟩ | ⟨q, hq, rfl⟩
    · exact .inl ⟨u, hu, ExecutedStep.executes_iff.2 hconf.symm⟩
    · exact .inr ⟨q, hq, ExecutedStep.executes_iff.2 hconf.symm⟩

/-- An atom that is recorded arises, and a repetition is executed once. -/
theorem Attempts.known (ha : g.Attempts v es) (hr : g.Regular) (hd : g.Distinct)
    (hend : g.plan.onward = none) (hp : g.progress.Grows p v.key.id es) {a : AtomId}
    {fs : List ExecutedStep} (hfs : p.executed? a = some fs) :
    (∃ u ∈ g.plannedVisits, u.key.id = a) ∨
      ∃ l q, (g.progressed p).Awaits g.plan.atoms.length l q ∧ g.redoAtomId q.redo.failedStep = a ∧
        fs.length ≤ 1 := by
  by_cases hself : a = v.key.id
  · subst hself
    have hexecuted : g.progress.executed v.key.id ++ es = fs :=
      Option.some.inj (hp.self.symm.trans hfs)
    cases ha.arises with
    | planned hv => exact .inl ⟨v, hv, rfl⟩
    | @repeated l q hq =>
      have hnil : g.progress.executed (g.repeatVisit q).key.id = [] :=
        (hr.opened_repeatVisit hd hq).1 ha.opened
      rw [hnil, List.nil_append] at hexecuted
      exact .inr ⟨l, q, ha.awaits hr hd hend hp hq, rfl, hexecuted ▸ ha.once⟩
  · rw [hp.other a hself] at hfs
    rcases hr.known hfs with h | ⟨l, q, hq, hrest⟩
    · exact .inl h
    · exact .inr ⟨l, q, ha.awaits hr hd hend hp hq, hrest⟩

/-- Nothing of a planned atom is lost. -/
theorem Attempts.kept (ha : g.Attempts v es) (hr : g.Regular) (hd : g.Distinct)
    (hp : g.progress.Grows p v.key.id es) {u : Visit} (hu : u ∈ g.plannedVisits)
    (c : Configuration) :
    ((Tally.start u.planned.steps).takeAll (p.executed u.key.id)).due c +
      acceptedIn c (p.executed u.key.id) = plannedIn c u.planned.steps := by
  have hkept := hr.kept u hu c
  by_cases hself : u.key.id = v.key.id
  · have hdue := ha.due c
    have htally : g.tally u = (Tally.start u.planned.steps).takeAll
        (g.progress.executed v.key.id) := by
      rw [← hself]
      rfl
    have hsame : g.tally v = g.tally u := by
      cases ha.arises with
      | planned hv => rw [hd.planned_inj hv hu hself.symm]
      | repeated hq => exact absurd hself (hd.planned_ne_repeated hu hq.mem_failedIds)
    rw [hsame, htally] at hdue
    rw [htally, hself] at hkept
    rw [hself, hp.executed_self, Tally.takeAll_append, acceptedIn_append]
    omega
  · rw [hp.executed_other hself]
    exact hkept

/-- What one more record preserves. -/
theorem Attempts.regular (ha : g.Attempts v es) (hr : g.Regular) (hd : g.Distinct)
    (hend : g.plan.onward = none) (hp : g.progress.Grows p v.key.id es) :
    (g.progressed p).Regular where
  origin a e he := by
    obtain ⟨k, hk, hrest⟩ := ha.placed hr hd hp he
    exact ⟨k, hk.progressed hp, hrest⟩
  uniform := by
    -- both steps have a place that arose before, and a place has one configuration
    rintro a b f c d ⟨e, he, -, rfl, rfl⟩ ⟨e', he', -, hid, rfl⟩
    obtain ⟨k, hk, -, hke⟩ := ha.placed hr hd hp he
    obtain ⟨l, hl, -, hle⟩ := ha.placed hr hd hp he'
    have hsame : k.id = l.id := by rw [hke, hle, hid]
    have hkl := hd.steps k hk.mem_stepKeys l hl.mem_stepKeys hsame
    exact hr.placed_unique hd hk (hkl ▸ hl)
  known hfs := ha.known hr hd hend hp hfs
  kept _ hu c := ha.kept hr hd hp hu c

/-! ## Any number of records -/

theorem regular_start (h : g.progress.records = []) : g.Regular := by
  have hnone : ∀ a, g.progress.executed? a = none := by
    intro a
    rw [Progress.executed?_eq_none_iff, h]
    intro r hr
    cases hr
  have hnil : ∀ a, g.progress.executed a = [] := by
    intro a
    rw [Progress.executed, hnone, Option.getD_none]
  refine ⟨fun a e he => ?_, ?_, fun {a es} hes => ?_, fun u hu c => ?_⟩
  · rw [hnil] at he
    cases he
  · rintro a b f c d ⟨e, he, -⟩
    rw [hnil] at he
    cases he
  · rw [hnone] at hes
    cases hes
  · show (Tally.takeAll _ (g.progress.executed u.key.id)).due c + _ = _
    rw [hnil]
    exact Tally.due_start u.planned.steps c

/-- What holds after any number of records. -/
theorem Worked.regular (h : g.Worked) (hend : g.plan.onward = none) (hd : g.Distinct) :
    g.Regular := by
  induction h with
  | start h => exact regular_start h
  | attempt _ ha hp ih =>
    have hbefore := hd.of_progressed hp
    exact ha.regular (ih hend hbefore) hbefore hend hp

end Generator
end Observing
