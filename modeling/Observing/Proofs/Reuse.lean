import Observing.Proofs.Loss

/-!
# Identities that are handed out again

An executed step is counted by its configuration alone.  So the steps of one configuration that an
atom hands out stand in line: whichever of them is executed, the first is taken away, and a failed one
joins at the end.  When the first one was executed, none of the identities in line was ever used.  When
another one was, its identity stays in line.

* `Tally.line`          the identities of the steps of a configuration, in line;
* `line_take`           what becomes of the line when one of its steps is executed;
* `Tally.InOrder`       the steps of a configuration were executed in line;
* `Used.takeAll`        then no identity in line was used before;
* `Attempts.again`      an identity that was used out of line is handed out again;
* `Engine.handed_out_again`   a step that is returned has the identity of an executed one only where
                        steps of its configuration were executed out of line;
* `Engine.returned_again`     and there it is returned again, as long as its atom is.
-/

namespace Observing

variable {id : AtomId} {c : Configuration} {t : Tally} {e : ExecutedStep}

namespace Tally

/-- The identities of the steps of a configuration that an atom hands out, in the order in which they
are counted. -/
def line (id : AtomId) (c : Configuration) (t : Tally) : List StepId :=
  ((t.handout id).filter fun x => x.2.configuration = c).map (·.1)

theorem mem_line {x : StepId × ProtoStep} (hx : x ∈ t.handout id) :
    x.1 ∈ t.line id x.2.configuration :=
  List.mem_map_of_mem (List.mem_filter.2 ⟨hx, by simp⟩)

theorem length_line (id : AtomId) (c : Configuration) (t : Tally) :
    (t.line id c).length = t.due c := by
  rw [line, List.length_map, ← List.countP_eq_length_filter, handout, List.countP_append,
    List.countP_map, List.countP_map, due, plannedIn, plannedIn, List.countP_map, List.countP_map]
  rfl

/-! ## One executed step -/

/-- The line, those not met yet first. -/
theorem line_eq (id : AtomId) (c : Configuration) (t : Tally) : t.line id c =
    (t.unmet.filter fun u => u.2.configuration = c).map (fun u => (StepKey.planned id u.1).id) ++
      (t.redo.filter fun q => q.step.configuration = c).map
        (fun q => (StepKey.repeated id q.failedStep).id) := by
  rw [line, handout, List.filter_append, List.filter_map, List.filter_map, List.map_append,
    List.map_map, List.map_map]
  rfl

/-- The identity under which an executed step joins the line again. -/
def rejoins (id : AtomId) (e : ExecutedStep) : List StepId :=
  if e.failed then [(StepKey.repeated id e.id).id] else []

theorem mem_rejoins {f : StepId} :
    f ∈ rejoins id e ↔ e.failed = true ∧ f = (StepKey.repeated id e.id).id := by
  unfold rejoins
  by_cases hf : e.failed = true
  · simp [hf]
  · simp [hf]

theorem nodup_rejoins (id : AtomId) (e : ExecutedStep) : (rejoins id e).Nodup := by
  unfold rejoins
  split <;> simp

theorem map_again (id : AtomId) (e : ExecutedStep) {p : ProtoStep} (hp : p.configuration = c) :
    ((again e p).filter fun q => q.step.configuration = c).map
      (fun q => (StepKey.repeated id q.failedStep).id) = rejoins id e := by
  unfold again rejoins
  by_cases hf : e.failed = true
  · simp [hf, hp]
  · simp [hf]

/-- Whichever step of a line is executed, the first is taken away, and a failed one joins again. -/
theorem line_take (he : e.configuration = c) (hne : t.line id c ≠ []) :
    (t.take e).line id c = (t.line id c).tail ++ rejoins id e := by
  subst he
  rcases take_eraseP_cases t e with ⟨u, hu, hc, ht⟩ | ⟨q, -, hc, hu, ht⟩ | ⟨hu, hq, -⟩
  · have hpos : t.unmet.filter (fun u => u.2.configuration = e.configuration) ≠ [] :=
      List.ne_nil_of_mem (List.mem_filter.2 ⟨hu, by simpa using hc⟩)
    rw [ht, line_eq, line_eq, filter_eraseP, List.filter_append, List.map_append, map_again id e hc,
      List.map_tail, List.tail_append_of_ne_nil (by simpa using hpos), List.append_assoc]
  · have hnil : t.unmet.filter (fun u => u.2.configuration = e.configuration) = [] := by
      simpa [List.filter_eq_nil_iff] using fun i p h => hu (i, p) h
    rw [ht, line_eq, line_eq, hnil, List.map_nil, List.nil_append, List.nil_append,
      List.filter_append, filter_eraseP, List.map_append, map_again id e hc, List.map_tail]
  · refine absurd ?_ hne
    rw [← List.length_eq_zero_iff, length_line, due, plannedIn, plannedIn, List.countP_map,
      List.countP_map, Nat.add_eq_zero_iff, List.countP_eq_zero, List.countP_eq_zero]
    exact ⟨fun u h => by simpa using hu u h, fun q h => by simpa using hq q h⟩

/-- A step of another configuration leaves the line as it is. -/
theorem line_take_of_ne (he : e.configuration ≠ c) : (t.take e).line id c = t.line id c := by
  have hagain : ∀ p : ProtoStep, p.configuration = e.configuration →
      (again e p).filter (fun q => q.step.configuration = c) = [] := by
    intro p hp
    unfold again
    split
    · rw [List.filter_cons_of_neg (by simpa [hp] using he), List.filter_nil]
    · rfl
  have hapart : ∀ d : Configuration, decide (d = e.configuration) = true → decide (d = c) = false :=
    fun d hd => decide_eq_false fun hc => he ((of_decide_eq_true hd).symm.trans hc)
  rcases take_eraseP_cases t e with ⟨u, -, hc, ht⟩ | ⟨q, -, hc, -, ht⟩ | ⟨-, -, ht⟩
  · rw [ht, line_eq, line_eq, filter_eraseP_of_disjoint fun u => hapart _, List.filter_append,
      hagain u.2 hc, List.append_nil]
  · rw [ht, line_eq, line_eq, List.filter_append, filter_eraseP_of_disjoint fun q => hapart _,
      hagain q.step hc, List.append_nil]
  · rw [ht]

/-- An identity that is used out of line stays in line. -/
theorem mem_line_take (he : e.configuration = c) (hmem : e.id ∈ t.line id c)
    (hfirst : (t.line id c).head? ≠ some e.id) : e.id ∈ (t.take e).line id c := by
  have hne : t.line id c ≠ [] := List.ne_nil_of_mem hmem
  rw [line_take he hne]
  cases hline : t.line id c with
  | nil => exact absurd hline hne
  | cons f rest =>
    rw [hline] at hmem hfirst
    refine List.mem_append_left _ ?_
    rcases List.mem_cons.1 hmem with h | h
    · rw [h] at hfirst
      exact absurd rfl hfirst
    · exact h

theorem head?_line {f : StepId} (hmem : f ∈ t.line id c) (hdue : t.due c ≤ 1) :
    (t.line id c).head? = some f := by
  rw [← length_line id] at hdue
  cases hline : t.line id c with
  | nil =>
    rw [hline] at hmem
    cases hmem
  | cons k rest =>
    rw [hline] at hmem hdue
    have hrest : rest = [] := List.length_eq_zero_iff.1 (by simpa using hdue)
    rw [hrest] at hmem
    rw [List.mem_singleton.1 hmem]
    rfl

/-! ## Steps executed in line -/

/-- Each executed step of a configuration was the first in line. -/
def InOrder (id : AtomId) (c : Configuration) : Tally → List ExecutedStep → Prop
  | _, [] => True
  | t, e :: es =>
    (e.configuration = c → (t.line id c).head? = some e.id) ∧ InOrder id c (t.take e) es

theorem inOrder_append (es fs : List ExecutedStep) : InOrder id c t (es ++ fs) ↔
    InOrder id c t es ∧ InOrder id c (t.takeAll es) fs := by
  induction es generalizing t with
  | nil =>
    show _ ↔ True ∧ _
    rw [true_and]
    rfl
  | cons e es ih =>
    show _ ∧ InOrder id c (t.take e) (es ++ fs) ↔ (_ ∧ InOrder id c (t.take e) es) ∧ _
    rw [ih, and_assoc]
    rfl

/-- The identities of the executed steps of a configuration. -/
def usedIn (c : Configuration) (es : List ExecutedStep) : List StepId :=
  (es.filter fun e => e.configuration = c).map (·.id)

/-- No identity is in line after it was used, or was used twice.  Each is that of one of the given
places: a planned one, or one that repeats a step that was used. -/
structure Used (keys : List StepKey) (id : AtomId) (c : Configuration) (used : List StepId)
    (t : Tally) : Prop where
  nodup : (used ++ t.line id c).Nodup
  source : ∀ f ∈ used ++ t.line id c, ∃ k ∈ keys, k.id = f ∧
    ((∃ i, k = .planned id i) ∨ ∃ b ∈ used, k = .repeated id b)

section Used

variable {keys : List StepKey} {used : List StepId}

theorem used_start {planned : List ProtoStep} (hapart : StepKey.Apart keys)
    (hkeys : ∀ i < planned.length, StepKey.planned id i ∈ keys) :
    Used keys id c [] (.start planned) := by
  let indices := ((start planned).unmet.filter fun u => u.2.configuration = c).map (·.1)
  have hline : (start planned).line id c = indices.map fun i => (StepKey.planned id i).id := by
    rw [line_eq]
    show _ ++ [] = _
    rw [List.append_nil, List.map_map]
    rfl
  have hsub : indices.Sublist (List.range' 0 planned.length) := by
    rw [← map_fst_unmet_start]
    exact List.filter_sublist.map _
  have hmem : ∀ i ∈ indices, StepKey.planned id i ∈ keys := by
    intro i hi
    have hrange := List.mem_range'_1.1 (hsub.subset hi)
    exact hkeys i (by omega)
  constructor
  · rw [List.nil_append, hline]
    have hindices : indices.Nodup := List.Nodup.sublist hsub List.nodup_range'
    refine List.Nodup.map_on ?_ hindices
    intro i hi j hj hij
    have hkey := hapart _ (hmem i hi) _ (hmem j hj) hij
    exact (StepKey.planned.inj hkey).2
  · intro f hf
    rw [List.nil_append, hline] at hf
    obtain ⟨i, hi, rfl⟩ := List.mem_map.1 hf
    exact ⟨_, hmem i hi, rfl, .inl ⟨i, rfl⟩⟩

/-- The first in line is executed: its identity is used, and a new one joins where it failed. -/
theorem Used.take (h : Used keys id c used t) (hapart : StepKey.Apart keys)
    (he : e.configuration = c) (hfirst : (t.line id c).head? = some e.id)
    (hkey : e.failed = true → StepKey.repeated id e.id ∈ keys) :
    Used keys id c (used ++ [e.id]) (t.take e) := by
  obtain ⟨rest, hline⟩ : ∃ rest, t.line id c = e.id :: rest := List.head?_eq_some_iff.1 hfirst
  have hnodup := h.nodup
  have hsource := h.source
  have hall : used ++ [e.id] ++ (t.take e).line id c = (used ++ t.line id c) ++ rejoins id e := by
    rw [line_take he (by rw [hline]; exact List.cons_ne_nil _ _), hline]
    simp
  have hself : e.id ∉ used := by
    rw [hline] at hnodup
    intro hmem
    exact (List.nodup_append.1 hnodup).2.2 _ hmem _ List.mem_cons_self rfl
  constructor
  · rw [hall]
    refine List.nodup_append.2 ⟨hnodup, ?_, ?_⟩
    · exact nodup_rejoins id e
    · -- the new identity is that of a place that repeats a step not used before
      intro f hf f' hf' heq
      subst heq
      obtain ⟨k, hk, hid, hplace⟩ := hsource f hf
      obtain ⟨hfailed, hnew⟩ := mem_rejoins.1 hf'
      have hsame := hapart k hk _ (hkey hfailed) (hid.trans hnew)
      rcases hplace with ⟨i, rfl⟩ | ⟨b, hb, rfl⟩
      · cases hsame
      · have hb' : b = e.id := (StepKey.repeated.inj hsame).2
        exact hself (hb' ▸ hb)
  · intro f hf
    rw [hall] at hf
    rcases List.mem_append.1 hf with hf | hf
    · obtain ⟨k, hk, hid, hplace⟩ := hsource f hf
      refine ⟨k, hk, hid, hplace.imp_right ?_⟩
      rintro ⟨b, hb, rfl⟩
      exact ⟨b, List.mem_append_left _ hb, rfl⟩
    · obtain ⟨hfailed, hnew⟩ := mem_rejoins.1 hf
      exact ⟨_, hkey hfailed, hnew.symm, .inr ⟨e.id, by simp, rfl⟩⟩

theorem Used.take_of_ne (h : Used keys id c used t) (he : e.configuration ≠ c) :
    Used keys id c used (t.take e) := by
  constructor
  · rw [line_take_of_ne he]
    exact h.nodup
  · rw [line_take_of_ne he]
    exact h.source

/-- Where steps are executed in line, no identity in line was used before. -/
theorem Used.takeAll {es : List ExecutedStep} (h : Used keys id c used t)
    (hapart : StepKey.Apart keys) (horder : InOrder id c t es)
    (hkeys : ∀ e ∈ es, e.failed = true → StepKey.repeated id e.id ∈ keys) :
    Used keys id c (used ++ usedIn c es) (t.takeAll es) := by
  induction es generalizing used t with
  | nil =>
    rw [usedIn, List.filter_nil, List.map_nil, List.append_nil]
    exact h
  | cons e es ih =>
    obtain ⟨hfirst, horder⟩ := horder
    have hrest : ∀ x ∈ es, x.failed = true → StepKey.repeated id x.id ∈ keys :=
      fun x hx => hkeys x (List.mem_cons_of_mem _ hx)
    by_cases he : e.configuration = c
    · have hstep := h.take hapart he (hfirst he) (hkeys e List.mem_cons_self)
      have hall := ih hstep horder hrest
      rw [List.append_assoc, List.singleton_append] at hall
      rw [usedIn, List.filter_cons_of_pos (by simpa using he), List.map_cons]
      exact hall
    · have hall := ih (h.take_of_ne he) horder hrest
      rw [usedIn, List.filter_cons_of_neg (by simpa using he)]
      exact hall

end Used
end Tally

namespace Generator

variable {g : Generator} {v : Visit}

/-! ## Atoms -/

/-- The planned steps of an atom, its executed steps taken one after another as they stood in line. -/
def InOrder (g : Generator) (c : Configuration) (v : Visit) : Prop :=
  Tally.InOrder v.key.id c (.start v.planned.steps) (g.progress.executed v.key.id)

/-- Of a planned atom whose steps were executed in line, no executed step is in line. -/
theorem not_mem_line (hd : g.Distinct) (hv : v ∈ g.plannedVisits) (horder : g.InOrder c v)
    (he : e ∈ g.progress.executed v.key.id) (hc : e.configuration = c) :
    e.id ∉ (g.tally v).line v.key.id c := by
  have hstart : Tally.Used g.stepKeys v.key.id c [] (.start v.planned.steps) :=
    Tally.used_start hd.steps fun i hi =>
      (Placed.planned hv (List.getElem?_eq_getElem hi)).mem_stepKeys
  have hused := hstart.takeAll hd.steps horder fun x hx hf =>
    (Placed.again hv ⟨x, hx, hf, rfl, rfl⟩).mem_stepKeys
  have hmem : e.id ∈ Tally.usedIn c (g.progress.executed v.key.id) :=
    List.mem_map_of_mem (List.mem_filter.2 ⟨he, by simpa using hc⟩)
  intro hline
  exact (List.nodup_append.1 hused.nodup).2.2 _ hmem _ hline rfl

/-- A step that is handed out with the identity of an executed one is of the same planned atom and of
the same configuration, and steps of that configuration were executed out of line. -/
theorem Regular.not_inOrder (hr : g.Regular) (hd : g.Distinct) (hv : g.Arises v)
    (hopen : g.opened v = true) {x : StepId × ProtoStep} (hx : x ∈ g.todo v) {a : AtomId}
    (he : e ∈ g.progress.executed a) (hid : e.id = x.1) :
    v ∈ g.plannedVisits ∧ a = v.key.id ∧ e.configuration = x.2.configuration ∧
      ¬g.InOrder x.2.configuration v := by
  obtain ⟨k, hk, hka, hki⟩ := placed_of_todo hr hd hv hopen hx
  obtain ⟨l, hl, hla, hli⟩ := hr.origin a e he
  have hkl : k = l := hd.steps k hk.mem_stepKeys l hl.mem_stepKeys (by rw [hki, hli, hid])
  subst hkl
  have ha : a = v.key.id := hla.symm.trans hka
  have hc : e.configuration = x.2.configuration := hr.placed_unique hd hl hk
  subst ha
  cases hv with
  | planned hv =>
    refine ⟨hv, rfl, hc, fun horder => ?_⟩
    rw [todo_of_opened hopen] at hx
    exact not_mem_line hd hv horder he hc (hid ▸ Tally.mem_line hx)
  | repeated hp =>
    have hnil := (hr.opened_repeatVisit hd hp).1 hopen
    exact absurd (hnil ▸ he) List.not_mem_nil

theorem Attempts.mem_line (ha : g.Attempts v [e]) :
    e.id ∈ (g.tally v).line v.key.id e.configuration := by
  obtain ⟨x, hx, hall⟩ := ha.handed
  obtain ⟨hid, hc⟩ := hall e (List.mem_singleton_self e)
  rw [todo_of_opened ha.opened] at hx
  rw [hid, hc]
  exact Tally.mem_line hx

/-- A step that is executed out of line is handed out again, if its atom is still open. -/
theorem Attempts.again {p : Progress} (ha : g.Attempts v [e]) (hp : g.progress.Grows p v.key.id [e])
    (hfirst : ((g.tally v).line v.key.id e.configuration).head? ≠ some e.id)
    (hopen : (g.progressed p).opened v = true) : ∃ x ∈ (g.progressed p).todo v, x.1 = e.id := by
  have htally : (g.progressed p).tally v = (g.tally v).take e := by
    show (Tally.start v.planned.steps).takeAll (p.executed v.key.id) = _
    rw [hp.executed_self, Tally.takeAll_append]
    rfl
  have hstays := Tally.mem_line_take rfl ha.mem_line hfirst
  rw [← htally] at hstays
  obtain ⟨y, hy, hid⟩ := List.mem_map.1 hstays
  refine ⟨y, ?_, hid⟩
  rw [todo_of_opened hopen]
  exact List.mem_of_mem_filter hy

/-- Of a configuration that an atom has once, the one step is the first in line. -/
theorem Attempts.first (ha : g.Attempts v [e]) (hr : g.Regular) (hv : v ∈ g.plannedVisits)
    (hone : plannedIn e.configuration v.planned.steps ≤ 1) :
    ((g.tally v).line v.key.id e.configuration).head? = some e.id := by
  refine Tally.head?_line ha.mem_line ?_
  have hkept := hr.kept v hv e.configuration
  omega

/-- The one step of a repetition is the first in line. -/
theorem Attempts.first_repeat {l : List StepId} {p : Pending} (ha : g.Attempts (g.repeatVisit p) [e])
    (hr : g.Regular) (hd : g.Distinct) (hp : g.Awaits g.plan.atoms.length l p) :
    ((g.tally (g.repeatVisit p)).line (g.repeatVisit p).key.id e.configuration).head? = some e.id := by
  have hnil := (hr.opened_repeatVisit hd hp).1 ha.opened
  have htally : g.tally (g.repeatVisit p) = .start [p.redo.step] := by
    rw [tally_repeatVisit, hnil]
    rfl
  refine Tally.head?_line ha.mem_line ?_
  rw [htally, Tally.due_start]
  exact List.countP_le_length

theorem Worked.inOrder (h : g.Worked) (hend : g.plan.onward = none) (hd : g.Distinct)
    (hv : v ∈ g.plannedVisits) (hone : plannedIn c v.planned.steps ≤ 1) : g.InOrder c v := by
  induction h with
  | @start g h =>
    have hnil : g.progress.executed v.key.id = [] := by
      rw [Progress.executed_eq, h]
      rfl
    rw [InOrder, hnil]
    trivial
  | @attempt g u es p hworked ha hp ih =>
    have hbefore := hd.of_progressed hp
    have hr := hworked.regular hend hbefore
    have horder : g.InOrder c v := ih hend hbefore hv
    show Tally.InOrder v.key.id c _ (p.executed v.key.id)
    by_cases hself : v.key.id = u.key.id
    · have hsame : v = u := by
        cases ha.arises with
        | planned hu => exact hbefore.planned_inj hv hu hself
        | repeated hq => exact absurd hself (hbefore.planned_ne_repeated hv hq.mem_failedIds)
      subst hsame
      rw [hp.executed_self, Tally.inOrder_append]
      refine ⟨horder, ?_⟩
      have honce := ha.once
      cases es with
      | nil => trivial
      | cons e rest =>
        have hrest : rest = [] := List.length_eq_zero_iff.1 (by simpa using honce)
        subst hrest
        refine ⟨fun he => ?_, trivial⟩
        subst he
        exact ha.first hr hv hone
    · rw [hp.executed_other hself]
      exact horder

end Generator

/-! ## The engine -/

/-- The configuration of a step that is handed out. -/
def Step.configuration (s : Step) : Configuration :=
  ⟨s.instrumentConfig, s.stepConfig, s.observeClass⟩

theorem Progress.ofRecord_mem_executed {h : History} {x : AtomRecord × StepRecord}
    (hx : x ∈ h.executedSteps) (hscience : x.1.sequenceType = .science) :
    ExecutedStep.ofRecord x.2 ∈ (ofHistory h .science .allVisits).executed x.1.id := by
  obtain ⟨a, ha, hxa⟩ := List.mem_flatMap.1 hx
  obtain ⟨r, hr, rfl⟩ := List.mem_map.1 hxa
  have hmem : a ∈ h.atomsOf .science (VisitScope.allVisits.visit h) := by
    dsimp only at hscience
    exact List.mem_filter.2 ⟨ha, by simp [hscience, VisitScope.visit, History.inVisit]⟩
  rw [executed_eq, List.mem_flatMap]
  refine ⟨entry a, List.mem_filter.2 ⟨List.mem_map_of_mem hmem, by simp [entry]⟩, ?_⟩
  exact List.mem_map_of_mem hr

/-- The first step of a configuration that an atom hands out is the first in line. -/
theorem Generator.find?_stepsOf {g : Generator} {v : Visit} (hopen : g.opened v = true)
    (t : TelescopeState) :
    ((g.stepsOf t v).find? fun y => y.configuration = c).map (·.id) =
      ((g.tally v).line v.key.id c).head? := by
  have hlen : (g.todo v).length ≤ (g.estimates t v).1.length := by
    rw [estimates, CostModel.length_estimateAll, List.length_map]
  have hsteps : (g.stepsOf t v).map (fun y => (y.id, y.configuration)) =
      (g.todo v).map fun x => (x.1, x.2.configuration) := by
    rw [stepsOf, List.map_map]
    show ((g.todo v).zip (g.estimates t v).1).map
      ((fun x : StepId × ProtoStep => (x.1, x.2.configuration)) ∘ Prod.fst) = _
    rw [← List.map_map, List.map_fst_zip hlen]
  have hsame := congrArg (fun l => (l.find? fun y => y.2 = c).map (·.1)) hsteps
  rw [List.find?_map, List.find?_map, Option.map_map, Option.map_map] at hsame
  rw [Tally.line, ← todo_of_opened hopen, List.head?_map, List.head?_filter]
  exact hsame

namespace Engine

variable {e : Engine} {o : Observation} {calculator : Calculator} {s : Specification} {h : History}
  {a : Atom}

/-- The atom is returned for the science sequence: as the next one, or in a window of any length. -/
def Returns (e : Engine) (o : Observation) (calculator : Calculator) (a : Atom) : Prop :=
  e.nextAtom o calculator .science = .ok (some a) ∨
    ∃ limit config, e.generate o calculator limit = .ok config ∧ a ∈ config.science.atoms

theorem Worked.science (hworked : e.Worked o calculator h) :
    ∀ a ∈ h.atoms, a.sequenceType = .science := by
  induction hworked with
  | start => exact fun a ha => absurd ha List.not_mem_nil
  | record _ _ _ _ _ hadds ih =>
    intro a ha
    cases hadds with
    | push =>
      rcases List.mem_append.1 ha with ha | ha
      · exact ih a ha
      · rw [List.mem_singleton.1 ha]
    | onward hid hsequence hafter =>
      rcases List.mem_append.1 ha with ha | ha
      · exact ih a (List.mem_append_left _ ha)
      · rcases List.mem_cons.1 ha with rfl | ha
        · exact hsequence
        · exact ih a (List.mem_append_right _ (List.mem_cons_of_mem _ ha))

/-- An atom that is returned is an open one that arises. -/
theorem visit_of_returns (hs : e.specification o calculator = .ok s)
    (ha : e.Returns o calculator a) : ∃ v t, (e.science o s).Arises v ∧
      (e.science o s).opened v = true ∧ a = ((e.science o s).emission t v).atom := by
  have hwindow : ∃ limit, a ∈ ((e.science o s).window (telescope o .science) limit).atoms := by
    rcases ha with hnext | ⟨limit, config, hconfig, hmem⟩
    · have hplan : (Plans.ofSpecification s).get? .science = some (Plans.ofSpecification s).science := rfl
      rw [nextAtom_eq hs hplan] at hnext
      obtain ⟨⟨x, c⟩, hadvance, rfl⟩ := Option.map_eq_some_iff.1 (Except.ok.inj hnext)
      have hfirst : (e.science o s).advance (.start (telescope o .science)) = some (x, c) := hadvance
      refine ⟨0, ?_⟩
      rw [Generator.window_atoms, Generator.take_succ_some hfirst]
      exact List.mem_cons_self
    · rw [science_of_generate hs hconfig] at hmem
      exact ⟨_, hmem⟩
  obtain ⟨limit, hmem⟩ := hwindow
  rw [Generator.window_atoms] at hmem
  obtain ⟨x, hx, rfl⟩ := List.mem_map.1 hmem
  obtain ⟨us, place, v, t, hpath, hv, hopen, rfl⟩ := Generator.mem_take (s := ⟨0, []⟩) hx
  exact ⟨v, t, hpath.arises (onward_science e o s) hv, hopen, rfl⟩

/-- When a step is returned with the identity of an executed one.  Both are then of the same planned
atom and of the same configuration, which the atom has twice, and steps of that configuration were
executed out of line. -/
theorem handed_out_again (e : Engine) (o : Observation) (calculator : Calculator)
    (s : Specification) (h : History) (a : Atom) (x : Step) (y : AtomRecord × StepRecord)
    (hs : e.specification o calculator = .ok s) (hworked : e.Worked o calculator h)
    (ha : e.Returns (o.withHistory h) calculator a) (hx : x ∈ a.steps) (hy : y ∈ h.executedSteps)
    (hid : y.2.id = x.id)
    (hatoms : AtomKey.Apart (e.atomKeys (o.withHistory h) s .science 0))
    (hsteps : StepKey.Apart (e.stepKeys (o.withHistory h) s)) :
    y.1.id = a.id ∧ y.2.configuration = x.configuration ∧
      ∃ v ∈ (e.science (o.withHistory h) s).plannedVisits, v.key.id = a.id ∧
        2 ≤ plannedIn x.configuration v.planned.steps ∧
        ¬(e.science (o.withHistory h) s).InOrder x.configuration v := by
  have hd : (e.science (o.withHistory h) s).Distinct := ⟨hatoms, hsteps⟩
  have hend := onward_science e (o.withHistory h) s
  have hrun := generator_worked hs hworked
  have hr := hrun.regular hend hd
  obtain ⟨v, t, hv, hopen, rfl⟩ := visit_of_returns (o := o.withHistory h) hs ha
  obtain ⟨z, hz, estimate, rfl⟩ := Generator.mem_stepsOf hx
  have hscience : y.1.sequenceType = .science := by
    obtain ⟨b, hb, hyb⟩ := List.mem_flatMap.1 hy
    obtain ⟨r, -, rfl⟩ := List.mem_map.1 hyb
    exact hworked.science b hb
  have hexecuted := Progress.ofRecord_mem_executed hy hscience
  obtain ⟨hplanned, hatom, hconf, horder⟩ := hr.not_inOrder hd hv hopen hz hexecuted hid
  refine ⟨hatom, hconf, v, hplanned, rfl, ?_, horder⟩
  by_contra htwo
  have hone : plannedIn z.2.configuration v.planned.steps ≤ 1 := Nat.le_of_not_lt htwo
  exact horder (hrun.inOrder hend hd hplanned hone)

/-- Conversely, a step that is executed although another of its configuration stood before it is
returned again, as long as its atom is. -/
theorem returned_again {h' : History} {a' : Atom} {x : Step} {r : StepRecord} {visit : String}
    (hs : e.specification o calculator = .ok s) (hworked : e.Worked o calculator h)
    (ha : e.Returns (o.withHistory h) calculator a) (hx : x ∈ a.steps) (hr : r.Records x)
    (hexecuted : r.isExecuted = true) (hadds : History.Adds ⟨a.id, visit, .science, [r]⟩ h h')
    (hfirst : (a.steps.find? fun y => y.configuration = x.configuration).map (·.id) ≠ some x.id)
    (ha' : e.Returns (o.withHistory h') calculator a') (hid : a'.id = a.id)
    (hd' : (e.science (o.withHistory h') s).Distinct) : ∃ x' ∈ a'.steps, x'.id = x.id := by
  obtain ⟨v, t, hv, hopen, rfl⟩ := visit_of_returns (o := o.withHistory h) hs ha
  obtain ⟨v', t', hv', hopen', rfl⟩ := visit_of_returns (o := o.withHistory h') hs ha'
  obtain ⟨z, hz, estimate, rfl⟩ := Generator.mem_stepsOf hx
  have hentry : (Progress.entry ⟨v.key.id, visit, .science, [r]⟩).2 = [.ofRecord r] := by
    rw [Progress.entry, List.filter_cons_of_pos hexecuted]
    rfl
  have hgrows : (e.science (o.withHistory h) s).progress.Grows
      (Progress.ofHistory h' .science .allVisits) v.key.id [.ofRecord r] := hentry ▸ hadds.grows
  have hconf : (ExecutedStep.ofRecord r).configuration = z.2.configuration := by
    rw [ExecutedStep.configuration, ProtoStep.configuration, Configuration.mk.injEq]
    exact ⟨hr.instrumentConfig, hr.stepConfig, hr.observeClass⟩
  have hattempt : (e.science (o.withHistory h) s).Attempts v [.ofRecord r] := by
    refine ⟨hv, hopen, ⟨z, hz, fun y hy => ?_⟩, Nat.le_refl 1⟩
    rw [List.mem_singleton.1 hy]
    exact ⟨hr.id, hconf⟩
  have hd : (e.science (o.withHistory h) s).Distinct := Generator.Distinct.of_progressed hd' hgrows
  have hregular := (generator_worked hs hworked).regular (onward_science e _ s) hd
  have hout : (((e.science (o.withHistory h) s).tally v).line v.key.id
      (ExecutedStep.ofRecord r).configuration).head? ≠ some (ExecutedStep.ofRecord r).id := by
    have hrid : (ExecutedStep.ofRecord r).id = (Step.ofProto z.1 estimate z.2).id := hr.id
    rw [hconf, hrid, ← Generator.find?_stepsOf hopen t]
    exact hfirst
  have hvisit : v' = v := by
    cases hv with
    | repeated hp => exact absurd (hattempt.first_repeat hregular hd hp) hout
    | planned hplanned =>
      cases hv' with
      | planned hplanned' => exact hd'.planned_inj hplanned' hplanned hid
      | repeated hp' => exact absurd hid.symm (hd'.planned_ne_repeated hplanned hp'.mem_failedIds)
  subst hvisit
  obtain ⟨y, hy, hyid⟩ := hattempt.again hgrows hout hopen'
  have hmem : y.1 ∈ ((e.science (o.withHistory h') s).stepsOf t' v').map (·.id) := by
    rw [Generator.map_id_stepsOf]
    exact List.mem_map_of_mem hy
  obtain ⟨x', hx', hxid⟩ := List.mem_map.1 hmem
  exact ⟨x', hx', hxid.trans (hyid.trans hr.id)⟩

end Engine

namespace Twins

/-- The second of the two equal exposures was executed, and the first was not. -/
def begun : History := (default : Engine).finish observation Short.calculator ⟨[]⟩ 1 .pass

/-- The next atom behind a history. -/
def next? (history : History) : Option Atom :=
  match (default : Engine).nextAtom (observation.withHistory history) Short.calculator .science with
  | .ok x => x
  | .error _ => none

/-- What is left of the atom. -/
def resumed : Atom := (next? begun).get (by decide +kernel)

end Twins

/-- Of two equal exposures the second was executed, and its identity is the one that is handed out. -/
theorem Engine.handed_out_again_twins :
    (default : Engine).Worked Twins.observation Short.calculator Twins.begun ∧
    ∃ x ∈ Twins.resumed.steps, ∃ y ∈ Twins.begun.executedSteps, y.2.id = x.id ∧
      ∃ v ∈ ((default : Engine).science (Twins.observation.withHistory Twins.begun)
        Twins.specification).plannedVisits,
        v.key.id = Twins.resumed.id ∧ 2 ≤ plannedIn x.configuration v.planned.steps ∧
        ¬((default : Engine).science (Twins.observation.withHistory Twins.begun)
          Twins.specification).InOrder x.configuration v := by
  have hworked : (default : Engine).Worked Twins.observation Short.calculator Twins.begun :=
    Engine.Worked.start.finish 1 .pass
  have hreturns : (default : Engine).Returns (Twins.observation.withHistory Twins.begun)
      Short.calculator Twins.resumed := .inl (by decide +kernel)
  let x := Twins.resumed.steps.head (by decide +kernel)
  let y := Twins.begun.executedSteps.head (by decide +kernel)
  have hx : x ∈ Twins.resumed.steps := List.head_mem _
  have hy : y ∈ Twins.begun.executedSteps := List.head_mem _
  have hid : y.2.id = x.id := by decide +kernel
  obtain ⟨-, -, hvisit⟩ := Engine.handed_out_again default Twins.observation Short.calculator
    Twins.specification Twins.begun Twins.resumed x y (by decide +kernel) hworked hreturns hx hy hid
    (by decide +kernel) (by decide +kernel)
  exact ⟨hworked, x, hx, y, hy, hid, hvisit⟩

end Observing
