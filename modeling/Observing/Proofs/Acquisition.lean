import Observing.Proofs.Dependence
import Observing.Proofs.Idle
import Observing.Proofs.Returns

/-!
# What an acquisition is charged

An acquisition is handed out at the price from where the latest visit left the telescope, as each
visit acquires the target anew, but it is charged from where all visits left it.  All its steps are on
the sky, so that the two prices differ in the change in front of the first step, and nowhere else.

* `TelescopeState.Alike`       states that cost the same for exposures on the sky;
* `StepRecord.charges_congr`   such exposures are charged the same from there;
* `charges_tail`               from any other states all but the first of them are;
* `Atom.startingFrom`          an atom with its first step priced from another state;
* `History.SetUp`              the latest visit has set up the telescope for the sky itself;
* `Engine.Acquires`            an acquisition is executed as it was handed out;
* `Engine.digest_acquires`     what an acquisition is charged.
-/

namespace Observing

/-! ## States of the telescope -/

/-- The exposure is on the sky. -/
def StepConfig.OnSky (c : StepConfig) : Prop := c.offset? ≠ none

namespace TelescopeState

variable {t u : TelescopeState}

/-- Two states are alike for exposures on the sky.  What the lamps are set to has no say in it. -/
structure Alike (t u : TelescopeState) : Prop where
  instrument : t.instrument = u.instrument
  fold : t.fold = u.fold
  offset : t.offset = u.offset

theorem Alike.refl (t : TelescopeState) : t.Alike t := ⟨rfl, rfl, rfl⟩

theorem Alike.after (h : t.Alike u) (i : InstrumentConfig) (c : StepConfig) :
    (t.after i c).Alike (u.after i c) := by
  cases c with
  | science offset guiding => exact ⟨rfl, rfl, rfl⟩
  | gcal config => exact ⟨rfl, rfl, h.offset⟩
  | bias => exact ⟨rfl, h.fold, h.offset⟩
  | dark => exact ⟨rfl, h.fold, h.offset⟩

theorem Alike.behind (h : t.Alike u) (rs : List StepRecord) :
    (t.behind rs).Alike (u.behind rs) := by
  induction rs generalizing t u with
  | nil => exact h
  | cons r rs ih => exact ih (h.after r.instrumentConfig r.stepConfig)

/-- An exposure on the sky leaves any two states alike. -/
theorem alike_after (t u : TelescopeState) (i : InstrumentConfig) {c : StepConfig} (hc : c.OnSky) :
    (t.after i c).Alike (u.after i c) := by
  cases c with
  | science offset guiding => exact ⟨rfl, rfl, rfl⟩
  | gcal config => exact absurd rfl hc
  | bias => exact absurd rfl hc
  | dark => exact absurd rfl hc

theorem Alike.configChange (h : t.Alike u) (m : CostModel) {p : ProtoStep}
    (hp : p.stepConfig.OnSky) : m.configChange t p = m.configChange u p := by
  unfold CostModel.configChange
  rw [h.instrument]
  cases hc : p.stepConfig with
  | science offset guiding => simp only [CostModel.telescopeChanges, h.fold, h.offset]
  | gcal config => exact absurd (by rw [hc]; rfl) hp
  | bias => exact absurd (by rw [hc]; rfl) hp
  | dark => exact absurd (by rw [hc]; rfl) hp

theorem Alike.estimate (h : t.Alike u) (m : CostModel) {p : ProtoStep}
    (hp : p.stepConfig.OnSky) : m.estimate t p = m.estimate u p := by
  rw [CostModel.estimate, CostModel.estimate, h.configChange m hp]

theorem behind_append (t : TelescopeState) (rs qs : List StepRecord) :
    t.behind (rs ++ qs) = (t.behind rs).behind qs := List.foldl_append

end TelescopeState

/-! ## Charges on the sky -/

namespace StepRecord

variable {m : CostModel} {t u : TelescopeState} {r : StepRecord} {rs : List StepRecord}

theorem charges_cons (m : CostModel) (t : TelescopeState) (r : StepRecord) (rs : List StepRecord) :
    charges m t (r :: rs) = (r.observeClass.charge, (m.estimate t r.proto).total) ::
      charges m (t.after r.instrumentConfig r.stepConfig) rs := rfl

theorem onSky_of_carries {ss : List Step} (h : List.Forall₂ Carries rs ss)
    (hss : ∀ x ∈ ss, x.stepConfig.OnSky) : ∀ r ∈ rs, r.stepConfig.OnSky := by
  induction h with
  | nil => exact fun r hr => absurd hr List.not_mem_nil
  | cons hr _ ih =>
    obtain ⟨hx, hrest⟩ := List.forall_mem_cons.1 hss
    exact List.forall_mem_cons.2 ⟨hr.stepConfig ▸ hx, ih hrest⟩

theorem charges_congr (h : t.Alike u) (hrs : ∀ r ∈ rs, r.stepConfig.OnSky) :
    charges m t rs = charges m u rs := by
  induction rs generalizing t u with
  | nil => rfl
  | cons r rs ih =>
    obtain ⟨hr, hrs⟩ := List.forall_mem_cons.1 hrs
    rw [charges_cons, charges_cons, h.estimate m (p := r.proto) hr, ih (h.after _ _) hrs]

/-- Of exposures on the sky only the first is charged for where the telescope stood before. -/
theorem charges_tail {x : Step} (hr : r.Carries x) (hsky : ∀ q ∈ r :: rs, q.stepConfig.OnSky)
    (t u : TelescopeState) : charges m t (r :: rs) =
      (x.observeClass.charge, (m.estimate t x.proto).total) :: (charges m u (r :: rs)).tail := by
  obtain ⟨hfirst, hrest⟩ := List.forall_mem_cons.1 hsky
  have hprice : m.estimate t r.proto = m.estimate t x.proto :=
    CostModel.estimate_congr hr.instrumentConfig hr.stepConfig t
  rw [charges_cons, charges_cons, List.tail_cons, hprice, hr.observeClass,
    charges_congr (TelescopeState.alike_after t u r.instrumentConfig hfirst) hrest]

/-- Exposures on the sky are charged the same from two states where the change in front of the first
takes the same time. -/
theorem charges_eq_of_change {ss : List Step} (hrs : List.Forall₂ Carries rs ss)
    (hsky : ∀ r ∈ rs, r.stepConfig.OnSky) (hchange : ∀ x ∈ ss.head?,
      (m.configChange t x.proto).estimate = (m.configChange u x.proto).estimate) :
    charges m t rs = charges m u rs := by
  cases hrs with
  | nil => rfl
  | @cons r x rs xs hr hrs =>
    have htotal : (m.estimate t x.proto).total = (m.estimate u x.proto).total :=
      congrArg (· + (m.detector x.instrumentConfig).total) (hchange x rfl)
    rw [charges_tail hr hsky t u, charges_tail hr hsky u u, htotal, List.tail_cons]

end StepRecord

/-- The atom with its first step priced from another state of the telescope. -/
def Atom.startingFrom (m : CostModel) (t : TelescopeState) (a : Atom) : Atom :=
  { a with steps := match a.steps with
      | [] => []
      | x :: xs => { x with estimate := m.estimate t x.proto } :: xs }

/-- From another state exposures on the sky are charged what they were handed out with, but for the
first of them. -/
theorem StepRecord.charges_startingFrom {m : CostModel} {u : TelescopeState} {a : Atom}
    {rs : List StepRecord} (t : TelescopeState) (hrs : List.Forall₂ Carries rs a.steps)
    (hcharges : charges m u rs = a.steps.map Step.charge) (hsky : ∀ r ∈ rs, r.stepConfig.OnSky) :
    charges m t rs = (a.startingFrom m t).steps.map Step.charge := by
  obtain ⟨id, description, kind, steps⟩ := a
  cases hrs with
  | nil => rfl
  | cons hr hrs =>
    rw [charges_tail hr hsky t u, hcharges]
    rfl

/-! ## The latest visit -/

/-- The latest visit has set up the telescope for the sky itself: some exposure on the sky and all
that was executed behind it belong to it, or nothing was executed in any other visit. -/
def History.SetUp (h : History) : Prop :=
  (∃ xs x ys, h.executedSteps = xs ++ x :: ys ∧ x.2.stepConfig.OnSky ∧
    ∀ y ∈ x :: ys, inVisit h.latestVisit y.1 = true) ∨
  ∀ y ∈ h.executedSteps, inVisit h.latestVisit y.1 = true

theorem TelescopeState.alike_of_setUp {h : History} (hset : h.SetUp) :
    (ofHistory h .allVisits).Alike (ofHistory h .latestVisit) := by
  rw [ofHistory_allVisits, ofHistory_eq]
  -- What was executed before an exposure on the sky has no say in how it leaves the telescope.
  rcases hset with ⟨xs, x, ys, hsteps, hx, hlatest⟩ | hlatest
  · have hfilter : (x :: ys).filter (fun y => History.inVisit h.latestVisit y.1) = x :: ys :=
      List.filter_eq_self.2 hlatest
    have hvisit : VisitScope.latestVisit.visit h = h.latestVisit := rfl
    rw [hvisit, hsteps, List.filter_append, hfilter, List.map_append, List.map_append,
      behind_append, behind_append]
    exact (alike_after _ _ x.2.instrumentConfig hx).behind (ys.map (·.2))
  · have hfilter : h.executedSteps.filter
        (fun y => History.inVisit (VisitScope.latestVisit.visit h) y.1) = h.executedSteps :=
      List.filter_eq_self.2 hlatest
    rw [hfilter]
    exact .refl _

/-! ## The engine -/

namespace Engine

variable {e : Engine} {o : Observation} {calculator : Calculator} {s : Specification} {a : Atom}
  {r : AtomRecord}

/-- The next atom of the acquisition was executed as a whole, as it was handed out and with data that
did not fail, and was recorded under the latest visit. -/
structure Acquires (e : Engine) (o : Observation) (calculator : Calculator) (a : Atom)
    (r : AtomRecord) : Prop where
  next : ∃ limit config, e.Generates o calculator limit (.ok config) ∧
    config.acquisition.bind (·.nextAtom) = some a
  id : r.id = a.id
  sequenceType : r.sequenceType = .acquisition
  visit : ∀ v ∈ o.history.latestVisit, r.visitId = v
  steps : List.Forall₂ StepRecord.Carries r.steps a.steps

/-- An acquisition is handed out at the price from where the latest visit left the telescope. -/
theorem Acquires.charges (hs : e.specification o calculator = .ok s)
    (h : e.Acquires o calculator a r) :
    StepRecord.charges e.costs (.ofHistory o.history .latestVisit) r.steps =
      a.steps.map Step.charge := by
  obtain ⟨limit, config, hconfig, hnext⟩ := h.next
  obtain ⟨w, hw, hfirst⟩ := Option.bind_eq_some_iff.1 hnext
  have hwindow := get?_of_generate hs hconfig.result .acquisition
  rw [show config.get? .acquisition = config.acquisition from rfl, hw] at hwindow
  obtain ⟨plan, -, rfl⟩ := Option.map_eq_some_iff.1 hwindow.symm
  cases hadvance : (e.generator o .acquisition plan).advance (.start (telescope o .acquisition)) with
  | none =>
    rw [Generator.window_none hadvance] at hfirst
    cases hfirst
  | some x =>
    obtain ⟨em, next⟩ := x
    rw [Generator.window_some hadvance] at hfirst
    obtain ⟨us, place, v, rest, -, rfl, -⟩ := Generator.first_of_advance hadvance
    obtain rfl := Option.some.inj hfirst
    refine (StepRecord.charges_carries h.steps).trans ?_
    show _ = ((e.generator o .acquisition plan).stepsOf _ v).map Step.charge
    rw [Generator.stepsOf, List.map_map]
    rfl

theorem Acquires.handsOut (h : e.Acquires o calculator a r) :
    e.HandsOut o calculator .acquisition a := by
  obtain ⟨limit, config, hconfig, hnext⟩ := h.next
  obtain ⟨w, hw, hfirst⟩ := Option.bind_eq_some_iff.1 hnext
  refine .inr ⟨limit, config, hconfig.result, w, hw, ?_⟩
  rw [GeneratedSequence.atoms, hfirst]
  exact List.mem_cons_self

theorem Acquires.onSky (hs : e.specification o calculator = .ok s)
    (h : e.Acquires o calculator a r) : ∀ x ∈ a.steps, x.stepConfig.OnSky := by
  intro x hx
  obtain ⟨plan, hplan, p, hp, id, estimate, rfl⟩ := exists_planned hs h.handsOut hx
  obtain ⟨offset, hoffset⟩ :=
    (Specification.acquires_of_build (projectedAtoms_le hs).1 hplan p hp).onSky
  show p.stepConfig.offset? ≠ none
  rw [hoffset]
  exact Option.some_ne_none offset

/-- What an acquisition is charged: what it was handed out with, but for the first step, which is
charged from where all visits left the telescope, and not only the latest one.  It makes no
difference where the change in front of that step takes the same time from either place, as it does
where the latest visit has set up the telescope for the sky itself.  Every digest that is returned
carries the invoice of its history. -/
theorem digest_acquires (e : Engine) (o : Observation) (calculator : Calculator) (s : Specification)
    (a : Atom) (r : AtomRecord) (hs : e.specification o calculator = .ok s)
    (h : e.Acquires o calculator a r) :
    (∀ k, (e.invoice (o.push r)).execution.get k = (e.invoice o).execution.get k +
      Atom.charged k [a.startingFrom e.costs (.ofHistory o.history .allVisits)]) ∧
    (o.history.SetUp ∨ (∀ x ∈ a.steps.head?,
        (e.costs.configChange (.ofHistory o.history .allVisits) x.proto).estimate =
          (e.costs.configChange (.ofHistory o.history .latestVisit) x.proto).estimate) →
      ∀ k, (e.invoice (o.push r)).execution.get k =
        (e.invoice o).execution.get k + Atom.charged k [a]) ∧
    (∀ d, e.Digests o calculator (.ok d) → d.invoice = e.invoice o) ∧
    ∀ d, e.Digests (o.push r) calculator (.ok d) → d.invoice = e.invoice (o.push r) := by
  have hsky := h.onSky hs
  have hrecorded := StepRecord.onSky_of_carries h.steps hsky
  have hspent : ∀ b : Atom, StepRecord.charges e.costs (.ofHistory o.history .allVisits) r.steps =
      b.steps.map Step.charge → ∀ k, (e.invoice (o.push r)).execution.get k =
        (e.invoice o).execution.get k + Atom.charged k [b] := by
    intro b hb k
    have htime := Invoice.executionTime_push e.costs o.history r (executed_of_carries h.steps)
    have hsteps : [b].flatMap (·.steps) = b.steps := List.flatMap_singleton ..
    rw [← CategorizedTime.get_charge_atoms, hsteps, ← hb]
    exact congrArg (·.get k) htime
  refine ⟨hspent _ (StepRecord.charges_startingFrom _ h.steps (h.charges hs) hrecorded),
    fun hchange => hspent a ?_, fun d hd => hd.invoice, fun d hd => hd.invoice⟩
  rw [StepRecord.charges_eq_of_change h.steps hrecorded, h.charges hs]
  intro x hx
  -- States that are alike need the same changes in front of an exposure on the sky.
  rcases hchange with hset | hchange
  · rw [(TelescopeState.alike_of_setUp hset).configChange e.costs
      (hsky x (List.mem_of_mem_head? hx) : x.proto.stepConfig.OnSky)]
  · exact hchange x hx

end Engine

/-! ## The first acquisition of a second visit -/

namespace Slit

/-- The lamps are exposed in the first visit; the second one begins an acquisition and aborts it. -/
def retried : History :=
  ⟨[lamps.finished "v-1", ⟨acquired.id, "v-2", .acquisition, acquired.steps.map (·.aborted)⟩]⟩

theorem distinctFailures_retried : (observation 4 retried).history.DistinctFailures := by
  decide +kernel

theorem specification_retried :
    (default : Engine).specification (observation 4 retried) (calculator 4) =
      .ok (specification 4) := by
  decide +kernel

theorem acquires : (default : Engine).Acquires (observation 4 retried) (calculator 4) acquired
    acquisition := by
  obtain ⟨config, hconfig⟩ : ∃ config, (default : Engine).Generates (observation 4 retried)
      (calculator 4) (some 0) (.ok config) :=
    Engine.generates_of_apart specification_retried distinctFailures_retried
      fun | .acquisition => by decide +kernel | .science => by decide +kernel
  have hwindow := Engine.get?_of_generate specification_retried hconfig.result .acquisition
  refine ⟨⟨some 0, config, hconfig, ?_⟩, rfl, rfl, by decide +kernel, carries_finished _⟩
  show (config.get? .acquisition).bind (·.nextAtom) = _
  rw [hwindow]
  decide +kernel

/-- Both digests are returned: the one in front of the acquisition and the one behind it. -/
theorem digests_retried :
    (∃ d, (default : Engine).Digests (observation 4 retried) (calculator 4) (.ok d)) ∧
    ∃ d, (default : Engine).Digests ((observation 4 retried).push acquisition) (calculator 4)
      (.ok d) := by
  constructor
  · exact Engine.digests_of_apart specification_retried distinctFailures_retried
      fun | .acquisition => by decide +kernel | .science => by decide +kernel
  · exact Engine.digests_of_apart (s := specification 4) (by decide +kernel) (by decide +kernel)
      fun | .acquisition => by decide +kernel | .science => by decide +kernel

end Slit

namespace Engine

/-- The aborted acquisition is handed out as if the telescope had done nothing, and is charged for the
way back from the lamps. -/
theorem digest_acquires_slit :
    ∃ d d',
      (default : Engine).Digests (Slit.observation 4 Slit.retried) (Slit.calculator 4) (.ok d) ∧
      (default : Engine).Digests ((Slit.observation 4 Slit.retried).push Slit.acquisition)
        (Slit.calculator 4) (.ok d') ∧
      d'.invoice.execution.get .program = d.invoice.execution.get .program +
        Atom.charged .program [Slit.acquired.startingFrom (default : Engine).costs
          (.ofHistory Slit.retried .allVisits)] := by
  obtain ⟨⟨d, hd⟩, d', hd'⟩ := Slit.digests_retried
  obtain ⟨htime, -, hinvoice, hinvoice'⟩ := digest_acquires default (Slit.observation 4 Slit.retried)
    (Slit.calculator 4) (Slit.specification 4) Slit.acquired Slit.acquisition
    Slit.specification_retried Slit.acquires
  refine ⟨d, d', hd, hd', ?_⟩
  rw [hinvoice d hd, hinvoice' d' hd']
  exact htime .program

/-- An acquisition is not always charged what it was handed out with, although no failed step of the
latest visit shares its identity, and both digests are returned. -/
theorem not_charged_as_returned :
    ¬ ∀ (e : Engine) (o : Observation) (calculator : Calculator) (s : Specification) (a : Atom)
      (r : AtomRecord), e.specification o calculator = .ok s →
      (⟨o.history.latestRecords⟩ : History).DistinctFailures → e.Acquires o calculator a r →
      ∀ d d', e.Digests o calculator (.ok d) → e.Digests (o.push r) calculator (.ok d') →
        ∀ k, d'.invoice.execution.get k = d.invoice.execution.get k + Atom.charged k [a] := by
  intro h
  obtain ⟨⟨d, hd⟩, d', hd'⟩ := Slit.digests_retried
  have hcharged := h default (Slit.observation 4 Slit.retried) (Slit.calculator 4)
    (Slit.specification 4) Slit.acquired Slit.acquisition Slit.specification_retried
    (by decide +kernel) Slit.acquires d d' hd hd' .program
  rw [hd.invoice, hd'.invoice] at hcharged
  exact absurd hcharged (by decide +kernel)

end Engine
end Observing
