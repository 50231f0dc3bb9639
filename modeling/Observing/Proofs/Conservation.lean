import Observing.Proofs.Prediction
import Observing.Proofs.Windows

/-!
# Time goes from the plan to the invoice

The digest prices the atoms that remain from the state in which the telescope was left; the invoice
prices the executed steps again from the beginning of the history.  Once the first atoms that remain
are executed, the invoice has grown by the time with which they were handed out, and the digest has
lost it.

* `CategorizedTime.charge`    times charged one after another;
* `StepRecord.charges`        what executed steps are charged;
* `AtomRecord.Completes`      an atom was recorded as a whole, with data that did not fail;
* `Generator.remaining_recorded`, `charges_carries`   the first atom that remains was executed;
* `Engine.remaining_pushAll`, `Engine.digest_pushAll`   the first atoms that remain were.
-/

namespace Observing

/-! ## Charging -/

namespace TimeSpan

theorem foldl_add (ts : List TimeSpan) (a : TimeSpan) : ts.foldl (· + ·) a = a + sum ts := by
  ext
  rw [micros_foldl_add, micros_add, micros_sum]
  omega

theorem sum_cons (t : TimeSpan) (ts : List TimeSpan) : sum (t :: ts) = t + sum ts := by
  rw [sum, List.foldl_cons, zero_add, foldl_add]

theorem sum_append (as bs : List TimeSpan) : sum (as ++ bs) = sum as + sum bs := by
  rw [sum, List.foldl_append, foldl_add]
  rfl

end TimeSpan

namespace CategorizedTime

/-- Times charged one after another. -/
def charge (t : CategorizedTime) (cs : List (ChargeClass × TimeSpan)) : CategorizedTime :=
  cs.foldl (fun t c => t.add c.1 c.2) t

theorem charge_append (t : CategorizedTime) (cs ds : List (ChargeClass × TimeSpan)) :
    t.charge (cs ++ ds) = (t.charge cs).charge ds := List.foldl_append

theorem get_charge (t : CategorizedTime) (cs : List (ChargeClass × TimeSpan)) (k : ChargeClass) :
    (t.charge cs).get k = t.get k + TimeSpan.sum ((cs.filter (·.1 = k)).map (·.2)) := by
  induction cs generalizing t with
  | nil => exact (TimeSpan.add_zero _).symm
  | cons c cs ih =>
    show ((t.add c.1 c.2).charge cs).get k = _
    rw [ih]
    by_cases hc : c.1 = k
    · rw [List.filter_cons_of_pos (by simpa using hc), List.map_cons, TimeSpan.sum_cons,
        ← TimeSpan.add_assoc, ← hc, get_add_self]
    · rw [List.filter_cons_of_neg (by simpa using hc), get_add_of_ne t (Ne.symm hc)]

end CategorizedTime

/-- What a step is charged, and to whom. -/
def Step.charge (s : Step) : ChargeClass × TimeSpan := (s.observeClass.charge, s.estimate.total)

/-- The time of the steps of atoms that is charged to a class. -/
def Atom.charged (k : ChargeClass) (atoms : List Atom) : TimeSpan :=
  TimeSpan.sum
    (((atoms.flatMap (·.steps)).filter (·.observeClass.charge = k)).map (·.estimate.total))

theorem CategorizedTime.get_charge_atoms (t : CategorizedTime) (atoms : List Atom)
    (k : ChargeClass) : (t.charge ((atoms.flatMap (·.steps)).map Step.charge)).get k =
      t.get k + Atom.charged k atoms := by
  rw [get_charge, List.filter_map, List.map_map]
  rfl

theorem SequenceDigest.get_timeEstimate (atoms : List Atom) (k : ChargeClass) :
    (ofAtoms atoms).timeEstimate.get k = Atom.charged k atoms := by
  have htime : (ofAtoms atoms).timeEstimate =
      (0 : CategorizedTime).charge ((atoms.flatMap (·.steps)).map Step.charge) := by
    rw [CategorizedTime.charge, List.foldl_map]
    rfl
  rw [htime, CategorizedTime.get_charge_atoms, CategorizedTime.get_zero, TimeSpan.zero_add]

theorem Atom.charged_append (k : ChargeClass) (as bs : List Atom) :
    charged k (as ++ bs) = charged k as + charged k bs := by
  unfold charged
  rw [List.flatMap_append, List.filter_append, List.map_append, TimeSpan.sum_append]

/-! ## Executed steps -/

/-- The class of a step and its breakpoint cost no time. -/
theorem CostModel.estimate_congr {m : CostModel} {p q : ProtoStep}
    (hi : p.instrumentConfig = q.instrumentConfig) (hs : p.stepConfig = q.stepConfig)
    (t : TelescopeState) : m.estimate t p = m.estimate t q := by
  unfold CostModel.estimate CostModel.configChange
  rw [hi, hs]

namespace StepRecord

/-- What executed steps are charged, each priced behind the one before it. -/
def charges (m : CostModel) (t : TelescopeState) (rs : List StepRecord) :
    List (ChargeClass × TimeSpan) :=
  (rs.zip (m.estimateAll t (rs.map (·.proto))).1).map fun (r, e) => (r.observeClass.charge, e.total)

variable {m : CostModel}

theorem behind_eq_estimateAll (t : TelescopeState) (rs : List StepRecord) :
    (m.estimateAll t (rs.map (·.proto))).2 = t.behind rs := by
  refine (TelescopeState.behind_eq m ?_ t).symm
  rw [List.forall₂_map_right_iff]
  exact List.forall₂_same.2 fun r _ => ⟨rfl, rfl⟩

theorem charges_append (t : TelescopeState) (rs qs : List StepRecord) :
    charges m t (rs ++ qs) = charges m t rs ++ charges m (t.behind rs) qs := by
  have hlen : rs.length = (m.estimateAll t (rs.map (·.proto))).1.length := by
    rw [CostModel.length_estimateAll, List.length_map]
  unfold charges
  rw [List.map_append, CostModel.estimateAll_append, behind_eq_estimateAll, List.zip_append hlen,
    List.map_append]

/-- Steps that were executed as they were handed out are charged what they were handed out with. -/
theorem charges_carries {rs : List StepRecord} {xs : List (StepId × ProtoStep)} {t : TelescopeState}
    (h : List.Forall₂ Carries rs ((xs.zip (m.estimateAll t (xs.map (·.2))).1).map
      fun ((id, p), e) => Step.ofProto id e p)) :
    charges m t rs = ((xs.zip (m.estimateAll t (xs.map (·.2))).1).map
      fun ((id, p), e) => (Step.ofProto id e p).charge) := by
  induction xs generalizing rs t with
  | nil =>
    cases h
    rfl
  | cons x xs ih =>
    obtain ⟨id, p⟩ := x
    cases h with
    | @cons r _ rs _ hr hrest =>
      have hi : r.instrumentConfig = p.instrumentConfig := hr.instrumentConfig
      have hs : r.stepConfig = p.stepConfig := hr.stepConfig
      have hclass : r.observeClass = p.observeClass := hr.observeClass
      have hprice : m.estimate t r.proto = m.estimate t p := CostModel.estimate_congr hi hs t
      have hcharges : charges m t (r :: rs) = (r.observeClass.charge, (m.estimate t r.proto).total) ::
          charges m (t.after r.instrumentConfig r.stepConfig) rs := rfl
      rw [hcharges, hprice, hclass, hi, hs, ih hrest]
      rfl

theorem passed_of_carries {rs : List StepRecord} {ss : List Step} (h : List.Forall₂ Carries rs ss) :
    ∀ e ∈ rs.map ExecutedStep.ofRecord, e.failed = false := by
  induction h with
  | nil => exact fun e he => absurd he List.not_mem_nil
  | cons hr _ ih => exact List.forall_mem_cons.2 ⟨hr.passed, ih⟩

end StepRecord

namespace Invoice

theorem executionTime_eq (m : CostModel) (h : History) : executionTime m h =
    (0 : CategorizedTime).charge (StepRecord.charges m .initial (h.executedSteps.map (·.2))) := by
  rw [CategorizedTime.charge, StepRecord.charges, List.foldl_map]
  rfl

end Invoice

/-! ## The first atom that remains -/

namespace Generator

variable {g : Generator} {t : TelescopeState} {a : Atom} {as : List Atom} {rs : List StepRecord}

/-- The first atom that remains was executed as a whole: the others remain, and it was charged what it
was handed out with. -/
theorem remaining_recorded (hend : g.plan.onward = none) (hs : g.Sound g.plan.atoms.length)
    (hn : g.progress.failedIds.Nodup) (ha : g.remaining t = a :: as)
    (hrs : List.Forall₂ StepRecord.Carries rs a.steps) :
    (g.recorded a.id (rs.map .ofRecord)).remaining (t.behind rs) = as ∧
      StepRecord.charges g.costs t rs = a.steps.map Step.charge := by
  have hreach : ∀ m, g.reach m = g.plan.atoms.length :=
    reach_finite (by simp [AtomPlan.isUnbounded, hend])
  have hfirst := take_remaining hend hs 1 t
  rw [ha, List.take_succ_cons, List.take_zero] at hfirst
  cases hadvance : g.advance (.start t) with
  | none =>
    rw [take_succ_none hadvance] at hfirst
    cases hfirst
  | some r =>
    obtain ⟨e, c⟩ := r
    rw [take_succ_some hadvance] at hfirst
    obtain ⟨us, s, v, next, hv, rfl, -⟩ := first_of_advance hadvance
    obtain rfl : (g.emission t v).atom = a := (List.cons.inj hfirst).1
    obtain ⟨hdoes, hbehind⟩ := does_of_carries_all hrs
    refine ⟨?_, ?_⟩
    · have hpassed := StepRecord.passed_of_carries hrs
      obtain ⟨g', hg'⟩ : ∃ g', g' = g.recorded v.key.id (rs.map .ofRecord) := ⟨_, rfl⟩
      have hs' : g'.Sound g'.plan.atoms.length := hg' ▸ hs.recorded hpassed
      have htake : ∀ n, (g'.remaining (t.behind rs)).take n = as.take n := by
        intro n
        have hrest := take_recorded hv (n := n) (by rw [hreach]; exact hs) hn hdoes t
        rw [← take_remaining (by rw [hg']; exact hend) hs', hbehind, hg', hrest, List.map_tail,
          take_remaining hend hs, ha, List.take_succ_cons, List.tail_cons]
      have hall := htake ((g'.remaining (t.behind rs)).length + as.length)
      rw [List.take_of_length_le (Nat.le_add_right _ _),
        List.take_of_length_le (Nat.le_add_left _ _)] at hall
      exact hg' ▸ hall
    · rw [StepRecord.charges_carries hrs]
      show _ = (g.stepsOf t v).map Step.charge
      rw [stepsOf, List.map_map]
      rfl

end Generator

/-! ## The first atoms that remain -/

/-- A science atom was recorded as a whole: its steps were executed as they were handed out, with data
that did not fail. -/
structure AtomRecord.Completes (r : AtomRecord) (a : Atom) : Prop where
  id : r.id = a.id
  sequenceType : r.sequenceType = .science
  steps : List.Forall₂ StepRecord.Carries r.steps a.steps

/-- The record of an atom all of whose steps are finished and passed. -/
def Atom.finished (a : Atom) (visit : String) : AtomRecord :=
  ⟨a.id, visit, .science, a.steps.map (·.finished .pass)⟩

theorem completes_finished (a : Atom) (visit : String) : (a.finished visit).Completes a :=
  ⟨rfl, rfl, carries_finished a.steps⟩

/-- The observation with more records. -/
def Observation.pushAll (o : Observation) (rs : List AtomRecord) : Observation :=
  { o with history := ⟨o.history.atoms ++ rs⟩ }

theorem Observation.pushAll_cons (o : Observation) (r : AtomRecord) (rs : List AtomRecord) :
    o.pushAll (r :: rs) = (o.push r).pushAll rs := by
  unfold pushAll push History.push
  rw [List.append_assoc, List.singleton_append]

theorem TelescopeState.ofHistory_eq (h : History) (scope : VisitScope) : ofHistory h scope =
    initial.behind
      ((h.executedSteps.filter fun x => History.inVisit (scope.visit h) x.1).map (·.2)) := by
  rw [behind, List.foldl_map]
  rfl

theorem TelescopeState.ofHistory_allVisits (h : History) :
    ofHistory h .allVisits = initial.behind (h.executedSteps.map (·.2)) := by
  have hfilter : h.executedSteps.filter
      (fun x => History.inVisit (VisitScope.allVisits.visit h) x.1) = h.executedSteps :=
    List.filter_eq_self.2 fun _ _ => rfl
  rw [ofHistory_eq, hfilter]

theorem Invoice.executionTime_push (m : CostModel) (h : History) (r : AtomRecord)
    (hr : r.steps.filter (·.isExecuted) = r.steps) : executionTime m (h.push r) =
      (executionTime m h).charge
        (StepRecord.charges m (.ofHistory h .allVisits) r.steps) := by
  have hsteps : (h.push r).executedSteps.map (·.2) = h.executedSteps.map (·.2) ++ r.steps := by
    simp [History.executedSteps, History.push, hr, Function.comp_def]
  rw [executionTime_eq, hsteps, StepRecord.charges_append, CategorizedTime.charge_append,
    ← TelescopeState.ofHistory_allVisits, ← executionTime_eq]

namespace Engine

/-- The science atoms that remain of an observation. -/
def remaining (e : Engine) (o : Observation) (s : Specification) : List Atom :=
  (e.generator o .science (.finite s.scienceAtoms)).remaining (telescope o .science)

variable {e : Engine} {o : Observation} {s : Specification} {calculator : Calculator}

/-- The parts of a digest that tell the time of the science sequence. -/
theorem digest_eq (hs : e.specification o calculator = .ok s) :
    ∃ d, e.digest o calculator = .ok d ∧
      d.invoice.execution = Invoice.executionTime e.costs o.history ∧
      d.execution.science = .ofAtoms (e.remaining o s) ∧ d.remaining = d.execution.remaining := by
  unfold digest
  rw [hs]
  exact ⟨_, rfl, rfl, rfl, rfl⟩

theorem remaining_push {a : Atom} {as : List Atom} {r : AtomRecord}
    (hsound : (e.generator o .science (.finite s.scienceAtoms)).Sound s.scienceAtoms.length)
    (hn : (e.generator o .science (.finite s.scienceAtoms)).progress.failedIds.Nodup)
    (ha : e.remaining o s = a :: as) (hr : r.Completes a) :
    (e.generator (o.push r) .science (.finite s.scienceAtoms)).Sound s.scienceAtoms.length ∧
      (e.generator (o.push r) .science (.finite s.scienceAtoms)).progress.failedIds.Nodup ∧
      e.remaining (o.push r) s = as ∧
      Invoice.executionTime e.costs (o.push r).history =
        (Invoice.executionTime e.costs o.history).charge (a.steps.map Step.charge) := by
  obtain ⟨id, visit, sequence, rs⟩ := r
  obtain ⟨rfl, rfl, hsteps⟩ := hr
  have hexecuted : rs.filter (·.isExecuted) = rs := executed_of_carries hsteps
  have hcounts : AtomRecord.Counts ⟨a.id, visit, .science, rs⟩ o.history (.ofSequence .science) :=
    AtomRecord.counts_allVisits _ _
  have hpassed := StepRecord.passed_of_carries hsteps
  obtain ⟨hrest, hcharges⟩ := Generator.remaining_recorded rfl hsound hn ha hsteps
  rw [remaining, generator_push hcounts hexecuted, telescope_push hcounts hexecuted]
  refine ⟨hsound.recorded hpassed, Generator.nodup_recorded hn hpassed, hrest, ?_⟩
  have htime := Invoice.executionTime_push e.costs o.history ⟨a.id, visit, .science, rs⟩ hexecuted
  exact htime.trans (congrArg _ hcharges)

/-- The first atoms that remain were executed one after another: the others remain, and the invoice
has grown by what they were handed out with. -/
theorem remaining_pushAll {rs : List AtomRecord} {k : Nat}
    (hsound : (e.generator o .science (.finite s.scienceAtoms)).Sound s.scienceAtoms.length)
    (hn : (e.generator o .science (.finite s.scienceAtoms)).progress.failedIds.Nodup)
    (hrs : List.Forall₂ AtomRecord.Completes rs ((e.remaining o s).take k)) :
    e.remaining (o.pushAll rs) s = (e.remaining o s).drop k ∧
      Invoice.executionTime e.costs (o.pushAll rs).history =
        (Invoice.executionTime e.costs o.history).charge
          ((((e.remaining o s).take k).flatMap (·.steps)).map Step.charge) := by
  induction rs generalizing o k with
  | nil =>
    rw [List.forall₂_nil_left_iff, List.take_eq_nil_iff] at hrs
    have hpush : o.pushAll [] = o := by rw [Observation.pushAll, List.append_nil]
    rw [hpush]
    rcases hrs with rfl | hnil
    · exact ⟨rfl, rfl⟩
    · rw [hnil, List.drop_nil, List.take_nil]
      exact ⟨rfl, rfl⟩
  | cons r rs ih =>
    obtain ⟨a, as, ha⟩ : ∃ a as, e.remaining o s = a :: as := by
      cases hr : e.remaining o s with
      | nil =>
        rw [hr, List.take_nil] at hrs
        cases hrs
      | cons a as => exact ⟨a, as, rfl⟩
    obtain ⟨k, rfl⟩ : ∃ n, k = n + 1 := by
      cases k with
      | zero => cases hrs
      | succ n => exact ⟨n, rfl⟩
    rw [ha, List.take_succ_cons] at hrs ⊢
    obtain ⟨hr, hrs⟩ := List.forall₂_cons.1 hrs
    obtain ⟨hsound', hn', hrest, htime⟩ := remaining_push hsound hn ha hr
    rw [← hrest] at hrs
    obtain ⟨hremaining, hexecution⟩ := ih hsound' hn' hrs
    rw [Observation.pushAll_cons, hremaining, hexecution, hrest, htime,
      ← CategorizedTime.charge_append, ← List.map_append]
    exact ⟨rfl, rfl⟩

/-- Time goes from the plan to the invoice.  When the first atoms that remain for science are executed
as a whole, in order, the execution time of each class grows by the time with which their steps of
that class were handed out, the digest of the science sequence is left with the time of the other
atoms, and the two together come to what they came to before.  When all atoms are executed, none is
left. -/
theorem digest_pushAll (e : Engine) (o : Observation) (calculator : Calculator) (s : Specification)
    (rs : List AtomRecord) (k : Nat) (hs : e.specification o calculator = .ok s)
    (hd : o.history.DistinctFailures) (hapart : AtomKey.Apart (e.atomKeys o s .science 0))
    (hrs : List.Forall₂ AtomRecord.Completes rs ((e.remaining o s).take k)) :
    ∃ d d', e.digest o calculator = .ok d ∧ e.digest (o.pushAll rs) calculator = .ok d' ∧
      ∀ c, d'.invoice.execution.get c =
          d.invoice.execution.get c + Atom.charged c ((e.remaining o s).take k) ∧
        d'.execution.science.timeEstimate.get c = Atom.charged c ((e.remaining o s).drop k) ∧
        d'.invoice.execution.get c + d'.execution.science.timeEstimate.get c =
          d.invoice.execution.get c + d.execution.science.timeEstimate.get c ∧
        ((e.remaining o s).length ≤ k →
          d'.execution.science.timeEstimate.get c = 0 ∧ d'.remaining.get c = 0) := by
  have hsound : (e.generator o .science (.finite s.scienceAtoms)).Sound s.scienceAtoms.length :=
    sound rfl hd hapart
  obtain ⟨hremaining, hexecution⟩ := remaining_pushAll hsound (nodup_failedIds hd) hrs
  have hs' : e.specification (o.pushAll rs) calculator = .ok s := hs
  obtain ⟨d, hdigest, hinvoice, hscience, -⟩ := digest_eq hs
  obtain ⟨d', hdigest', hinvoice', hscience', hleft⟩ := digest_eq hs'
  refine ⟨d, d', hdigest, hdigest', fun c => ?_⟩
  have hspent : d'.invoice.execution.get c =
      d.invoice.execution.get c + Atom.charged c ((e.remaining o s).take k) := by
    rw [hinvoice', hexecution, hinvoice, CategorizedTime.get_charge_atoms]
  have hneeded : d'.execution.science.timeEstimate.get c =
      Atom.charged c ((e.remaining o s).drop k) := by
    rw [hscience', hremaining, SequenceDigest.get_timeEstimate]
  refine ⟨hspent, hneeded, ?_, fun hall => ?_⟩
  · calc d'.invoice.execution.get c + d'.execution.science.timeEstimate.get c
        = d.invoice.execution.get c + (Atom.charged c ((e.remaining o s).take k) +
            Atom.charged c ((e.remaining o s).drop k)) := by
          rw [hspent, hneeded, TimeSpan.add_assoc]
      _ = d.invoice.execution.get c + Atom.charged c (e.remaining o s) := by
          rw [← Atom.charged_append, List.take_append_drop]
      _ = d.invoice.execution.get c + d.execution.science.timeEstimate.get c := by
          rw [hscience, SequenceDigest.get_timeEstimate]
  · have hnone : (e.remaining o s).drop k = [] := List.drop_eq_nil_of_le hall
    have hempty : d'.execution.science = .ofAtoms [] := by rw [hscience', hremaining, hnone]
    have hzero : d'.execution.science.timeEstimate.get c = 0 := by rw [hneeded, hnone]; rfl
    have hcount : d'.execution.science.atomCount = 0 := by rw [hempty]; rfl
    rw [hleft, ExecutionDigest.remaining, if_pos hcount]
    exact ⟨hzero, hzero⟩

/-- The begun atom of the short observation is done: its time has gone to the invoice. -/
theorem digest_pushAll_resumed :
    ∃ d d', (default : Engine).digest (Short.observation Short.failed) Short.calculator = .ok d ∧
      (default : Engine).digest ((Short.observation Short.failed).pushAll
        [Short.resumed.finished "v"]) Short.calculator = .ok d' ∧
      d'.invoice.execution.get .program =
        d.invoice.execution.get .program + Atom.charged .program [Short.resumed] ∧
      d'.execution.science.timeEstimate.get .program = 0 := by
  have hremaining : (default : Engine).remaining (Short.observation Short.failed)
      Short.specification = [Short.resumed] := by decide +kernel
  obtain ⟨d, d', hd, hd', htimes⟩ := digest_pushAll default (Short.observation Short.failed)
    Short.calculator Short.specification [Short.resumed.finished "v"] 1
    (by decide +kernel) (by decide +kernel) (by decide +kernel)
    (by rw [hremaining]; exact .cons (completes_finished Short.resumed "v") .nil)
  obtain ⟨hspent, -, -, hall⟩ := htimes .program
  rw [hremaining] at hspent hall
  exact ⟨d, d', hd, hd', hspent, (hall (Nat.le_refl 1)).1⟩

end Engine
end Observing
