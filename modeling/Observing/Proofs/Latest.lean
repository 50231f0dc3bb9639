import Mathlib.Data.List.DropRight
import Observing.Proofs.Deficit

/-!
# Which failed steps are repeated

The executed steps of one configuration decide which of them are to be repeated, however those of
other configurations come between.  As long as planned steps of the configuration are unmet, a failed
step joins the queue; after that each executed step takes the first one off, and joins at the end if it
failed in turn.  So the queue holds the latest failed steps: as many as failed while planned steps were
met, less the later ones whose data did not fail.

* `ExecutedStep.outstanding`, `ExecutedStep.latest`   how many failed steps are left, and which;
* `latest_concat_of_lt`, `latest_concat`     what one more executed step changes;
* `Redo.Repeats`           a repetition and the failed step it repeats;
* `Tally.Standing`         what a tally holds, told from the executed steps;
* `Standing.take`          an executed step keeps it so;
* `Progress.resolve_latest`   what a recorded atom needs, step by step.
-/

namespace Observing

namespace ExecutedStep

/-- The executed steps of a configuration. -/
def ofConfiguration (c : Configuration) (es : List ExecutedStep) : List ExecutedStep :=
  es.filter fun e => e.configuration = c

/-- The number of failed steps that are left to be repeated: those among the first `n`, less the
accepted ones behind these. -/
def outstanding (n : Nat) (es : List ExecutedStep) : Nat :=
  (es.take n).countP (·.failed) - (es.drop n).countP fun e => !e.failed

/-- The latest failed steps, as many as are left to be repeated. -/
def latest (n : Nat) (es : List ExecutedStep) : List ExecutedStep :=
  (es.filter (·.failed)).rtake (outstanding n es)

variable {n : Nat} {es : List ExecutedStep} {e : ExecutedStep} {c : Configuration}

theorem length_ofConfiguration (c : Configuration) (es : List ExecutedStep) :
    (ofConfiguration c es).length = executedIn c es :=
  List.countP_eq_length_filter.symm

theorem ofConfiguration_append (c : Configuration) (es fs : List ExecutedStep) :
    ofConfiguration c (es ++ fs) = ofConfiguration c es ++ ofConfiguration c fs :=
  List.filter_append ..

theorem ofConfiguration_self (e : ExecutedStep) : ofConfiguration e.configuration [e] = [e] :=
  List.filter_cons_of_pos (by simp)

theorem ofConfiguration_of_ne (h : e.configuration ≠ c) : ofConfiguration c [e] = [] :=
  List.filter_cons_of_neg (by simpa using h)

theorem ofConfiguration_failed (c : Configuration) (es : List ExecutedStep) :
    ofConfiguration c (es.filter (·.failed)) = (ofConfiguration c es).filter (·.failed) :=
  List.filter_comm ..

/-! ## One more executed step -/

theorem outstanding_le (n : Nat) (es : List ExecutedStep) :
    outstanding n es ≤ (es.filter (·.failed)).length := by
  have htake := (List.take_sublist n es).countP_le (p := (·.failed))
  rw [List.countP_eq_length_filter (l := es)] at htake
  exact (Nat.sub_le _ _).trans htake

theorem latest_eq_nil_iff : latest n es = [] ↔ outstanding n es = 0 := by
  have hle := outstanding_le n es
  rw [latest, List.rtake, List.drop_eq_nil_iff]
  omega

/-- While planned steps are met, a failed step joins. -/
theorem latest_concat_of_lt (h : es.length < n) :
    latest n (es ++ [e]) = latest n es ++ [e].filter (·.failed) := by
  have hall : (es ++ [e]).length ≤ n := by
    rw [List.length_append, List.length_singleton]
    exact h
  have hcount : outstanding n (es ++ [e]) = outstanding n es + [e].countP (·.failed) := by
    rw [outstanding, outstanding, List.take_of_length_le hall, List.drop_of_length_le hall,
      List.take_of_length_le h.le, List.drop_of_length_le h.le, List.countP_append]
    rfl
  rw [latest, hcount, List.filter_append]
  by_cases hf : e.failed = true
  · have hone : [e].filter (·.failed) = [e] := List.filter_cons_of_pos hf
    rw [hone, List.countP_cons_of_pos hf, List.countP_nil, List.rtake_concat_succ]
    rfl
  · have hnone : [e].filter (·.failed) = [] := List.filter_cons_of_neg hf
    rw [hnone, List.countP_cons_of_neg hf, List.countP_nil, List.append_nil, List.append_nil]
    rfl

theorem outstanding_concat (h : n ≤ es.length) :
    outstanding n (es ++ [e]) = outstanding n es - [e].countP fun e => !e.failed := by
  rw [outstanding, outstanding, List.take_append_of_le_length h, List.drop_append_of_le_length h,
    List.countP_append, Nat.sub_sub]

/-- Afterwards an executed step takes the first one off, and joins if it failed. -/
theorem latest_concat (h : n ≤ es.length) (hne : latest n es ≠ []) :
    latest n (es ++ [e]) = (latest n es).tail ++ [e].filter (·.failed) := by
  have hle := outstanding_le n es
  obtain ⟨k, hk⟩ : ∃ k, outstanding n es = k + 1 :=
    Nat.exists_eq_succ_of_ne_zero fun hzero => hne (latest_eq_nil_iff.2 hzero)
  have htail : (latest n es).tail = (es.filter (·.failed)).rtake k := by
    rw [latest, List.rtake, List.rtake, List.tail_drop, hk]
    congr 1
    omega
  rw [htail, latest, outstanding_concat h, hk, List.filter_append]
  by_cases hf : e.failed = true
  · have hone : [e].filter (·.failed) = [e] := List.filter_cons_of_pos hf
    rw [hone, List.countP_cons_of_neg (by simpa using hf), List.countP_nil, Nat.sub_zero,
      List.rtake_concat_succ]
  · have hnone : [e].filter (·.failed) = [] := List.filter_cons_of_neg hf
    rw [hnone, List.countP_cons_of_pos (by simpa using hf), List.countP_nil, List.append_nil,
      List.append_nil]
    rfl

/-- Where none is left, none is ever again. -/
theorem latest_concat_of_eq_nil (h : n ≤ es.length) (hnil : latest n es = []) :
    latest n (es ++ [e]) = [] := by
  rw [latest_eq_nil_iff] at hnil ⊢
  rw [outstanding_concat h, hnil, Nat.zero_sub]

end ExecutedStep

/-! ## Repetitions and the steps they repeat -/

/-- A repetition of a failed executed step: that of a planned step of its configuration. -/
structure Redo.Repeats (planned : List ProtoStep) (q : Redo) (e : ExecutedStep) : Prop where
  failedStep : q.failedStep = e.id
  failed : e.failed = true
  planned : q.step ∈ planned
  configuration : q.step.configuration = e.configuration

theorem forall₂_eraseP {α β : Type} {R : α → β → Prop} {p : α → Bool} {q : β → Bool}
    (hpq : ∀ a b, R a b → p a = q b) {l : List α} {m : List β} (h : List.Forall₂ R l m) :
    List.Forall₂ R (l.eraseP p) (m.eraseP q) := by
  induction h with
  | nil => exact .nil
  | @cons a b l m hab hlm ih =>
    by_cases ha : p a = true
    · rw [List.eraseP_cons_of_pos ha, List.eraseP_cons_of_pos (hpq a b hab ▸ ha)]
      exact hlm
    · rw [List.eraseP_cons_of_neg ha, List.eraseP_cons_of_neg (hpq a b hab ▸ ha)]
      exact .cons hab ih

namespace Tally

open ExecutedStep

variable {planned : List ProtoStep} {es steps : List ExecutedStep} {t : Tally} {e : ExecutedStep}
  {c : Configuration}

theorem repeats_again {p : ProtoStep} (hp : p ∈ planned) (he : p.configuration = e.configuration) :
    List.Forall₂ (Redo.Repeats planned) (again e p) ([e].filter (·.failed)) := by
  unfold again
  by_cases hf : e.failed = true
  · rw [if_pos hf, List.filter_cons_of_pos hf]
    exact .cons ⟨rfl, hf, hp, he⟩ .nil
  · rw [if_neg hf, List.filter_cons_of_neg hf]
    exact .nil

/-! ## Planned steps that are not met -/

/-- The planned steps of a configuration that are not met. -/
def unmetIn (c : Configuration) (t : Tally) : List (Nat × ProtoStep) :=
  t.unmet.filter fun u => u.2.configuration = c

theorem unmetIn_eq_nil_iff : t.unmetIn c = [] ↔ ∀ u ∈ t.unmet, u.2.configuration ≠ c := by
  rw [unmetIn, List.filter_eq_nil_iff]
  simp only [decide_eq_true_eq]

theorem length_unmetIn_start (planned : List ProtoStep) (c : Configuration) :
    ((start planned).unmetIn c).length = plannedIn c planned := by
  have hcount : ((start planned).unmetIn c).length =
      plannedIn c ((start planned).unmet.map (·.2)) := by
    rw [unmetIn, ← List.countP_eq_length_filter, plannedIn, List.countP_map]
    rfl
  rw [hcount, map_snd_unmet_start]

/-- An executed step meets the first planned one of its configuration. -/
theorem unmetIn_take (t : Tally) (e : ExecutedStep) :
    (t.take e).unmetIn e.configuration = (t.unmetIn e.configuration).tail := by
  rcases take_eraseP_cases t e with ⟨u, -, -, ht⟩ | ⟨q, -, -, hunmet, ht⟩ | ⟨hunmet, -, ht⟩
  · rw [ht]
    exact filter_eraseP _ _
  · rw [← unmetIn_eq_nil_iff] at hunmet
    rw [ht, hunmet]
    exact hunmet
  · rw [← unmetIn_eq_nil_iff] at hunmet
    rw [ht, hunmet, List.tail_nil]

theorem unmetIn_take_of_ne (t : Tally) (h : e.configuration ≠ c) :
    (t.take e).unmetIn c = t.unmetIn c := by
  rcases take_eraseP_cases t e with ⟨u, -, -, ht⟩ | ⟨q, -, -, -, ht⟩ | ⟨-, -, ht⟩
  · rw [ht]
    refine filter_eraseP_of_disjoint (fun u hu => decide_eq_false fun hc => h ?_) _
    exact (of_decide_eq_true hu).symm.trans hc
  · rw [ht]
    rfl
  · rw [ht]

/-! ## What a tally holds -/

/-- What a tally holds after executed steps were counted.  In each configuration the first planned steps
are met.  The steps to be repeated are in recording order, and in each configuration they are the
latest failed ones. -/
structure Standing (planned : List ProtoStep) (es : List ExecutedStep) (t : Tally)
    (steps : List ExecutedStep) : Prop where
  mem : ∀ u ∈ t.unmet, u.2 ∈ planned
  unmet : ∀ c, t.unmetIn c = ((start planned).unmetIn c).drop (executedIn c es)
  sublist : steps.Sublist es
  repeats : List.Forall₂ (Redo.Repeats planned) t.redo steps
  latest : ∀ c, ofConfiguration c steps = latest (plannedIn c planned) (ofConfiguration c es)

namespace Standing

theorem start (planned : List ProtoStep) : Standing planned [] (start planned) [] where
  mem _ hu := map_snd_unmet_start planned ▸ List.mem_map_of_mem hu
  unmet _ := rfl
  sublist := List.Sublist.refl _
  repeats := .nil
  latest _ := (List.rtake_nil _).symm

/-- No planned step of a configuration is unmet once as many steps were executed in it. -/
theorem plannedIn_le_iff (h : Standing planned es t steps) (c : Configuration) :
    plannedIn c planned ≤ (ofConfiguration c es).length ↔
      ∀ u ∈ t.unmet, u.2.configuration ≠ c := by
  rw [← unmetIn_eq_nil_iff, h.unmet, List.drop_eq_nil_iff, length_unmetIn_start,
    length_ofConfiguration]

/-- The repetitions of a configuration and the failed steps they repeat. -/
theorem repeatsIn (h : Standing planned es t steps) (c : Configuration) :
    List.Forall₂ (Redo.Repeats planned) (t.redo.filter fun q => q.step.configuration = c)
      (ofConfiguration c steps) := by
  refine List.rel_filter ?_ h.repeats
  intro q e hqe
  show decide _ = true ↔ decide _ = true
  rw [hqe.configuration]

theorem ofConfiguration_eq_nil_iff (h : Standing planned es t steps) (c : Configuration) :
    ofConfiguration c steps = [] ↔ ∀ q ∈ t.redo, q.step.configuration ≠ c := by
  have hlength := (h.repeatsIn c).length_eq
  rw [← List.length_eq_zero_iff, ← hlength, List.length_eq_zero_iff, List.filter_eq_nil_iff]
  simp only [decide_eq_true_eq]

/-- Only the configuration of the executed step is to be looked at. -/
theorem concat (h : Standing planned es t steps) {steps' : List ExecutedStep}
    (hsub : steps'.Sublist (es ++ [e]))
    (hrepeats : List.Forall₂ (Redo.Repeats planned) (t.take e).redo steps')
    (hself : ofConfiguration e.configuration steps' =
      ExecutedStep.latest (plannedIn e.configuration planned)
        (ofConfiguration e.configuration es ++ [e]))
    (hother : ∀ c, e.configuration ≠ c → ofConfiguration c steps' = ofConfiguration c steps) :
    Standing planned (es ++ [e]) (t.take e) steps' where
  mem u hu := h.mem u ((unmet_take_sublist t e).subset hu)
  unmet c := by
    rw [executedIn_append]
    by_cases hc : e.configuration = c
    · subst hc
      have hone : executedIn e.configuration [e] = 1 := by simp [executedIn]
      rw [unmetIn_take, h.unmet, List.tail_drop, hone]
    · rw [unmetIn_take_of_ne t hc, h.unmet, executedIn_of_ne hc, Nat.add_zero]
  sublist := hsub
  repeats := hrepeats
  latest c := by
    by_cases hc : e.configuration = c
    · subst hc
      rw [hself, ofConfiguration_append, ofConfiguration_self]
    · rw [hother c hc, h.latest, ofConfiguration_append, ofConfiguration_of_ne hc, List.append_nil]

/-- One more executed step: what a tally holds is told in the same way. -/
theorem take (h : Standing planned es t steps) (e : ExecutedStep) :
    ∃ steps', Standing planned (es ++ [e]) (t.take e) steps' := by
  rcases take_eraseP_cases t e with ⟨u, hu, hc, ht⟩ | ⟨q, hq, hc, hunmet, ht⟩ | ⟨hunmet, hredo, ht⟩
  · -- a planned step is met: a failed one joins
    have hlt : (ofConfiguration e.configuration es).length < plannedIn e.configuration planned :=
      Nat.lt_of_not_le fun hle => (h.plannedIn_le_iff e.configuration).1 hle u hu hc
    refine ⟨steps ++ [e].filter (·.failed), h.concat ?_ ?_ ?_ ?_⟩
    · exact h.sublist.append List.filter_sublist
    · rw [ht]
      exact List.rel_append h.repeats (repeats_again (h.mem u hu) hc)
    · rw [ofConfiguration_append, ofConfiguration_failed, ofConfiguration_self, h.latest,
        latest_concat_of_lt hlt]
    · intro c hne
      rw [ofConfiguration_append, ofConfiguration_failed, ofConfiguration_of_ne hne, List.filter_nil,
        List.append_nil]
  · -- a failed step is repeated: it is taken off, and a failed repetition joins
    have hge := (h.plannedIn_le_iff e.configuration).2 hunmet
    have hne : ofConfiguration e.configuration steps ≠ [] := fun hnil =>
      (h.ofConfiguration_eq_nil_iff e.configuration).1 hnil q hq hc
    have hstep : q.step ∈ planned :=
      ((List.forall₂_and_left _ _).1 (h.repeats.imp fun _ _ hqe => ⟨hqe.planned, hqe⟩)).1 q hq
    let front : ExecutedStep → Bool := fun x => x.configuration = e.configuration
    refine ⟨steps.eraseP front ++ [e].filter (·.failed), h.concat ?_ ?_ ?_ ?_⟩
    · exact (List.eraseP_sublist.trans h.sublist).append List.filter_sublist
    · rw [ht]
      refine List.rel_append (forall₂_eraseP ?_ h.repeats) (repeats_again hstep hc)
      intro r x hrx
      simp only [hrx.configuration, front]
    · have htail : ofConfiguration e.configuration (steps.eraseP front) =
          (ofConfiguration e.configuration steps).tail := filter_eraseP front steps
      rw [h.latest] at hne
      rw [ofConfiguration_append, ofConfiguration_failed, ofConfiguration_self, htail, h.latest,
        latest_concat hge hne]
    · intro c hce
      have hsame : ofConfiguration c (steps.eraseP front) = ofConfiguration c steps := by
        refine filter_eraseP_of_disjoint (fun x hx => decide_eq_false fun hxc => hce ?_) steps
        exact (of_decide_eq_true hx).symm.trans hxc
      rw [ofConfiguration_append, ofConfiguration_failed, ofConfiguration_of_ne hce, List.filter_nil,
        List.append_nil, hsame]
  · -- the step is left aside
    have hge := (h.plannedIn_le_iff e.configuration).2 hunmet
    have hnil := (h.ofConfiguration_eq_nil_iff e.configuration).2 hredo
    refine ⟨steps, h.concat ?_ ?_ ?_ fun _ _ => rfl⟩
    · exact h.sublist.trans (List.sublist_append_left es [e])
    · rw [ht]
      exact h.repeats
    · rw [hnil, latest_concat_of_eq_nil hge (h.latest e.configuration ▸ hnil)]

/-- All executed steps. -/
theorem takeAll (planned : List ProtoStep) (es : List ExecutedStep) :
    ∃ steps, Standing planned es ((Tally.start planned).takeAll es) steps := by
  induction es using List.reverseRecOn with
  | nil => exact ⟨[], start planned⟩
  | append_singleton es e ih =>
    obtain ⟨steps, h⟩ := ih
    rw [takeAll_append]
    exact h.take e

end Standing

end Tally

namespace Progress

open ExecutedStep

/-- What a recorded atom needs, step by step.  In each configuration the repetitions are those of the
latest failed steps: as many as failed among the first executed ones, up to the number of planned
steps, less the later ones whose data did not fail.  Over all configurations they are in recording
order, and each is that of a planned step of its configuration.  The planned steps that are left are the
last ones of each configuration, in plan order. -/
theorem resolve_latest (p : Progress) (id : AtomId) (planned : List ProtoStep)
    (executed : List ExecutedStep) (h : p.executed? id = some executed) :
    (∀ c, ((p.resolve id planned).repeats.filter fun q => q.step.configuration = c).map
        (·.failedStep) =
      (((ofConfiguration c executed).filter (·.failed)).rtake
        (outstanding (plannedIn c planned) (ofConfiguration c executed))).map (·.id)) ∧
    (∃ steps : List ExecutedStep, steps.Sublist executed ∧
      List.Forall₂ (Redo.Repeats planned) (p.resolve id planned).repeats steps ∧
      ∀ c, ofConfiguration c steps =
        ((ofConfiguration c executed).filter (·.failed)).rtake
          (outstanding (plannedIn c planned) (ofConfiguration c executed))) ∧
    (∀ c, (p.resolve id planned).indices.filter
        (fun i => (planned[i]?).map (·.configuration) = some c) =
      ((List.range planned.length).filter
        fun i => (planned[i]?).map (·.configuration) = some c).drop (executedIn c executed)) ∧
    (p.resolve id planned).indices.Pairwise (· < ·) := by
  obtain ⟨steps, hsteps⟩ := Tally.Standing.takeAll planned executed
  rw [resolve_of_executed? h planned, Tally.indices_resolution, Tally.repeats_resolution]
  have hsub := Tally.unmet_takeAll_sublist (Tally.start planned) executed
  have hall : (Tally.start planned).unmet.map (·.1) = List.range planned.length := by
    rw [Tally.map_fst_unmet_start, List.range_eq_range']
  refine ⟨fun c => ?_, ⟨steps, hsteps.sublist, hsteps.repeats, hsteps.latest⟩, fun c => ?_, ?_⟩
  · have hids := hsteps.repeatsIn c
    rw [hsteps.latest c] at hids
    rw [← List.forall₂_eq_eq_eq, List.forall₂_map_left_iff, List.forall₂_map_right_iff]
    exact hids.imp fun _ _ hqe => hqe.failedStep
  · rw [Tally.filter_indices hsub, ← hall, Tally.filter_indices (List.Sublist.refl _)]
    exact (congrArg (List.map (·.1)) (hsteps.unmet c)).trans List.map_drop
  · refine List.Pairwise.sublist (hsub.map _) ?_
    rw [hall]
    exact List.pairwise_lt_range

end Progress

namespace Generator

/-- Two equal steps and two others. -/
def sampleTwoPairs : List ProtoStep := [sampleStep 0, sampleStep 0, sampleStep 15, sampleStep 15]

/-- Of two equal steps both failed, and one of them was repeated.  Between them one of the others
failed. -/
def sampleFailures : List ExecutedStep :=
  [sampleExecuted 0 (sampleStep 0) .fail, sampleExecuted 2 (sampleStep 15) .fail,
    sampleExecuted 1 (sampleStep 0) .fail, sampleExecuted 3 (sampleStep 0) .pass]

end Generator

open Generator in
/-- The later of the two equal steps is to be repeated, behind the other one, and the last step is still
to be executed. -/
theorem Progress.resolve_latest_sample :
    (sampleProgress sampleFailures).executed? sampleAtom = some sampleFailures ∧
    (((sampleProgress sampleFailures).resolve sampleAtom sampleTwoPairs).repeats.filter
        fun q => q.step.configuration = (sampleStep 0).configuration).map (·.failedStep) =
      [(StepKey.planned sampleAtom 1).id] ∧
    (∃ steps : List ExecutedStep, steps.Sublist sampleFailures ∧
      List.Forall₂ (Redo.Repeats sampleTwoPairs)
        ((sampleProgress sampleFailures).resolve sampleAtom sampleTwoPairs).repeats steps) ∧
    ((sampleProgress sampleFailures).resolve sampleAtom sampleTwoPairs).repeats.map (·.failedStep) =
      [(StepKey.planned sampleAtom 2).id, (StepKey.planned sampleAtom 1).id] ∧
    ((sampleProgress sampleFailures).resolve sampleAtom sampleTwoPairs).indices = [3] := by
  have hexecuted : (sampleProgress sampleFailures).executed? sampleAtom = some sampleFailures := by
    simp [sampleProgress, Progress.executed?]
  obtain ⟨hlatest, ⟨steps, hsub, hrepeats, -⟩, -⟩ := Progress.resolve_latest
    (sampleProgress sampleFailures) sampleAtom sampleTwoPairs sampleFailures hexecuted
  refine ⟨hexecuted, (hlatest _).trans ?_, ⟨steps, hsub, hrepeats⟩, ?_, ?_⟩ <;> decide +kernel

end Observing
