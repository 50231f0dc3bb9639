import Mathlib.Data.List.Basic
import Mathlib.Data.List.Infix
import Observing.Progress

/-!
# Counting executed steps

How a `Tally` moves when executed steps are counted.

* `take_cases`          what one executed step does: it meets a planned step, it makes up for a failed
                        one, or it is left aside;
* `take_eraseP_cases`   which entry it takes away;
* `unmet_takeAll_sublist`, `redo_takeAll_sublist`   planned steps stay in plan order, failed ones in
                        recording order;
* `length_takeAll_le`   nothing is ever added to what is to be done;
* `resolution_cases`    how an atom stands when they are counted;
* `takeAll_unmet`, `takeAll_redo`   steps executed in the order in which they are handed out are
                        counted one for one.
-/

namespace Observing

/-! ## Configurations -/

/-- What a recorded step and a planned one are compared by. -/
structure Configuration where
  instrument : InstrumentConfig
  step : StepConfig
  observeClass : ObserveClass
deriving DecidableEq

/-- The configuration of a planned step. -/
def ProtoStep.configuration (p : ProtoStep) : Configuration :=
  ⟨p.instrumentConfig, p.stepConfig, p.observeClass⟩

namespace ExecutedStep

/-- The configuration of an executed step. -/
def configuration (e : ExecutedStep) : Configuration :=
  ⟨e.instrumentConfig, e.stepConfig, e.observeClass⟩

theorem executes_iff {e : ExecutedStep} {p : ProtoStep} :
    e.executes p = true ↔ p.configuration = e.configuration := by
  show decide (p.Matches e.instrumentConfig e.stepConfig e.observeClass) = true ↔ _
  rw [decide_eq_true_eq]
  simp only [ProtoStep.Matches, ProtoStep.configuration, configuration, Configuration.mk.injEq]
  constructor
  · rintro ⟨h₁, h₂, h₃⟩
    exact ⟨h₃, h₂, h₁⟩
  · rintro ⟨h₁, h₂, h₃⟩
    exact ⟨h₃, h₂, h₁⟩

end ExecutedStep

namespace Tally

/-! ## One executed step -/

theorem eraseP_append_cons {α : Type} {p : α → Bool} {a : α} {l r : List α}
    (hl : ∀ b ∈ l, (!p b) = true) (ha : p a = true) : (l ++ a :: r).eraseP p = l ++ r := by
  rw [List.eraseP_append_right _ (by simpa using hl), List.eraseP_cons_of_pos ha]

/-- An executed step meets the first unmet step of its configuration, or else makes up for the first
failed one, or else is left aside. -/
theorem take_cases (t : Tally) (e : ExecutedStep) :
    (∃ l i p r, t.unmet = l ++ (i, p) :: r ∧ e.executes p = true ∧
      t.take e = ⟨l ++ r, t.redo ++ again e p⟩) ∨
    (∃ l q r, (∀ u ∈ t.unmet, e.executes u.2 = false) ∧ t.redo = l ++ q :: r ∧
      e.executes q.step = true ∧ t.take e = ⟨t.unmet, l ++ r ++ again e q.step⟩) ∨
    ((∀ u ∈ t.unmet, e.executes u.2 = false) ∧ (∀ q ∈ t.redo, e.executes q.step = false) ∧
      t.take e = t) := by
  unfold take
  cases hu : t.unmet.find? (fun u => e.executes u.2) with
  | some u =>
    obtain ⟨i, p⟩ := u
    obtain ⟨hp, l, r, hl, hne⟩ := List.find?_eq_some_iff_append.1 hu
    refine .inl ⟨l, i, p, r, hl, hp, ?_⟩
    have herase : t.unmet.eraseP (fun u => e.executes u.2) = l ++ r := by
      rw [hl]
      exact eraseP_append_cons hne hp
    simp only [herase]
  | none =>
    have hnone : ∀ u ∈ t.unmet, e.executes u.2 = false := by simpa using hu
    cases hr : t.redo.find? (fun q => e.executes q.step) with
    | some q =>
      obtain ⟨hq, l, r, hl, hne⟩ := List.find?_eq_some_iff_append.1 hr
      refine .inr (.inl ⟨l, q, r, hnone, hl, hq, ?_⟩)
      have herase : t.redo.eraseP (fun q => e.executes q.step) = l ++ r := by
        rw [hl]
        exact eraseP_append_cons hne hq
      simp only [herase]
    | none => exact .inr (.inr ⟨hnone, by simpa using hr, rfl⟩)

/-- Which entry an executed step takes away, told by its configuration. -/
theorem take_eraseP_cases (t : Tally) (e : ExecutedStep) :
    (∃ u ∈ t.unmet, u.2.configuration = e.configuration ∧ t.take e =
      ⟨t.unmet.eraseP fun u => u.2.configuration = e.configuration, t.redo ++ again e u.2⟩) ∨
    (∃ q ∈ t.redo, q.step.configuration = e.configuration ∧
      (∀ u ∈ t.unmet, u.2.configuration ≠ e.configuration) ∧ t.take e =
        ⟨t.unmet, (t.redo.eraseP fun q => q.step.configuration = e.configuration) ++
          again e q.step⟩) ∨
    ((∀ u ∈ t.unmet, u.2.configuration ≠ e.configuration) ∧
      (∀ q ∈ t.redo, q.step.configuration ≠ e.configuration) ∧ t.take e = t) := by
  have hplanned : (fun u : Nat × ProtoStep => e.executes u.2) =
      fun u => decide (u.2.configuration = e.configuration) := by
    funext u
    rw [Bool.eq_iff_iff, ExecutedStep.executes_iff, decide_eq_true_eq]
  have hrepeats : (fun q : Redo => e.executes q.step) =
      fun q => decide (q.step.configuration = e.configuration) := by
    funext q
    rw [Bool.eq_iff_iff, ExecutedStep.executes_iff, decide_eq_true_eq]
  rw [take, hplanned, hrepeats]
  cases hu : t.unmet.find? (fun u => u.2.configuration = e.configuration) with
  | some u =>
    have hc : u.2.configuration = e.configuration := by simpa using List.find?_some hu
    exact .inl ⟨u, List.mem_of_find?_eq_some hu, hc, rfl⟩
  | none =>
    have hunmet : ∀ u ∈ t.unmet, u.2.configuration ≠ e.configuration := by simpa using hu
    cases hq : t.redo.find? (fun q => q.step.configuration = e.configuration) with
    | some q =>
      have hc : q.step.configuration = e.configuration := by simpa using List.find?_some hq
      exact .inr (.inl ⟨q, List.mem_of_find?_eq_some hq, hc, hunmet, rfl⟩)
    | none => exact .inr (.inr ⟨hunmet, by simpa using hq, rfl⟩)

theorem filter_eraseP {α : Type} (p : α → Bool) (l : List α) :
    (l.eraseP p).filter p = (l.filter p).tail := by
  induction l with
  | nil => rfl
  | cons a l ih =>
    by_cases ha : p a = true
    · rw [List.eraseP_cons_of_pos ha, List.filter_cons_of_pos ha, List.tail_cons]
    · rw [List.eraseP_cons_of_neg ha, List.filter_cons_of_neg ha, List.filter_cons_of_neg ha, ih]

theorem filter_eraseP_of_disjoint {α : Type} {p q : α → Bool} (h : ∀ a, p a = true → q a = false)
    (l : List α) : (l.eraseP p).filter q = l.filter q := by
  induction l with
  | nil => rfl
  | cons a l ih =>
    by_cases ha : p a = true
    · rw [List.eraseP_cons_of_pos ha, List.filter_cons_of_neg (by simp [h a ha])]
    · rw [List.eraseP_cons_of_neg ha, List.filter_cons, List.filter_cons, ih]

theorem takeAll_nil (t : Tally) : t.takeAll [] = t := rfl

theorem takeAll_cons (t : Tally) (e : ExecutedStep) (es : List ExecutedStep) :
    t.takeAll (e :: es) = (t.take e).takeAll es := rfl

theorem length_again_le (e : ExecutedStep) (p : ProtoStep) : (again e p).length ≤ 1 := by
  unfold again
  split <;> simp

/-! ## What stays to be done -/

theorem unmet_take_sublist (t : Tally) (e : ExecutedStep) :
    (t.take e).unmet.Sublist t.unmet := by
  rcases take_cases t e with ⟨l, i, p, r, hl, -, ht⟩ | ⟨l, q, r, -, -, -, ht⟩ | ⟨-, -, ht⟩
  · rw [ht, hl]
    exact List.Sublist.append_left (List.sublist_cons_self _ _) l
  · rw [ht]
  · rw [ht]

theorem unmet_takeAll_sublist (t : Tally) (es : List ExecutedStep) :
    (t.takeAll es).unmet.Sublist t.unmet := by
  induction es generalizing t with
  | nil => exact List.Sublist.refl _
  | cons e es ih => exact (ih (t.take e)).trans (unmet_take_sublist t e)

theorem length_take_le (t : Tally) (e : ExecutedStep) :
    (t.take e).unmet.length + (t.take e).redo.length ≤ t.unmet.length + t.redo.length := by
  rcases take_cases t e with ⟨l, i, p, r, hl, -, ht⟩ | ⟨l, q, r, -, hl, -, ht⟩ | ⟨-, -, ht⟩
  · have h := length_again_le e p
    rw [ht, hl]
    simp only [List.length_append, List.length_cons]
    omega
  · have h := length_again_le e q.step
    rw [ht, hl]
    simp only [List.length_append, List.length_cons]
    omega
  · rw [ht]

/-- No executed step adds to what is to be done. -/
theorem length_takeAll_le (t : Tally) (es : List ExecutedStep) :
    (t.takeAll es).unmet.length + (t.takeAll es).redo.length ≤ t.unmet.length + t.redo.length := by
  induction es generalizing t with
  | nil => exact Nat.le_refl _
  | cons e es ih => exact (ih (t.take e)).trans (length_take_le t e)

theorem map_failedStep_again (e : ExecutedStep) (p : ProtoStep) :
    (again e p).map (·.failedStep) = ([e].filter (·.failed)).map (·.id) := by
  unfold again
  by_cases h : e.failed = true <;> simp [h]

theorem redo_take_sublist (t : Tally) (e : ExecutedStep) :
    ((t.take e).redo.map (·.failedStep)).Sublist
      (t.redo.map (·.failedStep) ++ ([e].filter (·.failed)).map (·.id)) := by
  rcases take_cases t e with ⟨l, i, p, r, -, -, ht⟩ | ⟨l, q, r, -, hl, -, ht⟩ | ⟨-, -, ht⟩
  · rw [ht, List.map_append, map_failedStep_again]
  · rw [ht, hl, List.map_append, map_failedStep_again]
    refine List.Sublist.append_right (List.Sublist.map _ ?_) _
    exact List.Sublist.append_left (List.sublist_cons_self _ _) l
  · rw [ht]
    exact List.sublist_append_left _ _

/-- The steps to be repeated are failed executed steps, in recording order. -/
theorem redo_takeAll_sublist (t : Tally) (es : List ExecutedStep) :
    ((t.takeAll es).redo.map (·.failedStep)).Sublist
      (t.redo.map (·.failedStep) ++ (es.filter (·.failed)).map (·.id)) := by
  induction es generalizing t with
  | nil => simp [takeAll]
  | cons e es ih =>
    have hsplit : (e :: es).filter (·.failed) = [e].filter (·.failed) ++ es.filter (·.failed) := by
      rw [← List.filter_append, List.singleton_append]
    rw [takeAll_cons, hsplit, List.map_append, ← List.append_assoc]
    exact (ih (t.take e)).trans (List.Sublist.append_right (redo_take_sublist t e) _)

theorem length_redo_start_le (planned : List ProtoStep) (es : List ExecutedStep) :
    ((start planned).takeAll es).redo.length ≤ es.length := by
  have h := (redo_takeAll_sublist (start planned) es).length_le
  have hf := List.length_filter_le (fun e : ExecutedStep => e.failed) es
  simp only [start, List.map_nil, List.nil_append, List.length_map] at h
  exact h.trans hf

theorem length_start (planned : List ProtoStep) :
    (start planned).unmet.length + (start planned).redo.length = planned.length := by
  simp [start]

theorem map_fst_unmet_start (planned : List ProtoStep) :
    (start planned).unmet.map (·.1) = List.range' 0 planned.length := by
  rw [← List.zipIdx_map_snd 0 planned, start, List.map_map]
  rfl

theorem map_snd_unmet_start (planned : List ProtoStep) :
    (start planned).unmet.map (·.2) = planned := by
  simp [start, Function.comp_def]

/-! ## Where repetitions come from -/

theorem mem_redo_take {t : Tally} {e : ExecutedStep} {q : Redo} (hq : q ∈ (t.take e).redo) :
    q ∈ t.redo ∨
      (e.failed = true ∧ e.id = q.failedStep ∧ e.executes q.step = true ∧
        (q.step ∈ t.unmet.map (·.2) ∨ q.step ∈ t.redo.map (·.step))) := by
  have hagain : ∀ {p : ProtoStep}, q ∈ again e p → e.failed = true ∧ q = ⟨e.id, p⟩ := by
    intro p h
    unfold again at h
    split at h
    · exact ⟨‹_›, List.mem_singleton.1 h⟩
    · cases h
  rcases take_cases t e with ⟨l, i, p, r, hl, hp, ht⟩ | ⟨l, k, r, -, hl, hk, ht⟩ | ⟨-, -, ht⟩
  · rw [ht, List.mem_append] at hq
    rcases hq with h | h
    · exact .inl h
    · obtain ⟨hf, rfl⟩ := hagain h
      refine .inr ⟨hf, rfl, hp, .inl ?_⟩
      rw [hl]
      simp
  · rw [ht, List.mem_append] at hq
    rcases hq with h | h
    · rw [hl]
      refine .inl ?_
      rcases List.mem_append.1 h with h | h <;> simp [h]
    · obtain ⟨hf, rfl⟩ := hagain h
      refine .inr ⟨hf, rfl, hk, .inr ?_⟩
      rw [hl]
      simp
  · rw [ht] at hq
    exact .inl hq

theorem step_mem_redo_take {t : Tally} {e : ExecutedStep} {q : Redo} (hq : q ∈ (t.take e).redo) :
    q.step ∈ t.unmet.map (·.2) ∨ q.step ∈ t.redo.map (·.step) := by
  rcases mem_redo_take hq with h | h
  · exact .inr (List.mem_map_of_mem h)
  · exact h.2.2.2

/-- A step to be repeated repeats a planned step. -/
theorem step_mem_of_mem_redo {t : Tally} {es : List ExecutedStep} {q : Redo}
    (hq : q ∈ (t.takeAll es).redo) :
    q.step ∈ t.unmet.map (·.2) ∨ q.step ∈ t.redo.map (·.step) := by
  induction es generalizing t with
  | nil => exact .inr (List.mem_map_of_mem hq)
  | cons e es ih =>
    rcases ih hq with h | h
    · exact .inl (((unmet_take_sublist t e).map _).subset h)
    · obtain ⟨k, hk, hs⟩ := List.mem_map.1 h
      rw [← hs]
      exact step_mem_redo_take hk

/-- A step to be repeated was executed, with failed data and in the configuration in which it is to
be repeated. -/
theorem executed_of_mem_redo {t : Tally} {es : List ExecutedStep} {q : Redo}
    (hq : q ∈ (t.takeAll es).redo) :
    q ∈ t.redo ∨ ∃ e ∈ es, e.failed = true ∧ e.id = q.failedStep ∧ e.executes q.step = true := by
  induction es generalizing t with
  | nil => exact .inl hq
  | cons e es ih =>
    rcases ih hq with h | ⟨k, hk, h⟩
    · rcases mem_redo_take h with h | h
      · exact .inl h
      · exact .inr ⟨e, List.mem_cons_self, h.1, h.2.1, h.2.2.1⟩
    · exact .inr ⟨k, List.mem_cons_of_mem _ hk, h⟩

/-- An atom is done when nothing is to be done, it is closed when only failed steps are to be repeated, and
it is in progress as long as planned steps are unmet. -/
theorem resolution_cases (t : Tally) :
    (t.unmet = [] ∧ t.redo = [] ∧ t.resolution = .satisfied) ∨
    (t.unmet = [] ∧ t.redo ≠ [] ∧ t.resolution = .closedWithRedo t.redo) ∨
    (t.unmet ≠ [] ∧ t.resolution = .inProgress t.unmet t.redo) := by
  by_cases hunmet : t.unmet = [] <;> by_cases hredo : t.redo = [] <;>
    simp [resolution, hunmet, hredo]

end Tally

/-! ## Steps executed as they are handed out -/

/-- A planned step was executed, and its data did not fail. -/
structure ExecutedStep.Does (e : ExecutedStep) (p : ProtoStep) : Prop where
  executes : e.executes p = true
  failed : e.failed = false

namespace Tally

theorem again_of_does {e : ExecutedStep} {p q : ProtoStep} (h : e.Does p) : again e q = [] := by
  simp [again, h.failed]

/-- The first planned steps still unmet, executed in their order, are met one by one. -/
theorem takeAll_unmet {us : List (Nat × ProtoStep)} {es : List ExecutedStep}
    (h : List.Forall₂ (fun e u => ExecutedStep.Does e u.2) es us) (vs : List (Nat × ProtoStep))
    (redo : List Redo) : takeAll ⟨us ++ vs, redo⟩ es = ⟨vs, redo⟩ := by
  induction h with
  | nil => rfl
  | @cons e u es us hue _ ih =>
    have htake : take ⟨u :: us ++ vs, redo⟩ e = ⟨us ++ vs, redo⟩ := by
      simp [take, hue.executes, again_of_does hue]
    rw [takeAll_cons, htake, ih]

/-- Where all planned steps are met, the first repetitions, executed in their order, are made one by
one. -/
theorem takeAll_redo {rs : List Redo} {es : List ExecutedStep}
    (h : List.Forall₂ (fun e r => ExecutedStep.Does e r.step) es rs) (qs : List Redo) :
    takeAll ⟨[], rs ++ qs⟩ es = ⟨[], qs⟩ := by
  induction h with
  | nil => rfl
  | @cons e r es rs hre _ ih =>
    have htake : take ⟨[], r :: rs ++ qs⟩ e = ⟨[], rs ++ qs⟩ := by
      simp [take, hre.executes, again_of_does hre]
    rw [takeAll_cons, htake, ih]

end Tally
end Observing
