import Mathlib.Data.Finset.Card
import Observing.Proofs.Working

/-!
# A plan that is done

Where generation has nothing left to yield, every planned atom and every repetition is closed, and
the repetitions make chains: one that failed again is followed by another.

* `card_ends`             chains have as many ends as beginnings;
* `Generator.repetitions` the steps that wait, and `mem_repetitions`, which these are;
* `closed_of_exhausted`   all that arises is closed;
* `executed_repeat`       a closed repetition was executed, and waits again if it failed.
-/

namespace Observing

/-- Chains in a finite set have as many ends as beginnings. -/
theorem card_ends {α : Type} [DecidableEq α] {W roots : Finset α} {next : α → Option α}
    (hroots : roots ⊆ W) (hback : ∀ a ∈ W, a ∉ roots → ∃ b ∈ W, next b = some a)
    (hnext : ∀ b ∈ W, ∀ a, next b = some a → a ∈ W ∧ a ∉ roots)
    (hinj : ∀ b ∈ W, ∀ b' ∈ W, ∀ a, next b = some a → next b' = some a → b = b') :
    (W.filter fun a => next a = none).card = roots.card := by
  -- the elements with a successor, against those with a predecessor
  have hsucc : (W.filter fun a => ¬next a = none).card = (W \ roots).card := by
    have hget : ∀ b ∈ W.filter (fun a => ¬next a = none), next b = some ((next b).getD b) := by
      intro b hb
      obtain ⟨a, ha⟩ := Option.ne_none_iff_exists'.1 (Finset.mem_filter.1 hb).2
      rw [ha, Option.getD_some]
    have himage : (W.filter fun a => ¬next a = none).image (fun b => (next b).getD b) =
        W \ roots := by
      ext a
      rw [Finset.mem_image, Finset.mem_sdiff]
      constructor
      · rintro ⟨b, hb, rfl⟩
        exact hnext b (Finset.mem_filter.1 hb).1 _ (hget b hb)
      · rintro ⟨ha, hnot⟩
        obtain ⟨b, hb, hba⟩ := hback a ha hnot
        refine ⟨b, Finset.mem_filter.2 ⟨hb, by rw [hba]; exact Option.some_ne_none a⟩, ?_⟩
        rw [hba, Option.getD_some]
    rw [← himage, Finset.card_image_of_injOn]
    intro b hb b' hb' hsame
    rw [Finset.mem_coe] at hb hb'
    have hb'' := hget b' hb'
    rw [← show (next b).getD b = (next b').getD b' from hsame] at hb''
    exact hinj b (Finset.mem_filter.1 hb).1 b' (Finset.mem_filter.1 hb').1 _ (hget b hb) hb''
  have hsplit := Finset.card_filter_add_card_filter_not (s := W) fun a => next a = none
  have hrest := Finset.card_sdiff_add_card_eq_card hroots
  omega

namespace Generator

variable {g : Generator} {p : Pending} {c : Configuration}

/-! ## Steps that wait -/

theorem mem_waves_iff {k : Nat} {q : List Pending} :
    p ∈ g.waves k q ↔ ∃ j < k, p ∈ g.repeats^[j] q := by
  induction k generalizing q with
  | zero =>
    refine iff_of_false List.not_mem_nil ?_
    rintro ⟨j, hj, -⟩
    exact Nat.not_lt_zero j hj
  | succ k ih =>
    rw [waves, List.mem_append, ih]
    constructor
    · rintro (h | ⟨j, hj, h⟩)
      · exact ⟨0, Nat.succ_pos k, h⟩
      · exact ⟨j + 1, Nat.succ_lt_succ hj, h⟩
    · rintro ⟨j, hj, h⟩
      cases j with
      | zero => exact .inl h
      | succ j => exact .inr ⟨j, Nat.lt_of_succ_lt_succ hj, h⟩

/-- The failed steps that wait for their repetition at some time. -/
def repetitions (g : Generator) : List Pending :=
  g.waves g.progress.executedCount (g.plannedVisits.flatMap g.left)

theorem Awaits.mem_iterate (hend : g.plan.onward = none) {l : List StepId}
    (h : g.Awaits g.plan.atoms.length l p) :
    p ∈ g.repeats^[l.length] (g.plannedVisits.flatMap g.left) := by
  induction h with
  | planned _ hv hp =>
    rw [plannedVisit?_eq hend] at hv
    exact List.mem_flatMap.2 ⟨_, List.mem_of_getElem? hv, hp⟩
  | repeated _ hp ih =>
    rw [List.length_cons, Function.iterate_succ_apply']
    exact List.mem_flatMap.2 ⟨_, ih, hp⟩

theorem awaits_of_planned (hend : g.plan.onward = none) {v : Visit} (hv : v ∈ g.plannedVisits)
    (hp : p ∈ g.left v) : g.Awaits g.plan.atoms.length [] p := by
  obtain ⟨i, hi, -, hget⟩ := plannedVisits_key hv
  rw [← plannedVisit?_eq hend] at hget
  exact .planned hi hget hp

/-- The steps that wait at some time are those behind a chain. -/
theorem mem_repetitions (hend : g.plan.onward = none) (hs : g.Sound g.plan.atoms.length) :
    p ∈ g.repetitions ↔ ∃ l, g.Awaits g.plan.atoms.length l p := by
  constructor
  · intro h
    obtain ⟨j, -, hj⟩ := mem_waves_iff.1 h
    have hroots : ∀ q ∈ g.plannedVisits.flatMap g.left,
        ∃ l, g.Awaits g.plan.atoms.length l q := by
      intro q hq
      obtain ⟨v, hv, hqv⟩ := List.mem_flatMap.1 hq
      exact ⟨[], awaits_of_planned hend hv hqv⟩
    obtain ⟨l, hl, -⟩ := awaits_iterate hroots j p hj
    exact ⟨l, hl⟩
  · rintro ⟨l, hl⟩
    exact mem_waves_iff.2 ⟨l.length, hl.length_lt hs, hl.mem_iterate hend⟩

/-! ## Nothing left to yield -/

/-- Where nothing is left to yield, all that arises is closed. -/
theorem closed_of_exhausted (hend : g.plan.onward = none) (hs : g.Sound g.plan.atoms.length)
    {t : TelescopeState} (hnone : g.advance (.start t) = none) {v : Visit} (hv : g.Arises v) :
    g.opened v = false := by
  have hpath := path_way hend hs (s := ⟨0, []⟩) (Nat.zero_le _)
    (fun p hp => absurd hp List.not_mem_nil)
  have hway : g.way ⟨0, []⟩ = g.plannedVisits ++ g.repetitions.map g.repeatVisit := by
    rw [way, List.drop_zero, List.nil_append]
    rfl
  have hmem : v ∈ g.way ⟨0, []⟩ := by
    rw [hway, List.mem_append]
    cases hv with
    | planned hv => exact .inl hv
    | repeated hp => exact .inr (List.mem_map_of_mem ((mem_repetitions hend hs).2 ⟨_, hp⟩))
  rcases filter_opened_cases g (g.way ⟨0, []⟩) with ⟨-, hall⟩ | ⟨us, w, ws, hsplit, hus, hw, -⟩
  · exact hall v hmem
  · exfalso
    rw [hsplit] at hpath
    obtain ⟨s, hp, hrest⟩ := hpath.split
    cases hrest with
    | cons hl _ =>
      have hprompt := Path.prompt hend hs (.nil ⟨0, []⟩)
      have hsome := advance_opened hp hus hl hw hprompt t
      rw [show Place.at ⟨0, []⟩ t = Continuation.start t from rfl, hnone] at hsome
      cases hsome

/-- A closed repetition was executed once, and waits again if its data failed. -/
theorem executed_repeat (hr : g.Regular) (hd : g.Distinct) {l : List StepId}
    (hp : g.Awaits g.plan.atoms.length l p) (hclosed : g.opened (g.repeatVisit p) = false) :
    ∃ e, g.progress.executed (g.redoAtomId p.redo.failedStep) = [e] ∧
      e.configuration = p.redo.step.configuration ∧
      g.left (g.repeatVisit p) = waiting p.kind (Tally.again e p.redo.step) := by
  have hne : g.progress.executed (g.redoAtomId p.redo.failedStep) ≠ [] := by
    rw [ne_eq, ← hr.opened_repeatVisit hd hp, hclosed]
    exact Bool.false_ne_true
  have hlen := hr.length_repeat_le hd hp
  have hpos := List.length_pos_iff.2 hne
  obtain ⟨e, he⟩ := List.length_eq_one_iff.1 (Nat.le_antisymm hlen hpos)
  have hconf := hr.configuration_repeat hd hp (he ▸ List.mem_singleton_self e)
  refine ⟨e, he, hconf, ?_⟩
  have hexecutes : e.executes p.redo.step = true := ExecutedStep.executes_iff.2 hconf.symm
  rw [(tally_of_closed hclosed).2, tally_repeatVisit, he]
  simp [Tally.takeAll, Tally.start, Tally.take, hexecutes]
  rfl

end Generator
end Observing
