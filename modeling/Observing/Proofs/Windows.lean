import Observing.Proofs.Extended
import Observing.Proofs.Remaining

/-!
# What a window shows

A window shows the next atom and a number of those behind it, whether there are more, and where
generation stands.  Each window starts from the beginning again.

* `take_take`           a longer look begins with the shorter one;
* `take_remaining`      on a plan with an end it shows the first atoms that remain;
* `length_take_endless` on a plan without end there are always as many as are asked for;
* `isBegun_iff`         an atom that is yielded was begun when it was recorded;
* `Generator.Truthful`  what a window tells;
* `window_truthful`     every window tells that, and those of an engine start with its next atom.
-/

namespace Observing
namespace Generator

variable {g : Generator} {t : TelescopeState} {n m : Nat}

/-! ## Longer and shorter looks -/

/-- A longer look begins with the shorter one. -/
theorem take_take (h : n ≤ m) (c : Continuation) : (g.take m c).1.take n = (g.take n c).1 := by
  induction n generalizing m c with
  | zero => rfl
  | succ n ih =>
    obtain ⟨m, rfl⟩ : ∃ k, m = k + 1 := ⟨m - 1, by omega⟩
    cases hadvance : g.advance c with
    | none =>
      rw [take_succ_none hadvance, take_succ_none hadvance]
      rfl
    | some r =>
      obtain ⟨e, next⟩ := r
      rw [take_succ_some hadvance, take_succ_some hadvance]
      show e :: (g.take m next).1.take n = _
      rw [ih (Nat.le_of_succ_le_succ h)]

theorem take_remaining (hend : g.plan.onward = none) (hs : g.Sound g.plan.atoms.length) (n : Nat)
    (t : TelescopeState) : (g.take n (.start t)).1.map (·.atom) = (g.remaining t).take n := by
  rw [take_way hend hs, remaining_eq_price hend hs, List.map_take]

theorem length_take_endless (hend : g.plan.isUnbounded = true) (hs : g.Sound (g.reach n))
    (hn : g.progress.failedIds.Nodup) (t : TelescopeState) :
    (g.take n (.start t)).1.length = n := by
  obtain ⟨vs, s, hp, hdone, hopen⟩ := exists_route hs hn
  have hlong : n ≤ (vs.filter g.opened).length := by
    rcases hdone with hnone | hlong
    · obtain ⟨v, s', hl⟩ := look_endless hend s
      rw [hnone] at hl
      cases hl
    · exact hlong
  rw [take_route hs hn hp hdone hopen t, List.length_take, length_price]
  omega

/-! ## Atoms that were begun -/

theorem mem_atomIds {p : Progress} {a : AtomId} : a ∈ p.atomIds ↔ p.executed? a ≠ none := by
  rw [Progress.atomIds, List.mem_eraseDups]
  constructor
  · intro h
    obtain ⟨es, hes⟩ := Progress.executed?_of_mem h
    rw [hes]
    exact Option.some_ne_none es
  · intro h
    by_contra hnot
    refine h (Progress.executed?_eq_none_iff.2 fun r hr hid => ?_)
    exact hnot (hid ▸ List.mem_map_of_mem hr)

/-- An open atom was begun exactly when it was recorded. -/
theorem isBegun_iff {v : Visit} (hv : g.opened v = true) :
    isBegun (g.resolution v) = true ↔ v.key.id ∈ g.progress.atomIds := by
  rw [mem_atomIds, ne_eq, ← Progress.resolve_eq_fresh_iff _ _ v.planned.steps]
  show _ ↔ ¬g.resolution v = .fresh
  unfold opened at hv
  cases hr : g.resolution v with
  | fresh => simp [isBegun]
  | inProgress unmet redo => simp [isBegun]
  | satisfied =>
    rw [hr] at hv
    cases hv
  | closedWithRedo redo =>
    rw [hr] at hv
    cases hv

theorem resumed_iff {e : Emission} {next : Continuation}
    (h : g.advance (.start t) = some (e, next)) : e.resumed = true ↔ e.atom.id ∈ g.progress.atomIds := by
  obtain ⟨us, s₁, v, s₂, -, -, -, hv, rfl, -⟩ := turns_some (s := ⟨0, []⟩) h
  exact isBegun_iff hv

/-! ## What a window tells -/

/-- What a window tells.  On a plan with an end it shows the first of the atoms that remain and whether
there are more, on one without end as many as are asked for.  A longer window goes on where the
shorter one stops.  The state tells whether there is a next atom, whether it was recorded, and whether
anything was. -/
structure Truthful (g : Generator) (t : TelescopeState) (limit : Nat) : Prop where
  atoms : g.plan.onward = none →
    (g.window t limit).atoms = (g.remaining t).take (limit + 1)
  hasMore : g.plan.onward = none →
    ((g.window t limit).hasMore = true ↔ limit + 1 < (g.remaining t).length)
  endless : g.plan.onward ≠ none → (g.window t limit).nextAtom ≠ none ∧
    (g.window t limit).possibleFuture.length = limit ∧ (g.window t limit).hasMore = true
  longer : ∀ more, limit ≤ more → (g.window t more).nextAtom = (g.window t limit).nextAtom ∧
    (g.window t more).possibleFuture.take limit = (g.window t limit).possibleFuture ∧
    (g.window t more).state = (g.window t limit).state
  exhausted : (g.window t limit).state = .exhausted ↔ (g.window t limit).nextAtom = none
  resuming : (g.window t limit).state = .resuming ↔
    ∃ a, (g.window t limit).nextAtom = some a ∧ a.id ∈ g.progress.atomIds
  unconsumed : (g.window t limit).state = .unconsumed ↔
    (g.window t limit).nextAtom ≠ none ∧ g.progress.records = []
  producing : (g.window t limit).state = .producing ↔
    ∃ a, (g.window t limit).nextAtom = some a ∧ a.id ∉ g.progress.atomIds ∧ g.progress.records ≠ []

theorem window_none {limit : Nat} (h : g.advance (.start t) = none) :
    g.window t limit = .exhausted := by
  rw [window, h]

theorem window_some {limit : Nat} {e : Emission} {next : Continuation}
    (h : g.advance (.start t) = some (e, next)) : g.window t limit =
      ⟨some e.atom, (g.take limit next).1.map (·.atom), (g.advance (g.take limit next).2).isSome,
        g.reported e⟩ := by
  rw [window, h]

theorem window_longer {limit more : Nat} (h : limit ≤ more) :
    (g.window t more).nextAtom = (g.window t limit).nextAtom ∧
    (g.window t more).possibleFuture.take limit = (g.window t limit).possibleFuture ∧
    (g.window t more).state = (g.window t limit).state := by
  cases hadvance : g.advance (.start t) with
  | none =>
    rw [window_none hadvance, window_none hadvance]
    exact ⟨rfl, List.take_nil, rfl⟩
  | some r =>
    obtain ⟨e, next⟩ := r
    rw [window_some hadvance, window_some hadvance]
    refine ⟨rfl, ?_, rfl⟩
    rw [← List.map_take, take_take h]

theorem length_possibleFuture_le (t : TelescopeState) (limit : Nat) :
    (g.window t limit).possibleFuture.length ≤ limit := by
  cases hadvance : g.advance (.start t) with
  | none =>
    rw [window_none hadvance]
    exact Nat.zero_le _
  | some r =>
    rw [window_some hadvance, List.length_map]
    exact length_take_le limit _

theorem window_endless {limit : Nat} (hend : g.plan.isUnbounded = true)
    (hs : g.Sound (g.reach (limit + 2))) (hn : g.progress.failedIds.Nodup) :
    (g.window t limit).nextAtom ≠ none ∧ (g.window t limit).possibleFuture.length = limit ∧
      (g.window t limit).hasMore = true := by
  have hlong := length_take_endless hend hs hn t
  have hshort : (g.take (limit + 1) (.start t)).1.length = limit + 1 := by
    rw [← take_take (Nat.le_succ (limit + 1)), List.length_take, hlong]
    omega
  have hmore : (g.window t limit).hasMore = true := by
    rw [window_hasMore, hlong]
    exact decide_eq_true rfl
  cases hadvance : g.advance (.start t) with
  | none =>
    rw [take_succ_none hadvance] at hshort
    cases hshort
  | some r =>
    obtain ⟨e, next⟩ := r
    rw [take_succ_some hadvance, List.length_cons] at hshort
    refine ⟨?_, ?_, hmore⟩
    · rw [window_some hadvance]
      exact Option.some_ne_none _
    · rw [window_some hadvance, List.length_map]
      exact Nat.succ.inj hshort

/-- The state of a window with a next atom. -/
theorem reported_iff {e : Emission} {next : Continuation} (h : g.advance (.start t) = some (e, next)) :
    (g.reported e = .resuming ↔ e.atom.id ∈ g.progress.atomIds) ∧
    (g.reported e = .unconsumed ↔ g.progress.records = []) ∧
    (g.reported e = .producing ↔ e.atom.id ∉ g.progress.atomIds ∧ g.progress.records ≠ []) := by
  have hresumed := resumed_iff h
  have hempty : g.progress.isEmpty = true ↔ g.progress.records = [] := List.isEmpty_iff
  unfold reported
  by_cases hbegun : e.resumed = true
  · have hid := hresumed.1 hbegun
    have hne : g.progress.records ≠ [] := by
      intro hnil
      rw [Progress.atomIds, hnil] at hid
      cases hid
    rw [if_pos hbegun]
    simp [hid, hne]
  · have hid : e.atom.id ∉ g.progress.atomIds := fun h => hbegun (hresumed.2 h)
    rw [if_neg hbegun]
    by_cases hnil : g.progress.records = []
    · rw [if_pos (hempty.2 hnil)]
      simp [hid, hnil]
    · rw [if_neg fun h => hnil (hempty.1 h)]
      simp [hid, hnil]

theorem window_state (t : TelescopeState) (limit : Nat) :
    ((g.window t limit).state = .exhausted ↔ (g.window t limit).nextAtom = none) ∧
    ((g.window t limit).state = .resuming ↔
      ∃ a, (g.window t limit).nextAtom = some a ∧ a.id ∈ g.progress.atomIds) ∧
    ((g.window t limit).state = .unconsumed ↔
      (g.window t limit).nextAtom ≠ none ∧ g.progress.records = []) ∧
    ((g.window t limit).state = .producing ↔
      ∃ a, (g.window t limit).nextAtom = some a ∧ a.id ∉ g.progress.atomIds ∧
        g.progress.records ≠ []) := by
  cases hadvance : g.advance (.start t) with
  | none =>
    rw [window_none hadvance]
    simp [GeneratedSequence.exhausted]
  | some r =>
    obtain ⟨e, next⟩ := r
    obtain ⟨hresuming, hunconsumed, hproducing⟩ := reported_iff hadvance
    have hexhausted : g.reported e ≠ .exhausted := by
      unfold reported
      split
      · simp
      · split <;> simp
    rw [window_some hadvance]
    simp only [Option.some.injEq, exists_eq_left', ne_eq, reduceCtorEq, not_false_eq_true, true_and,
      iff_false]
    exact ⟨hexhausted, hresuming, hunconsumed, hproducing⟩

theorem truthful {limit : Nat} (hs : g.Sound (g.reach (limit + 2)))
    (hn : g.progress.failedIds.Nodup) (t : TelescopeState) : g.Truthful t limit := by
  have hfinite : g.plan.onward = none → g.Sound g.plan.atoms.length := by
    intro hend
    have hreach : g.reach (limit + 2) = g.plan.atoms.length :=
      reach_finite (by simp [AtomPlan.isUnbounded, hend]) _
    exact hreach ▸ hs
  obtain ⟨hexhausted, hresuming, hunconsumed, hproducing⟩ := window_state (g := g) t limit
  refine ⟨?_, ?_, ?_, fun more h => window_longer h, hexhausted, hresuming, hunconsumed, hproducing⟩
  · intro hend
    rw [window_atoms, take_remaining hend (hfinite hend)]
  · intro hend
    have hlen := congrArg List.length (take_remaining hend (hfinite hend) (limit + 2) t)
    rw [List.length_map, List.length_take] at hlen
    rw [window_hasMore, hlen, decide_eq_true_eq]
    omega
  · intro hend
    exact window_endless (Option.isSome_iff_ne_none.2 hend) hs hn

end Generator

/-! ## The windows of an engine -/

/-- The window of a sequence. -/
def ExecutionConfig.get? (config : ExecutionConfig) : SequenceType → Option GeneratedSequence
  | .acquisition => config.acquisition
  | .science => some config.science

namespace Engine

/-- The next atom of an engine is that of its windows, whatever number of atoms behind it is asked
for. -/
theorem nextAtom_eq_generate (e : Engine) (o : Observation) (calculator : Calculator)
    (sequence : SequenceType) (limit : Option Nat) :
    e.nextAtom o calculator sequence = (e.generate o calculator limit).map fun config =>
      (config.get? sequence).bind (·.nextAtom) := by
  unfold nextAtom generate
  cases e.specification o calculator with
  | error cause => rfl
  | ok s =>
    have hnext : ∀ plan, ((e.generator o sequence plan).window (telescope o sequence) 0).nextAtom =
        ((e.generator o sequence plan).window (telescope o sequence) (e.limits.future limit)).nextAtom :=
      fun plan => (Generator.window_longer (Nat.zero_le _)).1.symm
    cases sequence with
    | acquisition =>
      show Except.ok (((Plans.ofSpecification s).acquisition.map _).bind _) =
        Except.ok (((Plans.ofSpecification s).acquisition.map _).bind _)
      cases (Plans.ofSpecification s).acquisition with
      | none => rfl
      | some plan => exact congrArg Except.ok (hnext plan)
    | science => exact congrArg Except.ok (hnext (Plans.ofSpecification s).science)

/-- No window shows more atoms behind the next one than the limits allow. -/
theorem length_possibleFuture_le (e : Engine) (o : Observation) (calculator : Calculator)
    (sequence : SequenceType) (limit : Option Nat) {config : ExecutionConfig}
    (h : e.generate o calculator limit = .ok config) {w : GeneratedSequence}
    (hw : config.get? sequence = some w) : w.possibleFuture.length ≤ e.limits.maxFuture := by
  have hlimit : e.limits.future limit ≤ e.limits.maxFuture := Nat.min_le_right _ _
  unfold generate at h
  cases hs : e.specification o calculator with
  | error cause =>
    rw [hs] at h
    cases h
  | ok s =>
    rw [hs] at h
    cases h
    cases sequence with
    | acquisition =>
      obtain ⟨plan, -, rfl⟩ := Option.map_eq_some_iff.1 (show (Plans.ofSpecification s).acquisition.map
        (fun plan => (e.generator o .acquisition plan).window (telescope o .acquisition)
          (e.limits.future limit)) = some w from hw)
      exact (Generator.length_possibleFuture_le _ _).trans hlimit
    | science =>
      cases hw
      exact (Generator.length_possibleFuture_le _ _).trans hlimit

end Engine

/-- Every window tells the truth, for any history in which failed steps have identities of their own.
Those of an engine start with its next atom, however many atoms behind it are asked for, and show
no more of them than the limits allow. -/
theorem window_truthful (g : Generator) (h : History) (sequence : SequenceType) (scope : VisitScope)
    (t : TelescopeState) (limit : Nat) (hprogress : g.progress = .ofHistory h sequence scope)
    (hdistinct : h.DistinctFailures) (hapart : AtomKey.Apart (g.atomKeys (g.reach (limit + 2))))
    (e : Engine) (o : Observation) (calculator : Calculator) (requested : Option Nat) :
    g.Truthful t limit ∧
    (e.nextAtom o calculator sequence = (e.generate o calculator requested).map fun config =>
      (config.get? sequence).bind (·.nextAtom)) ∧
    ∀ config w, e.generate o calculator requested = .ok config → config.get? sequence = some w →
      w.possibleFuture.length ≤ e.limits.maxFuture := by
  have hn : g.progress.failedIds.Nodup := by
    rw [hprogress]
    exact Progress.nodup_failedIds hdistinct sequence scope
  have hs : g.Sound (g.reach (limit + 2)) := ⟨hapart, Progress.singleOwner_of_nodup hn⟩
  refine ⟨Generator.truthful hs hn t, e.nextAtom_eq_generate o calculator sequence requested, ?_⟩
  intro config w hconfig hw
  exact e.length_possibleFuture_le o calculator sequence requested hconfig hw

/-- Two atoms remain of the sample, of which a window without future shows the first, a new one. -/
theorem window_truthful_sample :
    Generator.sampleGenerator.Truthful .initial 0 ∧
    (Generator.sampleGenerator.remaining .initial).length = 2 ∧
    (Generator.sampleGenerator.window .initial 0).hasMore = true ∧
    (Generator.sampleGenerator.window .initial 0).state = .producing := by
  obtain ⟨htruthful, -, -⟩ := window_truthful Generator.sampleGenerator Generator.sampleHistory
    .science .allVisits .initial 0 rfl (by decide +kernel) (by decide +kernel) default
    (Short.observation ⟨[]⟩) Short.calculator none
  have hlen : (Generator.sampleGenerator.remaining .initial).length = 2 := by decide +kernel
  refine ⟨htruthful, hlen, (htruthful.hasMore rfl).2 ?_, by decide +kernel⟩
  rw [hlen]
  decide

end Observing
