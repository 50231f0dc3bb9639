import Mathlib.Data.List.Perm.Subperm
import Observing.Proofs.Walk

/-!
# Chains of repetitions

A failed step of a closed atom is repeated in an atom of its own, which may be closed with failed data
in turn.  As long as places have identities of their own and a failed step was recorded under one atom
only, such a chain never comes back to a step it has passed.

* `AtomKey.Apart`          distinct places have distinct identities;
* `Generator.Sound`        what generation relies on;
* `Generator.Awaits`       a failed step waits behind a chain of others;
* `Awaits.nodup`           a chain passes no step twice;
* `Awaits.length_lt`       a chain is no longer than the list of executed steps.
-/

namespace Observing

/-- Distinct places among those given have distinct identities. -/
def AtomKey.Apart (keys : List AtomKey) : Prop :=
  ∀ k ∈ keys, ∀ l ∈ keys, k.id = l.id → k = l

instance (keys : List AtomKey) : Decidable (AtomKey.Apart keys) :=
  inferInstanceAs (Decidable (∀ k ∈ keys, ∀ l ∈ keys, k.id = l.id → k = l))

theorem AtomKey.Apart.mono {keys more : List AtomKey} (h : AtomKey.Apart more)
    (hsub : keys ⊆ more) : AtomKey.Apart keys :=
  fun k hk l hl => h k (hsub hk) l (hsub hl)

namespace Generator

variable {g : Generator} {n : Nat}

/-- The places of the atoms that arise for the first `n` positions of a plan. -/
def atomKeys (g : Generator) (n : Nat) : List AtomKey :=
  (List.range n).map (.planned g.observation g.sequence)
    ++ g.progress.failedIds.map (.repeated g.observation g.sequence)

theorem planned_mem_atomKeys {i : Nat} (h : i < n) :
    AtomKey.planned g.observation g.sequence i ∈ g.atomKeys n :=
  List.mem_append_left _ (List.mem_map_of_mem (List.mem_range.2 h))

theorem repeated_mem_atomKeys {f : StepId} (h : f ∈ g.progress.failedIds) :
    AtomKey.repeated g.observation g.sequence f ∈ g.atomKeys n :=
  List.mem_append_right _ (List.mem_map_of_mem h)

/-- What generation relies on for the first `n` positions of a plan. -/
structure Sound (g : Generator) (n : Nat) : Prop where
  apart : AtomKey.Apart (g.atomKeys n)
  owner : g.progress.SingleOwner

theorem atomId_inj (h : AtomKey.Apart (g.atomKeys n)) {i j : Nat} (hi : i < n) (hj : j < n)
    (hij : g.atomId i = g.atomId j) : i = j := by
  have hkey := h _ (planned_mem_atomKeys hi) _ (planned_mem_atomKeys hj) hij
  cases hkey
  rfl

theorem atomId_ne_redoAtomId (h : AtomKey.Apart (g.atomKeys n)) {i : Nat} {f : StepId} (hi : i < n)
    (hf : f ∈ g.progress.failedIds) : g.atomId i ≠ g.redoAtomId f := by
  intro he
  cases h _ (planned_mem_atomKeys hi) _ (repeated_mem_atomKeys hf) he

theorem redoAtomId_inj (h : AtomKey.Apart (g.atomKeys n)) {f k : StepId}
    (hf : f ∈ g.progress.failedIds) (hk : k ∈ g.progress.failedIds)
    (he : g.redoAtomId f = g.redoAtomId k) : f = k := by
  have hkey := h _ (repeated_mem_atomKeys hf) _ (repeated_mem_atomKeys hk) he
  cases hkey
  rfl

/-! ## What a visited atom leaves behind -/

theorem mem_left {v : Visit} {p : Pending} (hp : p ∈ g.left v) :
    p.redo ∈ (g.resolution v).left ∧ p.kind = v.planned.kind := by
  obtain ⟨r, hr, rfl⟩ := List.mem_map.1 hp
  exact ⟨hr, rfl⟩

/-- A failed step that an atom leaves behind failed under that atom, in the configuration in which it
is to be repeated. -/
theorem fails_of_mem_left {v : Visit} {p : Pending} (hp : p ∈ g.left v) :
    g.progress.Fails v.key.id p.redo.failedStep p.redo.step.configuration := by
  have hr := (mem_left hp).1
  obtain ⟨es, hes, -, hleft⟩ := Progress.left_resolve hr
  have hmem : p.redo ∈
      ((Tally.start v.planned.steps).takeAll (g.progress.executed v.key.id)).redo := by
    rw [Progress.executed_of_some hes, ← hleft]
    exact hr
  exact Progress.fails_of_mem_redo hmem

theorem failure_of_mem_left {v : Visit} {p : Pending} (hp : p ∈ g.left v) :
    (v.key.id, p.redo.failedStep) ∈ g.progress.failures :=
  (fails_of_mem_left hp).mem_failures

theorem failedId_of_mem_left {v : Visit} {p : Pending} (hp : p ∈ g.left v) :
    p.redo.failedStep ∈ g.progress.failedIds :=
  List.mem_map_of_mem (failure_of_mem_left hp)

theorem step_of_mem_left {v : Visit} {p : Pending} (hp : p ∈ g.left v) :
    p.redo.step ∈ v.planned.steps := by
  have hr := (mem_left hp).1
  obtain ⟨es, -, -, hleft⟩ := Progress.left_resolve hr
  have hmem : p.redo ∈ ((Tally.start v.planned.steps).takeAll es).redo := hleft ▸ hr
  rcases Tally.step_mem_of_mem_redo hmem with h | h
  · rwa [Tally.map_snd_unmet_start] at h
  · cases h

/-- The repetition of a failed step leaves that step behind, in a new failure. -/
theorem repeats_same {p q : Pending} (hq : q ∈ g.left (g.repeatVisit p)) :
    q.redo.step = p.redo.step ∧ q.kind = p.kind :=
  ⟨List.mem_singleton.1 (step_of_mem_left hq), (mem_left hq).2⟩

theorem left_eq_nil_or (g : Generator) (v : Visit) : g.left v = [] ∨
    ∃ es, g.progress.executed? v.key.id = some es ∧
      g.left v = waiting v.planned.kind ((Tally.start v.planned.steps).takeAll es).redo := by
  unfold left
  cases h : (g.resolution v).left with
  | nil => exact .inl rfl
  | cons q rest =>
    have hq : q ∈ (g.progress.resolve v.key.id v.planned.steps).left := by
      show q ∈ (g.resolution v).left
      rw [h]
      exact List.mem_cons_self
    obtain ⟨es, hes, -, hleft⟩ := Progress.left_resolve hq
    refine .inr ⟨es, hes, ?_⟩
    rw [← h]
    exact congrArg _ hleft

theorem length_left_le (g : Generator) (v : Visit) :
    (g.left v).length ≤ g.progress.executedCount := by
  rcases left_eq_nil_or g v with h | ⟨es, hes, h⟩
  · rw [h]
    exact Nat.zero_le _
  · rw [h, waiting, List.length_map]
    exact (Tally.length_redo_start_le _ _).trans (Progress.length_executed?_le hes)

theorem length_left_repeat_le (g : Generator) (p : Pending) :
    (g.left (g.repeatVisit p)).length ≤ 1 := by
  rcases left_eq_nil_or g (g.repeatVisit p) with h | ⟨es, -, h⟩
  · rw [h]
    exact Nat.zero_le _
  · have htally := Tally.length_takeAll_le (Tally.start (g.repeatVisit p).planned.steps) es
    have hstart : (Tally.start (g.repeatVisit p).planned.steps).unmet.length
        + (Tally.start (g.repeatVisit p).planned.steps).redo.length = 1 := Tally.length_start _
    rw [h, waiting, List.length_map]
    omega

theorem nodup_left (hn : g.progress.failedIds.Nodup) (v : Visit) :
    ((g.left v).map (·.redo.failedStep)).Nodup := by
  rcases left_eq_nil_or g v with h | ⟨es, hes, h⟩
  · rw [h]
    exact List.nodup_nil
  · have hsub := Tally.redo_takeAll_sublist (Tally.start v.planned.steps) es
    have hfailed := (Progress.failed_sublist hes).map (·.2)
    have hids : ((es.filter (·.failed)).map fun e => e.id).Nodup := by
      refine List.Nodup.sublist ?_ hn
      rw [List.map_map] at hfailed
      exact hfailed
    rw [h, waiting, List.map_map]
    exact List.Nodup.sublist hsub hids

/-! ## Chains -/

/-- A failed step waits for its repetition, at the end of a chain of failed steps that starts in one
of the first `n` planned atoms.  The list holds the steps before it, the newest in front. -/
inductive Awaits (g : Generator) (n : Nat) : List StepId → Pending → Prop
  | planned {i : Nat} {v : Visit} {p : Pending} :
    i < n → g.plannedVisit? i = some v → p ∈ g.left v → Awaits g n [] p
  | repeated {l : List StepId} {q p : Pending} :
    Awaits g n l q → p ∈ g.left (g.repeatVisit q) → Awaits g n (q.redo.failedStep :: l) p

theorem plannedVisit?_key {i : Nat} {v : Visit} (h : g.plannedVisit? i = some v) :
    v.key = .planned g.observation g.sequence i := by
  obtain ⟨a, -, rfl⟩ := Option.map_eq_some_iff.1 h
  rfl

theorem Awaits.mem_failedIds {l : List StepId} {p : Pending} (h : g.Awaits n l p) :
    p.redo.failedStep ∈ g.progress.failedIds := by
  cases h with
  | planned _ _ hp => exact failedId_of_mem_left hp
  | repeated _ hp => exact failedId_of_mem_left hp

/-- The chain in front of a failed step is determined by the step. -/
theorem Awaits.unique (hs : g.Sound n) {l k : List StepId} {p q : Pending} (hp : g.Awaits n l p)
    (hq : g.Awaits n k q) (he : p.redo.failedStep = q.redo.failedStep) : l = k := by
  induction hp generalizing k q with
  | @planned i v p hi hv hleft =>
    have hown := failure_of_mem_left hleft
    rw [plannedVisit?_key hv] at hown
    cases hq with
    | planned _ _ _ => rfl
    | @repeated l' q' _ hq' hleft' =>
      have hown' := failure_of_mem_left hleft'
      rw [← he] at hown'
      exact absurd (hs.owner _ _ _ hown hown') (atomId_ne_redoAtomId hs.apart hi hq'.mem_failedIds)
  | @repeated l q₀ p hq₀ hleft ih =>
    have hown := failure_of_mem_left hleft
    cases hq with
    | @planned i v _ hi hv hleft' =>
      have hown' := failure_of_mem_left hleft'
      rw [plannedVisit?_key hv, ← he] at hown'
      exact absurd (hs.owner _ _ _ hown' hown) (atomId_ne_redoAtomId hs.apart hi hq₀.mem_failedIds)
    | @repeated l' q' _ hq' hleft' =>
      have hown' := failure_of_mem_left hleft'
      rw [← he] at hown'
      have hsame := redoAtomId_inj hs.apart hq₀.mem_failedIds hq'.mem_failedIds
        (hs.owner _ _ _ hown hown')
      rw [ih hq' hsame, hsame]

theorem Awaits.of_mem {l : List StepId} {p : Pending} (h : g.Awaits n l p) {f : StepId}
    (hf : f ∈ l) : ∃ k q, g.Awaits n k q ∧ q.redo.failedStep = f ∧ k.length < l.length := by
  induction h with
  | planned _ _ _ => cases hf
  | @repeated l q p hq _ ih =>
    rcases List.mem_cons.1 hf with rfl | hf
    · exact ⟨l, q, hq, rfl, Nat.lt_succ_self _⟩
    · obtain ⟨k, r, hr, he, hlt⟩ := ih hf
      exact ⟨k, r, hr, he, Nat.lt_succ_of_lt hlt⟩

/-- A chain passes no step twice. -/
theorem Awaits.nodup (hs : g.Sound n) {l : List StepId} {p : Pending} (h : g.Awaits n l p) :
    (p.redo.failedStep :: l).Nodup := by
  have hnot : ∀ {l : List StepId} {p : Pending}, g.Awaits n l p → p.redo.failedStep ∉ l := by
    intro l p h hmem
    obtain ⟨k, q, hq, he, hlt⟩ := h.of_mem hmem
    rw [h.unique hs hq he.symm] at hlt
    exact Nat.lt_irrefl _ hlt
  refine List.nodup_cons.2 ⟨hnot h, ?_⟩
  induction h with
  | planned _ _ _ => exact List.nodup_nil
  | repeated hq _ ih => exact List.nodup_cons.2 ⟨hnot hq, ih⟩

/-- A chain is shorter than the list of executed steps. -/
theorem Awaits.length_lt (hs : g.Sound n) {l : List StepId} {p : Pending} (h : g.Awaits n l p) :
    l.length < g.progress.executedCount := by
  have hsub : (p.redo.failedStep :: l) ⊆ g.progress.failedIds := by
    intro f hf
    rcases List.mem_cons.1 hf with rfl | hf
    · exact h.mem_failedIds
    · obtain ⟨k, q, hq, rfl, -⟩ := h.of_mem hf
      exact hq.mem_failedIds
  have hlen := (List.subperm_of_subset (h.nodup hs) hsub).length_le
  have hcount := Progress.length_failures_le g.progress
  rw [List.length_cons, Progress.failedIds, List.length_map] at hlen
  omega

end Generator
end Observing
