import Mathlib.Data.Finset.Card
import Observing.Proofs.Remaining
import Observing.Proofs.Searches

/-!
# Failures that go round in a circle

The failure of a repetition may lead back to a step that was repeated before: then a search goes on
for ever.  On a plan with an end nothing else keeps a search from ending, whatever was recorded.

* `Generator.Circles`    a chain of repetitions comes back to a step it has passed;
* `circles_iff`          a chain does so exactly when it is longer than the list of executed steps;
* `not_circles_of_sound` where failed steps have identities of their own, none does;
* `Within.endless`       with a circle there is a way without end;
* `Within.advance_of_finds`   what a search comes to is what generation yields;
* `remaining_of_lists`     what searches come to is what remains;
* `lists_iff_not_circles`   searches come to the end of a plan exactly when no chain goes round.
-/

namespace Observing
namespace Generator

variable {g : Generator} {p : Pending} {q : List Pending} {s s' : Place} {t : TelescopeState}

/-! ## Circles -/

/-- The failures of a step and of its repetitions come back to a step that they have passed. -/
def Circles (g : Generator) (p : Pending) : Prop :=
  ∃ i j failed, i < j ∧ g.chain? p i = some failed ∧ g.chain? p j = some failed

theorem chain?_eq_none_of_le {i j : Nat} (h : g.chain? p i = none) (hij : i ≤ j) :
    g.chain? p j = none := by
  induction hij with
  | refl => exact h
  | step _ ih =>
    rw [chain?, ih]
    rfl

theorem chain?_add {i j : Nat} (h : g.chain? p i = g.chain? p j) (m : Nat) :
    g.chain? p (i + m) = g.chain? p (j + m) := by
  induction m with
  | zero => exact h
  | succ m ih =>
    show (g.chain? p (i + m)).bind _ = (g.chain? p (j + m)).bind _
    rw [ih]

/-- A chain that goes round in a circle has no end. -/
theorem Circles.chain?_ne_none (h : g.Circles p) (k : Nat) : g.chain? p k ≠ none := by
  obtain ⟨i, j, failed, hij, hi, hj⟩ := h
  have hround : ∀ m, g.chain? p (i + m * (j - i)) = some failed := by
    intro m
    induction m with
    | zero => rwa [Nat.zero_mul, Nat.add_zero]
    | succ m ih =>
      have hadd := chain?_add (hj.trans hi.symm) (m * (j - i))
      have hnext : i + (m + 1) * (j - i) = j + m * (j - i) := by
        rw [Nat.succ_mul]
        omega
      rw [hnext, hadd, ih]
  intro hnone
  have hle : k ≤ i + k * (j - i) :=
    (Nat.le_mul_of_pos_right k (Nat.sub_pos_of_lt hij)).trans (Nat.le_add_left _ _)
  have hend := chain?_eq_none_of_le hnone hle
  rw [hround] at hend
  cases hend

theorem mem_failedIds_of_chain? (hp : p.redo.failedStep ∈ g.progress.failedIds) {k : Nat}
    {failed : StepId} (h : g.chain? p k = some failed) : failed ∈ g.progress.failedIds := by
  cases k with
  | zero =>
    cases h
    exact hp
  | succ k =>
    obtain ⟨before, -, hnext⟩ := Option.bind_eq_some_iff.1 h
    have hleft : (⟨⟨failed, p.redo.step⟩, p.kind⟩ : Pending) ∈
        g.left (g.repeatVisit ⟨⟨before, p.redo.step⟩, p.kind⟩) := by
      rw [left_repeatVisit]
      show _ ∈ (Option.map _ (g.nextFailure? p.redo.step before)).toList
      rw [hnext]
      exact List.mem_singleton_self _
    exact failedId_of_mem_left hleft

/-- A chain that is longer than the list of executed steps has passed some step twice. -/
theorem circles_iff (hp : p.redo.failedStep ∈ g.progress.failedIds) :
    g.Circles p ↔ g.chain? p g.progress.executedCount ≠ none := by
  refine ⟨fun h => h.chain?_ne_none _, fun h => ?_⟩
  have hsome : ∀ k ∈ Finset.range (g.progress.executedCount + 1),
      ∃ failed ∈ g.progress.failedIds, g.chain? p k = some failed := by
    intro k hk
    have hle : k ≤ g.progress.executedCount := Nat.le_of_lt_succ (Finset.mem_range.1 hk)
    have hne : g.chain? p k ≠ none := fun hnone => h (chain?_eq_none_of_le hnone hle)
    obtain ⟨failed, hfailed⟩ := Option.ne_none_iff_exists'.1 hne
    exact ⟨failed, mem_failedIds_of_chain? hp hfailed, hfailed⟩
  have hmaps : ∀ k ∈ Finset.range (g.progress.executedCount + 1),
      g.chain? p k ∈ (g.progress.failedIds.map some).toFinset := by
    intro k hk
    obtain ⟨failed, hmem, hfailed⟩ := hsome k hk
    rw [hfailed, List.mem_toFinset]
    exact List.mem_map_of_mem hmem
  have hcard : (g.progress.failedIds.map some).toFinset.card <
      (Finset.range (g.progress.executedCount + 1)).card := by
    have hsteps := List.toFinset_card_le (g.progress.failedIds.map some)
    have hcount := Progress.length_failures_le g.progress
    rw [List.length_map, Progress.failedIds, List.length_map] at hsteps
    rw [Finset.card_range]
    exact Nat.lt_succ_of_le (hsteps.trans hcount)
  obtain ⟨i, hi, j, hj, hne, hij⟩ := Finset.exists_ne_map_eq_of_card_lt_of_maps_to hcard hmaps
  obtain ⟨failed, -, hfailed⟩ := hsome i hi
  rcases Nat.lt_or_gt_of_ne hne with hlt | hgt
  · exact ⟨i, j, failed, hlt, hfailed, hij ▸ hfailed⟩
  · exact ⟨j, i, failed, hgt, hij ▸ hfailed, hfailed⟩

/-- Where failed steps have identities of their own, no chain goes round in a circle. -/
theorem not_circles_of_sound (hend : g.plan.onward = none) (hs : g.Sound g.plan.atoms.length)
    (hp : p ∈ g.leftBehind) : ¬g.Circles p := by
  intro h
  obtain ⟨k, -, failed, hfailed, hnext⟩ := chain_ends hend hs hp
  refine h.chain?_ne_none (k + 1) ?_
  rw [chain?, hfailed]
  exact hnext

/-! ## Waves that never stop -/

theorem iterate_repeats_ne_nil (hp : p ∈ q) (h : g.Circles p) (k : Nat) : g.repeats^[k] q ≠ [] := by
  rw [iterate_repeats]
  intro hnil
  have hnone : (g.chain? p k).map _ = none := List.filterMap_eq_nil_iff.1 hnil p hp
  exact h.chain?_ne_none k (Option.map_eq_none_iff.1 hnone)

theorem iterate_repeats_eq_nil_of_not_circles
    (hq : ∀ p ∈ q, p.redo.failedStep ∈ g.progress.failedIds) (h : ∀ p ∈ q, ¬g.Circles p) :
    g.repeats^[g.progress.executedCount] q = [] := by
  rw [iterate_repeats, List.filterMap_eq_nil_iff]
  intro p hp
  have hnone : g.chain? p g.progress.executedCount = none := by
    by_contra hne
    exact h p hp ((circles_iff (hq p hp)).2 hne)
  rw [after?, hnone]
  rfl

theorem le_length_waves (h : ∀ k, g.repeats^[k] q ≠ []) (k : Nat) : k ≤ (g.waves k q).length := by
  induction k generalizing q with
  | zero => exact Nat.zero_le _
  | succ k ih =>
    have hrest : k ≤ (g.waves k (g.repeats q)).length :=
      ih fun i => by
        rw [← Function.iterate_succ_apply]
        exact h (i + 1)
    have hpos : 0 < q.length := List.length_pos_iff.2 (h 0)
    rw [waves, List.length_append]
    omega

/-- Behind as many waves as there are executed steps everything is closed: what still fails goes round
in a circle. -/
theorem dueRepeat?_eq_none (hp : p.redo.failedStep ∈ g.progress.failedIds) {k : Nat}
    (hk : g.progress.executedCount ≤ k) : g.dueRepeat? k p = none := by
  unfold dueRepeat?
  cases hfailed : g.chain? p k with
  | none => rfl
  | some failed =>
    have hcircles : g.Circles p := by
      refine (circles_iff hp).2 fun hnone => ?_
      rw [chain?_eq_none_of_le hnone hk] at hfailed
      cases hfailed
    have hnext := hcircles.chain?_ne_none (k + 1)
    rw [chain?, hfailed, Option.bind_some, nextFailure?] at hnext
    rw [Option.bind_some]
    dsimp only
    cases hres : g.progress.resolve (g.redoAtomId failed) [p.redo.step] with
    | fresh =>
      rw [hres] at hnext
      exact absurd rfl hnext
    | inProgress unmet redo =>
      rw [hres] at hnext
      exact absurd rfl hnext
    | satisfied => rfl
    | closedWithRedo redo => rfl

theorem filterMap_waves_of_le (hq : ∀ p ∈ q, p.redo.failedStep ∈ g.progress.failedIds) {k : Nat}
    (hk : g.progress.executedCount ≤ k) :
    ((g.waves k q).map g.repeatVisit).filterMap g.dueOf? =
      ((g.waves g.progress.executedCount q).map g.repeatVisit).filterMap g.dueOf? := by
  obtain ⟨m, rfl⟩ := Nat.exists_eq_add_of_le hk
  have hnone : ∀ i ∈ (List.range m).map (g.progress.executedCount + ·),
      q.filterMap (g.dueRepeat? i) = [] := by
    intro i hi
    obtain ⟨j, -, rfl⟩ := List.mem_map.1 hi
    rw [List.filterMap_eq_nil_iff]
    exact fun p hp => dueRepeat?_eq_none (hq p hp) (Nat.le_add_right _ _)
  rw [filterMap_waves, filterMap_waves, List.range_add, List.flatMap_append,
    List.flatMap_eq_nil_iff.2 hnone, List.append_nil]

theorem length_filter_opened (vs : List Visit) :
    (vs.filter g.opened).length = (vs.filterMap g.dueOf?).length := by
  rw [← map_due_filter, List.length_map]

/-! ## From a place on -/

/-- The failed steps that wait at a place, and those that the planned atoms behind it leave. -/
def queue (g : Generator) (s : Place) : List Pending :=
  s.pending ++ (g.plannedVisits.drop s.position).flatMap g.left

/-- The place is in a plan with an end, and what waits there did fail. -/
structure Within (g : Generator) (s : Place) : Prop where
  onward : g.plan.onward = none
  position : s.position ≤ g.plan.atoms.length
  failed : ∀ p ∈ s.pending, p.redo.failedStep ∈ g.progress.failedIds

theorem within_start (hend : g.plan.onward = none) : g.Within ⟨0, []⟩ :=
  ⟨hend, Nat.zero_le _, fun _ hp => absurd hp List.not_mem_nil⟩

theorem queue_start : g.queue ⟨0, []⟩ = g.leftBehind := by
  rw [queue, List.drop_zero, List.nil_append, flatMap_plannedVisits]

namespace Within

theorem queue_failed (h : g.Within s) : ∀ p ∈ g.queue s, p.redo.failedStep ∈ g.progress.failedIds := by
  intro p hp
  rcases List.mem_append.1 hp with hp | hp
  · exact h.failed p hp
  · obtain ⟨v, -, hpv⟩ := List.mem_flatMap.1 hp
    exact failedId_of_mem_left hpv

theorem path (h : g.Within s) {us : List Visit} (hp : g.Path s us s') : g.Within s' := by
  refine ⟨h.onward, hp.position_le_length h.onward h.position, ?_⟩
  have hfailed := h.failed
  clear h
  induction hp with
  | nil => exact hfailed
  | @cons s s₁ s' v us hl _ ih =>
    refine ih fun p hp => ?_
    rcases look_cases hl with ⟨r, rest, hr, -, -, rfl⟩ | ⟨-, rfl⟩
    · rcases List.mem_append.1 hp with hp | hp
      · exact hfailed p (hr ▸ List.mem_cons_of_mem _ hp)
      · exact failedId_of_mem_left hp
    · rcases List.mem_append.1 hp with hp | hp
      · exact hfailed p hp
      · exact failedId_of_mem_left hp

/-- Without a circle the whole way comes to the end of the plan. -/
theorem path_way (h : g.Within s) (hq : ∀ p ∈ g.queue s, ¬g.Circles p) :
    g.Path s (g.way s) ⟨g.plan.atoms.length, []⟩ := by
  have hpath := path_finite h.onward s.pending h.position g.progress.executedCount
  have hnil := iterate_repeats_eq_nil_of_not_circles h.queue_failed hq
  rw [queue] at hnil
  rw [hnil] at hpath
  exact hpath

/-- With a circle there is a way without end, and on it no other open atoms than on the whole way. -/
theorem endless (h : g.Within s) (hp : p ∈ g.queue s) (hcircles : g.Circles p) :
    g.Endless ((g.way s).filter g.opened).length s := by
  intro k
  have hpath := path_finite h.onward s.pending h.position (g.progress.executedCount + k)
  refine ⟨_, _, hpath, ?_, ?_⟩
  · have hlen := le_length_waves (iterate_repeats_ne_nil hp hcircles) (g.progress.executedCount + k)
    rw [queue] at hlen
    rw [List.length_append, List.length_map]
    omega
  · have hwaves := filterMap_waves_of_le h.queue_failed (Nat.le_add_right g.progress.executedCount k)
    rw [queue] at hwaves
    rw [length_filter_opened, length_filter_opened, way, List.filterMap_append, hwaves,
      List.filterMap_append]

/-- A search that comes to an open atom is not longer than the whole way: behind that nothing is open,
or nothing at all. -/
theorem length_le_way (h : g.Within s) {us : List Visit} (hp : g.Path s us s')
    (hclosed : ∀ u ∈ us, g.opened u = false) {v : Visit} {s₂ : Place}
    (hl : g.look s' = some (v, s₂)) (hv : g.opened v = true) : us.length ≤ (g.way s).length := by
  by_contra hlong
  have hlt : (g.way s).length < us.length := Nat.lt_of_not_le hlong
  by_cases hq : ∀ p ∈ g.queue s, ¬g.Circles p
  · obtain ⟨ws, rfl, hws⟩ := (h.path_way hq).extends hp hlt.le
    cases hws with
    | nil =>
      rw [List.append_nil] at hlt
      exact Nat.lt_irrefl _ hlt
    | cons hlook _ =>
      rw [look_end h.onward] at hlook
      cases hlook
  · push Not at hq
    obtain ⟨p, hmem, hcircles⟩ := hq
    have hway := path_finite h.onward s.pending h.position g.progress.executedCount
    obtain ⟨ws, rfl, -⟩ := hway.extends hp hlt.le
    have hnil : (g.way s).filter g.opened = [] :=
      filter_opened_of_closed fun u hu => hclosed u (List.mem_append_left _ hu)
    have hendless := h.endless hmem hcircles
    rw [hnil, List.length_nil] at hendless
    have hopen := (hendless.behind (hp.append (.single hl))).1
    rw [List.filter_append, List.length_append, List.filter_cons_of_pos hv, List.length_cons] at hopen
    omega

/-- What a search comes to, it comes to within the turns that generation takes. -/
theorem advance_of_finds (h : g.Within s) {r : Option (Emission × Continuation)}
    (hr : g.Finds (s.at t) r) : g.advance (s.at t) = r := by
  obtain ⟨us, s₁, hp, hclosed, ⟨hnone, rfl⟩ | ⟨v, s₂, hl, hv, rfl⟩⟩ := hr.path
  · exact advance_none hp hclosed hnone t
  · have hlt := Nat.lt_of_le_of_lt (h.length_le_way hp hclosed hl hv) (length_way_lt h.onward s t)
    obtain ⟨n, hn⟩ := Nat.exists_eq_add_of_lt hlt
    rw [advance, hn, Nat.add_assoc, turns_path hp hclosed, turns_opened hl hv]

end Within

/-! ## When searches end -/

theorem Reached.within (hend : g.plan.onward = none) {c : Continuation} (h : g.Reached t c) :
    ∃ s t', c = s.at t' ∧ g.Within s := by
  induction h with
  | start => exact ⟨⟨0, []⟩, t, rfl, within_start hend⟩
  | next _ hf ih =>
    obtain ⟨s, t', rfl, hs⟩ := ih
    obtain ⟨us, s₁, hp, -, ⟨-, hr⟩ | ⟨v, s₂, hl, -, hr⟩⟩ := hf.path
    · cases hr
    · cases hr
      exact ⟨s₂, _, rfl, hs.path (hp.append (.single hl))⟩

theorem advance_of_reached (hend : g.plan.onward = none) {c : Continuation} (h : g.Reached t c)
    {r : Option (Emission × Continuation)} (hr : g.Finds c r) : g.advance c = r := by
  obtain ⟨s, t', rfl, hs⟩ := h.within hend
  exact hs.advance_of_finds hr

theorem take_of_lists (hend : g.plan.onward = none) {c : Continuation} (hc : g.Reached t c)
    {es : List Emission} (h : g.Lists c es) {n : Nat} (hn : es.length ≤ n) : (g.take n c).1 = es := by
  induction h generalizing n with
  | nil hf => rw [take_succ_none (advance_of_reached hend hc hf)]
  | cons hf _ ih =>
    cases n with
    | zero => cases hn
    | succ n =>
      rw [take_succ_some (advance_of_reached hend hc hf)]
      exact congrArg _ (ih (hc.next hf) (Nat.le_of_succ_le_succ hn))

theorem lists_way (hend : g.plan.onward = none) (h : ∀ p ∈ g.leftBehind, ¬g.Circles p)
    (t : TelescopeState) :
    g.Lists (.start t) (g.price t ((g.way ⟨0, []⟩).filter g.opened)) := by
  have hway := (within_start hend).path_way (queue_start (g := g) ▸ h)
  exact lists_of_path hway (look_end hend) t

theorem endless_start (hend : g.plan.onward = none) (hp : p ∈ g.leftBehind) (h : g.Circles p) :
    g.Endless (g.duePlanned ++ g.dueRepeated).length ⟨0, []⟩ := by
  have hendless := (within_start hend).endless (queue_start (g := g) ▸ hp) h
  rwa [length_filter_opened, filterMap_way] at hendless

theorem not_circles_of_lists (hend : g.plan.onward = none) {es : List Emission}
    (h : g.Lists (.start t) es) : ∀ p ∈ g.leftBehind, ¬g.Circles p := by
  intro p hp hcircles
  have hle := (endless_start hend hp hcircles).le_of_searches (s := ⟨0, []⟩)
    (h.searches ((g.duePlanned ++ g.dueRepeated).length + 1))
  omega

/-- What searches come to on a plan with an end is what remains of it. -/
theorem remaining_of_lists (hend : g.plan.onward = none) {es : List Emission}
    (h : g.Lists (.start t) es) : g.remaining t = es.map (·.atom) := by
  have hprice := h.unique (lists_way hend (not_circles_of_lists hend h) t)
  have hlen : es.length ≤ g.enough (.start t) := by
    rw [hprice, length_price]
    exact (List.length_filter_le _ _).trans (length_way_lt hend ⟨0, []⟩ t).le
  have htake := take_of_lists hend .start h hlen
  rw [remaining, AtomPlan.isUnbounded, hend]
  show (g.take (g.enough (.start t)) (.start t)).1.map (·.atom) = _
  rw [htake]

/-- When searches end on a plan with an end, whatever was recorded.  They come to the end of the plan
exactly when no chain of repetitions goes round in a circle; where one does, the searches for the atoms
that are due come to them and the next goes on for ever.  The next atom takes two searches, with `limit`
atoms behind it `limit + 2`.  What searches come to is what generation yields. -/
theorem lists_iff_not_circles (g : Generator) (t : TelescopeState) (hend : g.plan.onward = none) :
    ((∃ es, g.Lists (.start t) es) ↔ ∀ p ∈ g.leftBehind, ¬g.Circles p) ∧
    (∀ n, g.Searches n (.start t) ↔
      n ≤ (g.duePlanned ++ g.dueRepeated).length ∨ ∀ p ∈ g.leftBehind, ¬g.Circles p) ∧
    (∀ c, g.Reached t c → ∀ r, g.Finds c r → g.advance c = r) ∧
    (∀ es, g.Lists (.start t) es → g.remaining t = es.map (·.atom)) := by
  have hsearches : ∀ n, g.Searches n (.start t) →
      n ≤ (g.duePlanned ++ g.dueRepeated).length ∨ ∀ p ∈ g.leftBehind, ¬g.Circles p := by
    intro n hn
    by_cases hq : ∀ p ∈ g.leftBehind, ¬g.Circles p
    · exact .inr hq
    · push Not at hq
      obtain ⟨p, hp, hcircles⟩ := hq
      exact .inl ((endless_start hend hp hcircles).le_of_searches (s := ⟨0, []⟩) hn)
  refine ⟨⟨fun ⟨_, hes⟩ => not_circles_of_lists hend hes, fun hq => ⟨_, lists_way hend hq t⟩⟩,
    ?_, ?_, ?_⟩
  · intro n
    refine ⟨hsearches n, ?_⟩
    rintro (hn | hq)
    · have hway := path_finite hend [] (Nat.zero_le g.plan.atoms.length) g.progress.executedCount
      rw [← filterMap_way, ← length_filter_opened] at hn
      exact searches_of_path hway hn t
    · exact (lists_way hend hq t).searches n
  · intro c hc r hr
    exact advance_of_reached hend hc hr
  · intro es hes
    exact remaining_of_lists hend hes

/-! ## A failure that was recorded under its own repetition -/

/-- A step failed, and the atom that repeats it was recorded with the same failed step. -/
def circleHistory : History :=
  let atom := (AtomKey.planned "o" .science 0).id
  let failed := (StepKey.planned atom 0).id
  let record := sampleRecord failed (sampleStep 0) .fail
  ⟨[⟨atom, "visit", .science, [record]⟩,
    ⟨(AtomKey.repeated "o" .science failed).id, "visit", .science, [record]⟩]⟩

def circleGenerator : Generator where
  observation := "o"
  sequence := .science
  plan := .finite [⟨none, .science, [sampleStep 0]⟩]
  progress := .ofHistory circleHistory .science .allVisits
  costs := .standard

/-- Nothing is due, and not even the first search comes to an end. -/
theorem not_searches_circle :
    circleGenerator.plan.onward = none ∧
    (circleGenerator.duePlanned ++ circleGenerator.dueRepeated).length = 0 ∧
    (¬∃ es, circleGenerator.Lists (.start .initial) es) ∧
    ¬circleGenerator.Searches 1 (.start .initial) := by
  let failed := (StepKey.planned (AtomKey.planned "o" .science 0).id 0).id
  let p : Pending := ⟨⟨failed, sampleStep 0⟩, .science⟩
  have hp : p ∈ circleGenerator.leftBehind := by decide +kernel
  have hcircles : circleGenerator.Circles p :=
    ⟨0, 1, failed, Nat.zero_lt_one, rfl, by decide +kernel⟩
  have hdue : (circleGenerator.duePlanned ++ circleGenerator.dueRepeated).length = 0 := by
    decide +kernel
  obtain ⟨hlists, hsearches, -, -⟩ := lists_iff_not_circles circleGenerator .initial rfl
  refine ⟨rfl, hdue, ?_, ?_⟩
  · intro h
    exact hlists.1 h p hp hcircles
  · intro h
    rcases (hsearches 1).1 h with hle | hq
    · omega
    · exact hq p hp hcircles

end Generator
end Observing
