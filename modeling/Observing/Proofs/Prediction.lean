import Observing.Proofs.Extended

/-!
# The future that was predicted

When all steps of the next atom are executed, what comes then is what was predicted to come behind it:
the same atoms with the same steps, at the same prices.  Generation forgets where it stood and finds
its way again from the history alone, over the same atoms in the same order.

* `First.route`          a long way through the plan goes over the first open atom;
* `take_recorded`        the atoms yielded once the first is done are those that were behind it;
* `generateType_push`    the same for the sequences of an observation.
-/

namespace Observing
namespace Generator

variable {g : Generator} {id : AtomId} {es : List ExecutedStep}

/-! ## The same atoms at the same prices -/

theorem emission_recorded_of_ne {u : Visit} (h : u.key.id ≠ id) (t : TelescopeState) :
    (g.recorded id es).emission t u = g.emission t u ∧
      (g.recorded id es).estimates t u = g.estimates t u := by
  have hresolution : (g.recorded id es).resolution u = g.resolution u := resolution_recorded_of_ne h
  unfold emission stepsOf estimates todo
  rw [hresolution]
  exact ⟨rfl, rfl⟩

theorem price_recorded {us : List Visit} (h : ∀ u ∈ us, u.key.id ≠ id) (t : TelescopeState) :
    (g.recorded id es).price t us = g.price t us := by
  induction us generalizing t with
  | nil => rfl
  | cons u us ih =>
    have hu : (g.recorded id es).emission t u = g.emission t u ∧
        (g.recorded id es).estimates t u = g.estimates t u :=
      emission_recorded_of_ne (h u List.mem_cons_self) t
    rw [price, price, hu.1, hu.2, ih fun w hw => h w (List.mem_cons_of_mem _ hw)]

theorem filter_recorded {us : List Visit} (h : ∀ u ∈ us, u.key.id ≠ id) :
    us.filter (g.recorded id es).opened = us.filter g.opened := by
  refine List.filter_congr fun u hu => ?_
  rw [opened, resolution_recorded_of_ne (h u hu), opened]

/-! ## One way for both -/

variable {us : List Visit} {s next : Place} {v : Visit}

theorem First.route (h : g.First us s v next) {vs : List Visit} {r : Place}
    (hp : g.Path ⟨0, []⟩ vs r) (hdone : g.look r = none ∨ 0 < (vs.filter g.opened).length) :
    ∃ ws, vs = us ++ v :: ws ∧ g.Path next ws r := by
  rcases Nat.lt_or_ge us.length vs.length with hlt | hle
  · obtain ⟨ws, hws, hrest⟩ := h.path_next.extends hp (by rw [List.length_append]; exact hlt)
    exact ⟨ws, by rw [hws, List.append_assoc, List.singleton_append], hrest⟩
  · exfalso
    obtain ⟨rest, hus, hrest⟩ := hp.extends h.path hle
    rcases hdone with hend | hopen
    · cases hrest with
      | nil =>
        rw [h.look] at hend
        cases hend
      | cons hl _ =>
        rw [hend] at hl
        cases hl
    · have hclosed : vs.filter g.opened = [] :=
        filter_opened_of_closed fun u hu => h.closed u (hus ▸ List.mem_append_left _ hu)
      rw [hclosed] at hopen
      exact Nat.lt_irrefl _ hopen

theorem First.left_executed (h : g.First us s v next)
    (hes : List.Forall₂ (fun e x => ExecutedStep.Does e x.2) es (g.todo v)) :
    (g.recorded v.key.id es).left v = g.left v := by
  rw [left_of_opened h.opened, left, resolution_executed_all h.opened hes]
  rfl

/-- Once the first open atom is done, generation yields what was to come behind it. -/
theorem take_recorded (h : g.First us s v next) {n : Nat} (hs : g.Sound (g.reach (n + 1)))
    (hn : g.progress.failedIds.Nodup)
    (hes : List.Forall₂ (fun e x => ExecutedStep.Does e x.2) es (g.todo v)) (t : TelescopeState) :
    ((g.recorded v.key.id es).take n (.start (g.estimates t v).2)).1 =
      (g.take (n + 1) (.start t)).1.tail := by
  obtain ⟨vs, r, hp, hdone, hopen⟩ := exists_route hs hn
  obtain ⟨ws, rfl, -⟩ := h.route hp (hdone.imp_right (Nat.lt_of_lt_of_le n.succ_pos))
  have hpassed := passed_of_does hes
  -- no other atom on the way has the identity of the first open one
  have hle := hp.position_le_reach hs hn hopen
  have hids := (hp.seen hs hn (seen_start g) hle).nodup_ids (hs.mono hle)
  have hne : ∀ u ∈ us ++ ws, u.key.id ≠ v.key.id := by
    intro u hu
    have hperm := (List.perm_middle.map fun u : Visit => u.key.id).nodup_iff.1 hids
    rw [List.map_cons, List.nodup_cons] at hperm
    exact fun he => hperm.1 (he ▸ List.mem_map_of_mem hu)
  have hpath : (g.recorded v.key.id es).Path ⟨0, []⟩ (us ++ v :: ws) r := by
    refine hp.recorded fun u hu => ?_
    rcases List.mem_cons.1 (List.perm_middle.subset hu) with rfl | hu
    · exact h.left_executed hes
    · rw [left, resolution_recorded_of_ne (hne u hu), left]
  -- the open atoms: the first, and behind it those that are open once it is done
  have hfilter : (us ++ v :: ws).filter g.opened = v :: ws.filter g.opened := by
    rw [List.filter_append, filter_opened_of_closed h.closed, List.filter_cons_of_pos h.opened,
      List.nil_append]
  have hclosed : (g.recorded v.key.id es).opened v = false := by
    rw [opened, resolution_executed_all h.opened hes]
    rfl
  have hfilter' : (us ++ v :: ws).filter (g.recorded v.key.id es).opened = ws.filter g.opened := by
    rw [List.filter_append, filter_recorded fun u hu => hne u (List.mem_append_left _ hu),
      filter_opened_of_closed h.closed, List.nil_append, List.filter_cons_of_neg (by simp [hclosed]),
      filter_recorded fun u hu => hne u (List.mem_append_right _ hu)]
  rw [hfilter] at hdone hopen
  have htake := take_route hs hn hp (by rw [hfilter]; exact hdone) (by rw [hfilter]; exact hopen) t
  have htake' := take_route (m := n) (hs.recorded_reach hpassed) (nodup_recorded hn hpassed) hpath
    (by
      rw [hfilter']
      exact hdone.imp look_recorded_none Nat.le_of_succ_le_succ)
    (by
      rw [hfilter']
      exact fun hend => Nat.le_of_succ_le_succ (hopen hend))
    (g.estimates t v).2
  have hprice : (g.recorded v.key.id es).price (g.estimates t v).2 (ws.filter g.opened) =
      g.price (g.estimates t v).2 (ws.filter g.opened) :=
    price_recorded (fun u hu => hne u (List.mem_append_right _ (List.mem_of_mem_filter hu))) _
  rw [htake, htake', hfilter, hfilter', hprice, price, List.take_succ_cons, List.tail_cons]

end Generator

namespace Engine

/-- Once all steps of the next atom are recorded, under its identity and in the visit of the last
record, generation yields the atoms that were to come behind it, and reports the plan as done exactly
when there were none. -/
theorem generateType_push (e : Engine) (o : Observation) (calculator : Calculator)
    (s : Specification) (sequence : SequenceType) (limit : Nat) (w : GeneratedSequence) (a : Atom)
    (visit : String) (rs : List StepRecord) (hs : e.specification o calculator = .ok s)
    (hw : e.generateType o (.ofSpecification s) sequence (limit + 1) = some w)
    (ha : w.nextAtom = some a) (hd : o.history.DistinctFailures)
    (hvisit : ∀ v, o.history.latestVisit = some v → visit = v)
    (hrs : List.Forall₂ StepRecord.Carries rs a.steps)
    (hapart : AtomKey.Apart (e.atomKeys o s sequence (limit + 3))) :
    e.specification (o.push ⟨a.id, visit, sequence, rs⟩) calculator = .ok s ∧
    ∃ w', e.generateType (o.push ⟨a.id, visit, sequence, rs⟩) (.ofSpecification s) sequence limit =
        some w' ∧
      w'.atoms = w.atoms.tail ∧ w'.hasMore = w.hasMore ∧
      (w'.state = .exhausted ↔ w.possibleFuture = []) := by
  refine ⟨hs, ?_⟩
  obtain ⟨plan, hplan, rfl⟩ := Option.map_eq_some_iff.1 hw
  obtain ⟨g, hg⟩ : ∃ g, g = e.generator o sequence plan := ⟨_, rfl⟩
  obtain ⟨t, ht⟩ : ∃ t, t = telescope o sequence := ⟨_, rfl⟩
  have hsound : g.Sound (g.reach (limit + 3)) := hg ▸ sound hplan hd hapart
  have hn : g.progress.failedIds.Nodup := hg ▸ nodup_failedIds hd
  rw [← hg, ← ht] at ha ⊢
  -- the next atom is the first open one
  have hatoms : (g.window t (limit + 1)).atoms = a :: (g.window t (limit + 1)).possibleFuture := by
    rw [GeneratedSequence.atoms, ha]
    rfl
  obtain ⟨us, place, v, next, hfirst, rfl⟩ : ∃ us place v next, g.First us place v next ∧
      a = (g.emission t v).atom := by
    unfold Generator.window at ha
    cases hadvance : g.advance (.start t) with
    | none =>
      rw [hadvance] at ha
      cases ha
    | some r =>
      obtain ⟨emission, c⟩ := r
      rw [hadvance] at ha
      obtain ⟨us, place, v, next, hfirst, rfl, -⟩ := Generator.first_of_advance hadvance
      exact ⟨us, place, v, next, hfirst, (Option.some.inj ha).symm⟩
  -- what the record amounts to
  obtain ⟨hdoes, hbehind⟩ := Generator.does_of_carries_all hrs
  have hexecuted := executed_of_carries hrs
  have hcounts : AtomRecord.Counts ⟨v.key.id, visit, sequence, rs⟩ o.history
      (.ofSequence sequence) := fun _ => hvisit
  have hwindow : e.generateType (o.push ⟨v.key.id, visit, sequence, rs⟩) (.ofSpecification s)
      sequence limit =
      some ((g.recorded v.key.id (rs.map .ofRecord)).window (g.estimates t v).2 limit) := by
    rw [generateType, hplan, Option.map_some, generator_push hcounts hexecuted,
      telescope_push hcounts hexecuted, ← hg, ← ht, hbehind]
  have htake : ∀ k, k ≤ limit + 2 →
      ((g.recorded v.key.id (rs.map .ofRecord)).take k (.start (g.estimates t v).2)).1 =
        (g.take (k + 1) (.start t)).1.tail := fun k hk =>
    Generator.take_recorded hfirst
      (hsound.mono (Generator.reach_mono (Nat.succ_le_succ hk))) hn hdoes t
  have hnext : ((g.recorded v.key.id (rs.map .ofRecord)).window (g.estimates t v).2 limit).atoms =
      (g.window t (limit + 1)).atoms.tail := by
    rw [Generator.window_atoms, Generator.window_atoms, htake _ (Nat.le_succ _), List.map_tail]
  refine ⟨_, hwindow, hnext, ?_, ?_⟩
  · rw [Generator.window_hasMore, Generator.window_hasMore, htake _ (Nat.le_refl _),
      List.length_tail, decide_eq_decide, Nat.add_right_comm limit 1 2]
    omega
  · rw [← Generator.window_atoms_eq_nil, hnext, hatoms, List.tail_cons]

/-- A begun atom, then its repetition: once the atom is done, nothing remains. -/
theorem generateType_push_resumed :
    ∃ w', generateType default ((Short.observation Short.failed).push
        ⟨Short.resumed.id, "v", .science, Short.resumed.steps.map (·.finished .pass)⟩)
        (.ofSpecification Short.specification) .science 0 = some w' ∧ w'.state = .exhausted := by
  have hw : ∃ w, generateType default (Short.observation Short.failed)
      (.ofSpecification Short.specification) .science 1 = some w ∧
      w.nextAtom = some Short.resumed ∧ w.possibleFuture = [] := by
    refine ⟨_, rfl, ?_, ?_⟩
    · decide +kernel
    · decide +kernel
  obtain ⟨w, hw, ha, hfuture⟩ := hw
  obtain ⟨-, w', hw', -, -, hstate⟩ := generateType_push default (Short.observation Short.failed)
    Short.calculator Short.specification .science 0 w Short.resumed "v" _ (by decide +kernel) hw ha
    (by decide +kernel) (by decide +kernel) (carries_finished Short.resumed.steps)
    (by decide +kernel)
  exact ⟨w', hw', hstate.2 hfuture⟩

end Engine
end Observing
