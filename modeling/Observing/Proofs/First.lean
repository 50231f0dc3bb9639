import Observing.Proofs.Handout

/-!
# The first open atom

What generation yields first is the first open atom on its way through the plan.  Executing steps of
it changes nothing in front of it, and when it is closed by that, another atom comes first.

* `Generator.First`        an atom is the first open one;
* `First.recorded_lt`      it stays the first as long as planned steps of it are not met;
* `First.ne_of_recorded`   another atom comes first when they are.
-/

namespace Observing
namespace Generator

variable {g : Generator}

/-- An atom is the first open one on the way through the plan: the visits before it, the place where
it is looked at, and the place behind it. -/
structure First (g : Generator) (us : List Visit) (s : Place) (v : Visit) (next : Place) : Prop where
  path : g.Path ⟨0, []⟩ us s
  closed : ∀ u ∈ us, g.opened u = false
  look : g.look s = some (v, next)
  opened : g.opened v = true

theorem first_of_advance {t : TelescopeState} {e : Emission} {c : Continuation}
    (h : g.advance (.start t) = some (e, c)) : ∃ us s v next, g.First us s v next ∧
      e = g.emission t v ∧ c = next.at (g.estimates t v).2 := by
  obtain ⟨us, s, v, next, hp, hclosed, hl, hv, he, hc⟩ := turns_some (s := ⟨0, []⟩) h
  exact ⟨us, s, v, next, ⟨hp, hclosed, hl, hv⟩, he, hc⟩

namespace First

variable {us : List Visit} {s next : Place} {v : Visit}

theorem path_next (h : g.First us s v next) : g.Path ⟨0, []⟩ (us ++ [v]) next :=
  h.path.append (.single h.look)

theorem filter_opened (h : g.First us s v next) : (us ++ [v]).filter g.opened = [v] := by
  rw [List.filter_append, filter_opened_of_closed h.closed, List.filter_cons_of_pos h.opened]
  rfl

theorem advance (h : g.First us s v next) (hprompt : g.Prompt ⟨0, []⟩) (t : TelescopeState) :
    g.advance (.start t) = some (g.emission t v, next.at (g.estimates t v).2) :=
  advance_opened h.path h.closed h.look h.opened hprompt t

theorem seen (h : g.First us s v next) (hs : g.Sound (g.reach 1)) (hn : g.progress.failedIds.Nodup) :
    next.position ≤ g.reach 1 ∧ g.Seen (us ++ [v]) next := by
  have hle := h.path_next.position_le_reach hs hn fun _ => by
    rw [h.filter_opened, List.length_singleton]
  exact ⟨hle, h.path_next.seen hs hn (seen_start g) hle⟩

theorem ne (h : g.First us s v next) (hs : g.Sound (g.reach 1)) (hn : g.progress.failedIds.Nodup)
    {u : Visit} (hu : u ∈ us) : u.key.id ≠ v.key.id := by
  obtain ⟨hle, hseen⟩ := h.seen hs hn
  have hids := hseen.nodup_ids (hs.mono hle)
  rw [List.map_append, List.nodup_append] at hids
  exact hids.2.2 _ (List.mem_map_of_mem hu) _ List.mem_cons_self

/-- A way over closed atoms does not pass the first open one. -/
theorem prefix_of_closed (h : g.First us s v next) {ws : List Visit} {r : Place}
    (hp : g.Path ⟨0, []⟩ ws r) (hclosed : ∀ w ∈ ws, g.opened w = false) : ws <+: us := by
  rcases Nat.lt_or_ge us.length ws.length with hlt | hle
  · exfalso
    obtain ⟨rest, hws, -⟩ := h.path_next.extends hp (by rw [List.length_append]; exact hlt)
    have hv := hclosed v (by rw [hws]; simp)
    rw [h.opened] at hv
    cases hv
  · obtain ⟨rest, hus, -⟩ := hp.extends h.path hle
    exact ⟨rest, hus.symm⟩

/-! ## The first open atom is executed -/

variable {es : List ExecutedStep} {k : Nat}

theorem left_recorded (h : g.First us s v next) (hs : g.Sound (g.reach 1))
    (hn : g.progress.failedIds.Nodup) {u : Visit} (hu : u ∈ us) :
    (g.recorded v.key.id es).left u = g.left u := by
  rw [left, resolution_recorded_of_ne (h.ne hs hn hu), left]

theorem path_recorded (h : g.First us s v next) (hs : g.Sound (g.reach 1))
    (hn : g.progress.failedIds.Nodup) : (g.recorded v.key.id es).Path ⟨0, []⟩ us s :=
  h.path.recorded fun _ hu => h.left_recorded hs hn hu

theorem closed_recorded (h : g.First us s v next) (hs : g.Sound (g.reach 1))
    (hn : g.progress.failedIds.Nodup) : ∀ u ∈ us, (g.recorded v.key.id es).opened u = false := by
  intro u hu
  rw [Generator.opened, resolution_recorded_of_ne (h.ne hs hn hu)]
  exact h.closed u hu

/-- The first open atom stays the first as long as planned steps of it are not met. -/
theorem recorded_lt (h : g.First us s v next) (hs : g.Sound (g.reach 1))
    (hn : g.progress.failedIds.Nodup)
    (hes : List.Forall₂ (fun e x => ExecutedStep.Does e x.2) es ((g.todo v).take k))
    (hk : k < (g.tally v).unmet.length) : (g.recorded v.key.id es).First us s v next := by
  have hv : (g.recorded v.key.id es).opened v = true := by
    rw [Generator.opened, resolution_executed_lt h.opened hes hk]
    rfl
  refine ⟨h.path_recorded hs hn, h.closed_recorded hs hn, look_recorded h.look ?_, hv⟩
  rw [left_of_opened hv, left_of_opened h.opened]

/-- When all planned steps of it are met, another atom comes first. -/
theorem ne_of_recorded (h : g.First us s v next) (hs : g.Sound (g.reach 2))
    (hn : g.progress.failedIds.Nodup)
    (hes : List.Forall₂ (fun e x => ExecutedStep.Does e x.2) es ((g.todo v).take k))
    (hk : (g.tally v).unmet.length ≤ k) {us' : List Visit} {s' next' : Place} {v' : Visit}
    (h' : (g.recorded v.key.id es).First us' s' v' next') : v'.key.id ≠ v.key.id := by
  have hs₁ : g.Sound (g.reach 1) := hs.mono (reach_mono (Nat.le_succ 1))
  have hclosed := opened_executed_ge h.opened hes hk
  obtain ⟨⟨u, ahead⟩, hahead, he⟩ := Option.map_eq_some_iff.1 h.look
  cases he
  have hlook : (g.recorded v.key.id es).look s =
      some (v, ⟨ahead.position, ahead.pending ++ (g.recorded v.key.id es).left v⟩) := by
    rw [Generator.look, ahead_recorded, hahead]
    rfl
  have hbefore : (g.recorded v.key.id es).Path ⟨0, []⟩ us s := h.path_recorded hs₁ hn
  have hpath := hbefore.append (.single hlook)
  have hall : ∀ u ∈ us ++ [v], (g.recorded v.key.id es).opened u = false := by
    intro u hu
    rcases List.mem_append.1 hu with hu | hu
    · exact h.closed_recorded hs₁ hn u hu
    · rw [List.mem_singleton.1 hu]
      exact hclosed
  have hmem : v ∈ us' := (h'.prefix_of_closed hpath hall).subset (by simp)
  have hpassed := passed_of_does hes
  exact (h'.ne (hs.recorded_reach hpassed) (nodup_recorded hn hpassed) hmem).symm

end First
end Generator
end Observing
