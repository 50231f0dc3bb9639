import Observing.Proofs.Once

/-!
# Plans without end

A plan that goes on for ever has open atoms without end, for no more atoms are closed than were
recorded.  They are met within a bounded number of positions, and generation has turns enough for each.

* `Generator.reach`        the positions that the first open atoms of a plan lie in;
* `Path.position_le_reach` no more positions are reached before so many open atoms;
* `Path.prompt_of_reach`   generation has enough turns on the way, whether the plan has an end or not;
* `exists_route`           a way to the end or to so many open atoms;
* `take_route`             the atoms on such a way are yielded.
-/

namespace Observing
namespace Generator

variable {g : Generator}

/-- The number of positions in which a plan comes to its end or, if it has none, to more than `m` open
atoms. -/
def reach (g : Generator) (m : Nat) : Nat :=
  if g.plan.isUnbounded then g.progress.records.length + m + 1 else g.plan.atoms.length

theorem reach_endless (h : g.plan.isUnbounded = true) (m : Nat) :
    g.reach m = g.progress.records.length + m + 1 := if_pos h

theorem reach_finite (h : g.plan.isUnbounded = false) (m : Nat) :
    g.reach m = g.plan.atoms.length := if_neg (by simp [h])

theorem reach_mono {m k : Nat} (h : m ≤ k) : g.reach m ≤ g.reach k := by
  unfold reach
  split
  · omega
  · exact Nat.le_refl _

theorem onward_of_finite (h : g.plan.isUnbounded = false) : g.plan.onward = none := by
  simpa [AtomPlan.isUnbounded] using h

/-! ## Looks without end -/

theorem look_endless (h : g.plan.isUnbounded = true) (s : Place) : ∃ v s', g.look s = some (v, s') := by
  have hplanned : ∃ v s', g.lookPlanned s = some (v, s') := by
    obtain ⟨a, ha⟩ : ∃ a, g.plan.get? s.position = some a := by
      unfold AtomPlan.get?
      cases g.plan.atoms[s.position]? with
      | some a => exact ⟨a, rfl⟩
      | none => exact Option.isSome_iff_exists.1 h
    have hv : g.plannedVisit? s.position =
        some ⟨.planned g.observation g.sequence s.position, a⟩ := by rw [plannedVisit?, ha]; rfl
    exact ⟨_, _, by rw [lookPlanned, hv]; rfl⟩
  obtain ⟨position, pending⟩ := s
  cases pending with
  | nil =>
    rw [look_nil]
    exact hplanned
  | cons p rest =>
    have hturn : g.queueTurn position = true := by rw [queueTurn, h, Bool.true_or]
    exact ⟨_, _, look_cons_of_queueTurn hturn p rest⟩

theorem path_endless (h : g.plan.isUnbounded = true) (k : Nat) (s : Place) :
    ∃ vs s', g.Path s vs s' ∧ vs.length = k := by
  induction k generalizing s with
  | zero => exact ⟨[], s, .nil s, rfl⟩
  | succ k ih =>
    obtain ⟨v, s₁, hl⟩ := look_endless h s
    obtain ⟨vs, s', hp, hlen⟩ := ih s₁
    exact ⟨v :: vs, s', .cons hl hp, by rw [List.length_cons, hlen]⟩

theorem look_position_le {s s' : Place} {v : Visit} (h : g.look s = some (v, s')) :
    s'.position ≤ s.position + 1 := by
  rcases look_cases h with ⟨p, rest, -, -, -, rfl⟩ | ⟨-, rfl⟩
  · exact Nat.le_succ _
  · exact Nat.le_refl _

/-! ## The positions reached -/

/-- Before more than `m` open atoms no more positions are reached than there are records, and `m`. -/
theorem Path.position_le_records {m : Nat}
    (hs : g.Sound (g.progress.records.length + m + 1)) (hn : g.progress.failedIds.Nodup)
    {s s' : Place} {us vs : List Visit} (hp : g.Path s vs s') (h : g.Seen us s)
    (hle : s.position ≤ g.progress.records.length + m)
    (hopen : ((us ++ vs).filter g.opened).length ≤ m) :
    s'.position ≤ g.progress.records.length + m := by
  induction hp generalizing us with
  | nil => exact hle
  | @cons s s₁ s' v vs hl _ ih =>
    have hnext : s₁.position ≤ g.progress.records.length + m + 1 :=
      (look_position_le hl).trans (Nat.succ_le_succ hle)
    have hseen := h.look hs hn hl hnext
    have hposition := hseen.position_le (hs.mono hnext)
    have hsplit : us ++ v :: vs = us ++ [v] ++ vs := by
      rw [List.append_assoc, List.singleton_append]
    rw [hsplit] at hopen
    have hprefix : ((us ++ [v]).filter g.opened).length ≤ m := by
      rw [List.filter_append, List.length_append] at hopen
      omega
    exact ih hseen (by omega) hopen

theorem Path.position_le_reach {m : Nat} (hs : g.Sound (g.reach m))
    (hn : g.progress.failedIds.Nodup) {s : Place} {us : List Visit} (hp : g.Path ⟨0, []⟩ us s)
    (hopen : g.plan.isUnbounded = true → (us.filter g.opened).length ≤ m) :
    s.position ≤ g.reach m := by
  cases hend : g.plan.isUnbounded with
  | true =>
    rw [reach_endless hend] at hs ⊢
    exact (hp.position_le_records hs hn (seen_start g) (Nat.zero_le _) (hopen hend)).trans
      (Nat.le_succ _)
  | false =>
    rw [reach_finite hend]
    exact hp.position_le_length (onward_of_finite hend) (Nat.zero_le _)

theorem Path.prompt_of_reach {m : Nat} (hs : g.Sound (g.reach m)) (hn : g.progress.failedIds.Nodup)
    {s : Place} {us : List Visit} (hp : g.Path ⟨0, []⟩ us s)
    (hopen : g.plan.isUnbounded = true → (us.filter g.opened).length ≤ m) : g.Prompt s := by
  cases hend : g.plan.isUnbounded with
  | true =>
    intro vs s' hvs hclosed
    have hsame : (us ++ vs).filter g.opened = us.filter g.opened := by
      rw [List.filter_append, filter_opened_of_closed hclosed, List.append_nil]
    have hway := hp.append hvs
    have hle := hway.position_le_reach hs hn fun h => by rw [hsame]; exact hopen h
    have hseen := hway.seen hs hn (seen_start g) hle
    have hrecords := hseen.length_closed_le (hs.mono hle)
    rw [List.nil_append, List.filter_append, List.length_append, filter_closed hclosed] at hrecords
    have henough : g.progress.records.length < g.enough (s.at .initial) := by
      have hpositions : g.positionsLeft (s.at .initial) =
          g.progress.records.length + g.plan.atoms.length + 1 := if_pos hend
      rw [enough, hpositions]
      omega
    omega
  | false =>
    rw [reach_finite hend] at hs
    exact hp.prompt (onward_of_finite hend) hs

/-! ## Routes -/

theorem exists_path_opened (hend : g.plan.isUnbounded = true) {m : Nat} (hs : g.Sound (g.reach m))
    (hn : g.progress.failedIds.Nodup) {k : Nat} (hk : k ≤ m) :
    ∃ vs s, g.Path ⟨0, []⟩ vs s ∧ (vs.filter g.opened).length = k := by
  induction k with
  | zero => exact ⟨[], ⟨0, []⟩, .nil _, rfl⟩
  | succ k ih =>
    obtain ⟨us, s, hp, hlen⟩ := ih (Nat.le_of_succ_le hk)
    obtain ⟨ws, s', hws, hlong⟩ := path_endless hend (g.progress.records.length + 1) s
    rcases filter_opened_cases g ws with ⟨hnil, hall⟩ | ⟨us', v, ws', rfl, hclosed, hv, -⟩
    · -- more closed atoms than records
      exfalso
      have hsame : (us ++ ws).filter g.opened = us.filter g.opened := by
        rw [List.filter_append, hnil, List.append_nil]
      have hway := hp.append hws
      have hle := hway.position_le_reach hs hn fun _ => by
        rw [hsame, hlen]
        exact Nat.le_of_succ_le hk
      have hrecords := (hway.seen hs hn (seen_start g) hle).length_closed_le (hs.mono hle)
      rw [List.nil_append, List.filter_append, List.length_append, filter_closed hall,
        hlong] at hrecords
      omega
    · obtain ⟨s₁, h₁, h₂⟩ := hws.split
      cases h₂ with
      | @cons _ s₂ _ _ _ hl _ =>
        refine ⟨us ++ (us' ++ [v]), s₂, hp.append (h₁.append (.single hl)), ?_⟩
        rw [List.filter_append, List.filter_append, filter_opened_of_closed hclosed,
          List.filter_cons_of_pos hv, List.length_append, hlen]
        rfl

/-- A way to the end of the plan or to `m` open atoms. -/
theorem exists_route {m : Nat} (hs : g.Sound (g.reach m)) (hn : g.progress.failedIds.Nodup) :
    ∃ vs s, g.Path ⟨0, []⟩ vs s ∧ (g.look s = none ∨ m ≤ (vs.filter g.opened).length) ∧
      (g.plan.isUnbounded = true → (vs.filter g.opened).length ≤ m) := by
  cases hend : g.plan.isUnbounded with
  | true =>
    obtain ⟨vs, s, hp, hlen⟩ := exists_path_opened hend hs hn (Nat.le_refl m)
    exact ⟨vs, s, hp, .inr hlen.ge, fun _ => hlen.le⟩
  | false =>
    rw [reach_finite hend] at hs
    have hfinite := onward_of_finite hend
    have hway := path_way hfinite hs (s := ⟨0, []⟩) (Nat.zero_le _)
      fun p hp => absurd hp List.not_mem_nil
    exact ⟨g.way ⟨0, []⟩, _, hway, .inl (look_end hfinite), fun h => by cases h⟩

theorem take_route {m : Nat} (hs : g.Sound (g.reach m)) (hn : g.progress.failedIds.Nodup)
    {vs : List Visit} {s : Place} (hp : g.Path ⟨0, []⟩ vs s)
    (hdone : g.look s = none ∨ m ≤ (vs.filter g.opened).length)
    (hopen : g.plan.isUnbounded = true → (vs.filter g.opened).length ≤ m) (t : TelescopeState) :
    (g.take m (.start t)).1 = (g.price t (vs.filter g.opened)).take m := by
  refine take_path hp (fun us r hr hpre => hr.prompt_of_reach hs hn fun hend => ?_) hdone t
  exact ((hpre.sublist.filter g.opened).length_le).trans (hopen hend)

end Generator
end Observing
