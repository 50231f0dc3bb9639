import Observing.Proofs.Waves

/-!
# Every atom is looked at once

On the way through a plan no atom is looked at twice, and no failed step waits twice.  So a path does
not go far behind its open atoms: each closed one was recorded.

* `Generator.Seen`      what holds of the visits made so far;
* `Seen.look`           the next look keeps it;
* `Path.seen`           so it holds along every path;
* `Seen.nodup_ids`      the atoms looked at have identities of their own;
* `Seen.length_closed_le`, `Seen.position_le`   bounds on the way made.
-/

namespace Observing

/-- The visit is of a planned atom. -/
def Visit.isPlanned (v : Visit) : Bool :=
  match v.key with
  | .planned _ _ _ => true
  | .repeated _ _ _ => false

namespace Generator

variable {g : Generator} {n : Nat}

/-- The places of the atoms looked at, and of those that wait. -/
def seenKeys (g : Generator) (us : List Visit) (s : Place) : List AtomKey :=
  us.map (·.key) ++ s.pending.map fun p => (g.repeatVisit p).key

/-- What holds when the given visits led to a place. -/
structure Seen (g : Generator) (us : List Visit) (s : Place) : Prop where
  keys : ∀ k ∈ g.seenKeys us s, k ∈ g.atomKeys s.position
  nodup : (g.seenKeys us s).Nodup
  owned : ∀ f, .repeated g.observation g.sequence f ∈ g.seenKeys us s →
    ∃ u ∈ us, (u.key.id, f) ∈ g.progress.failures
  count : (us.filter (·.isPlanned)).length = s.position

theorem seen_start (g : Generator) : g.Seen [] ⟨0, []⟩ where
  keys := fun k hk => by cases hk
  nodup := List.nodup_nil
  owned := fun f hf => by cases hf
  count := rfl

theorem atomKeys_mono {m : Nat} (h : m ≤ n) : g.atomKeys m ⊆ g.atomKeys n := by
  intro k hk
  rcases List.mem_append.1 hk with hk | hk
  · obtain ⟨i, hi, rfl⟩ := List.mem_map.1 hk
    exact planned_mem_atomKeys (Nat.lt_of_lt_of_le (List.mem_range.1 hi) h)
  · exact List.mem_append_right _ hk

theorem Sound.mono {m : Nat} (hs : g.Sound n) (h : m ≤ n) : g.Sound m :=
  ⟨hs.apart.mono (atomKeys_mono h), hs.owner⟩

/-! ## One look more -/

theorem nodup_keys_left (hn : g.progress.failedIds.Nodup) (v : Visit) :
    ((g.left v).map fun p => (g.repeatVisit p).key).Nodup := by
  have hinj : Function.Injective (AtomKey.repeated g.observation g.sequence) := by
    intro f k h
    cases h
    rfl
  have hmap := (nodup_left hn v).map hinj
  rw [List.map_map] at hmap
  exact hmap

theorem Seen.disjoint_left {us : List Visit} {s : Place} (h : g.Seen us s) (hs : g.Sound n)
    (hle : s.position ≤ n) {v : Visit} (hv : v.key ∈ g.atomKeys n) (hnew : v.key ∉ us.map (·.key))
    {p : Pending} (hp : p ∈ g.left v) : (g.repeatVisit p).key ∉ g.seenKeys us s := by
  intro hmem
  obtain ⟨u, hu, hown⟩ := h.owned _ hmem
  have hid := hs.owner _ _ _ hown (failure_of_mem_left hp)
  have hukey : u.key ∈ g.atomKeys n :=
    atomKeys_mono hle (h.keys _ (List.mem_append_left _ (List.mem_map_of_mem hu)))
  exact hnew (hs.apart _ hukey _ hv hid ▸ List.mem_map_of_mem hu)

/-- The places of the failed steps that an atom leaves behind. -/
def leftKeys (g : Generator) (v : Visit) : List AtomKey :=
  (g.left v).map fun p => (g.repeatVisit p).key

theorem leftKeys_subset (v : Visit) : g.leftKeys v ⊆ g.atomKeys n := by
  intro k hk
  obtain ⟨p, hp, rfl⟩ := List.mem_map.1 hk
  exact repeated_mem_atomKeys (failedId_of_mem_left hp)

theorem Seen.owned_append {us : List Visit} {s : Place} (h : g.Seen us s) (v : Visit) (f : StepId)
    (hf : .repeated g.observation g.sequence f ∈ g.seenKeys us s ++ g.leftKeys v) :
    ∃ u ∈ us ++ [v], (u.key.id, f) ∈ g.progress.failures := by
  rcases List.mem_append.1 hf with hf | hf
  · obtain ⟨u, hu, hown⟩ := h.owned f hf
    exact ⟨u, List.mem_append_left _ hu, hown⟩
  · obtain ⟨p, hp, he⟩ := List.mem_map.1 hf
    cases he
    exact ⟨v, List.mem_append_right _ List.mem_cons_self, failure_of_mem_left hp⟩

theorem Seen.nodup_append {us : List Visit} {s : Place} (h : g.Seen us s) (hs : g.Sound n)
    (hn : g.progress.failedIds.Nodup) (hle : s.position ≤ n) {v : Visit}
    (hv : v.key ∈ g.atomKeys n) (hnew : v.key ∉ us.map (·.key)) :
    (g.seenKeys us s ++ g.leftKeys v).Nodup := by
  refine List.nodup_append.2 ⟨h.nodup, nodup_keys_left hn v, ?_⟩
  intro k hk l hl hkl
  obtain ⟨p, hp, rfl⟩ := List.mem_map.1 hl
  exact h.disjoint_left hs hle hv hnew hp (hkl ▸ hk)

/-- The repetition of a step that waits keeps what holds of the visits: its place was among those seen. -/
theorem Seen.look_repeat {us : List Visit} {s : Place} {p : Pending} {rest : List Pending}
    (h : g.Seen us s) (hs : g.Sound n) (hn : g.progress.failedIds.Nodup) (hle : s.position ≤ n)
    (hq : s.pending = p :: rest) :
    g.Seen (us ++ [g.repeatVisit p]) ⟨s.position, rest ++ g.left (g.repeatVisit p)⟩ := by
  have hsame : g.seenKeys (us ++ [g.repeatVisit p]) ⟨s.position, rest ++ g.left (g.repeatVisit p)⟩ =
      g.seenKeys us s ++ g.leftKeys (g.repeatVisit p) := by
    simp [seenKeys, leftKeys, hq]
  have hmem : (g.repeatVisit p).key ∈ g.seenKeys us s := by
    rw [seenKeys, hq]
    exact List.mem_append_right _ List.mem_cons_self
  have hnew : (g.repeatVisit p).key ∉ us.map (·.key) := by
    have hnodup := h.nodup
    rw [seenKeys, hq, List.map_cons] at hnodup
    exact fun hk => (List.nodup_append.1 hnodup).2.2 _ hk _ List.mem_cons_self rfl
  refine ⟨?_, ?_, ?_, ?_⟩
  · intro k hk
    rw [hsame] at hk
    rcases List.mem_append.1 hk with hk | hk
    · exact h.keys k hk
    · exact leftKeys_subset _ hk
  · rw [hsame]
    exact h.nodup_append hs hn hle (atomKeys_mono hle (h.keys _ hmem)) hnew
  · intro f hf
    rw [hsame] at hf
    exact h.owned_append _ f hf
  · rw [List.filter_append, List.length_append, h.count]
    rfl

/-- A planned atom keeps what holds of the visits: its position was not reached before. -/
theorem Seen.look_planned {us : List Visit} {s : Place} {v : Visit} (h : g.Seen us s)
    (hs : g.Sound n) (hn : g.progress.failedIds.Nodup) (hle : s.position + 1 ≤ n)
    (hv : g.plannedVisit? s.position = some v) :
    g.Seen (us ++ [v]) ⟨s.position + 1, s.pending ++ g.left v⟩ := by
  have hkey := plannedVisit?_key hv
  have hperm : (g.seenKeys (us ++ [v]) ⟨s.position + 1, s.pending ++ g.left v⟩).Perm
      (v.key :: (g.seenKeys us s ++ g.leftKeys v)) := by
    have hsplit : g.seenKeys (us ++ [v]) ⟨s.position + 1, s.pending ++ g.left v⟩ =
        us.map (·.key) ++ v.key ::
          (s.pending.map (fun p => (g.repeatVisit p).key) ++ g.leftKeys v) := by
      simp [seenKeys, leftKeys]
    rw [hsplit, seenKeys, List.append_assoc]
    exact List.perm_middle
  have hfresh : v.key ∉ g.seenKeys us s := by
    intro hk
    rw [hkey] at hk
    rcases List.mem_append.1 (h.keys _ hk) with hk | hk
    · obtain ⟨i, hi, he⟩ := List.mem_map.1 hk
      cases he
      exact Nat.lt_irrefl _ (List.mem_range.1 hi)
    · obtain ⟨f, -, he⟩ := List.mem_map.1 hk
      cases he
  have hvkey : v.key ∈ g.atomKeys (s.position + 1) := by
    rw [hkey]
    exact planned_mem_atomKeys (Nat.lt_succ_self _)
  have hnodup := h.nodup_append hs hn (Nat.le_of_succ_le hle) (atomKeys_mono hle hvkey)
    fun hk => hfresh (List.mem_append_left _ hk)
  refine ⟨?_, ?_, ?_, ?_⟩
  · intro k hk
    rcases List.mem_cons.1 (hperm.subset hk) with rfl | hk
    · exact hvkey
    · rcases List.mem_append.1 hk with hk | hk
      · exact atomKeys_mono (Nat.le_succ _) (h.keys k hk)
      · exact leftKeys_subset _ hk
  · refine hperm.nodup_iff.2 (List.nodup_cons.2 ⟨fun hk => ?_, hnodup⟩)
    rcases List.mem_append.1 hk with hk | hk
    · exact hfresh hk
    · obtain ⟨p, -, he⟩ := List.mem_map.1 hk
      rw [hkey] at he
      cases he
  · intro f hf
    rcases List.mem_cons.1 (hperm.subset hf) with hk | hk
    · rw [hkey] at hk
      cases hk
    · exact h.owned_append v f hk
  · have hplanned : v.isPlanned = true := by
      rw [Visit.isPlanned, hkey]
    rw [List.filter_append, List.length_append, h.count, List.filter_cons_of_pos hplanned]
    rfl

theorem Seen.look {us : List Visit} {s s' : Place} {v : Visit} (h : g.Seen us s) (hs : g.Sound n)
    (hn : g.progress.failedIds.Nodup) (hl : g.look s = some (v, s')) (hle : s'.position ≤ n) :
    g.Seen (us ++ [v]) s' := by
  rcases look_cases hl with ⟨p, rest, hq, -, rfl, rfl⟩ | ⟨hv, rfl⟩
  · exact h.look_repeat hs hn hle hq
  · exact h.look_planned hs hn hle hv

theorem Path.seen (hs : g.Sound n) (hn : g.progress.failedIds.Nodup) {s s' : Place}
    {us vs : List Visit} (hp : g.Path s vs s') (h : g.Seen us s) (hle : s'.position ≤ n) :
    g.Seen (us ++ vs) s' := by
  induction hp generalizing us with
  | nil =>
    rw [List.append_nil]
    exact h
  | @cons s s' s'' v vs hl hp ih =>
    have hv := h.look hs hn hl (hp.position_le.trans hle)
    rw [← List.singleton_append, ← List.append_assoc]
    exact ih hv hle

/-! ## Distinct identities -/

/-- No two visits are of atoms with the same identity. -/
theorem Seen.nodup_ids {us : List Visit} {s : Place} (h : g.Seen us s) (hs : g.Sound s.position) :
    (us.map fun u => u.key.id).Nodup := by
  have hkeys : (us.map (·.key)).Nodup := (List.nodup_append.1 h.nodup).1
  have hmap : (us.map fun u => u.key.id) = (us.map (·.key)).map AtomKey.id := by
    rw [List.map_map]
    rfl
  rw [hmap]
  refine List.Nodup.map_on (fun k hk l hl he => ?_) hkeys
  exact hs.apart k (h.keys k (List.mem_append_left _ hk)) l (h.keys l (List.mem_append_left _ hl)) he

/-! ## The length of the way -/

theorem recorded_of_not_opened {v : Visit} (h : g.opened v = false) :
    v.key.id ∈ g.progress.records.map (·.1) := by
  by_contra hid
  have hnone : g.progress.executed? v.key.id = none := by
    rw [Progress.executed?_eq_none_iff]
    intro r hr he
    exact hid (he ▸ List.mem_map_of_mem hr)
  rw [opened, resolution, (Progress.resolve_eq_fresh_iff _ _ _).2 hnone] at h
  cases h

/-- No more atoms on the way are closed than were recorded. -/
theorem Seen.length_closed_le {us : List Visit} {s : Place} (h : g.Seen us s)
    (hs : g.Sound s.position) :
    (us.filter fun u => !g.opened u).length ≤ g.progress.records.length := by
  have hids := (h.nodup_ids hs).sublist
    (List.Sublist.map (fun u : Visit => u.key.id) (List.filter_sublist (p := fun u => !g.opened u)))
  have hsub : ((us.filter fun u => !g.opened u).map fun u => u.key.id) ⊆
      g.progress.records.map (·.1) := by
    intro id hid
    obtain ⟨u, hu, rfl⟩ := List.mem_map.1 hid
    exact recorded_of_not_opened (by simpa using List.of_mem_filter hu)
  have hlen := (List.subperm_of_subset hids hsub).length_le
  rw [List.length_map, List.length_map] at hlen
  exact hlen

theorem Seen.position_le {us : List Visit} {s : Place} (h : g.Seen us s)
    (hs : g.Sound s.position) :
    s.position ≤ (us.filter g.opened).length + g.progress.records.length := by
  have hclosed := h.length_closed_le hs
  have hsplit := List.length_eq_length_filter_add (l := us) g.opened
  have hplanned := List.length_filter_le Visit.isPlanned us
  rw [h.count] at hplanned
  omega

end Generator
end Observing
