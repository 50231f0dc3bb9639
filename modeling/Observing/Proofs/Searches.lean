import Observing.Proofs.Endless

/-!
# Searches

A search for the next open atom takes turn after turn, and closed atoms may put new failed steps in
the queue that it works off.  Nothing bounds the number of its turns from the outside, so that it
need not come to anything.

* `Generator.Finds`      what a search comes to, in any number of turns;
* `Generator.Searches`   a number of searches, one after another, end;
* `Generator.Lists`      searches, one after another, come to the end of the plan;
* `Finds.path`           a search passes closed atoms until it meets an open one or the end;
* `lists_of_path`, `searches_of_path`   what searches come to along a path;
* `Endless.le_of_searches`   on a way without end no more searches end than there are open atoms;
* `searches_of_sound`    where identities are distinct, every search ends.
-/

namespace Observing
namespace Generator

variable {g : Generator} {s s' : Place} {t : TelescopeState}

/-! ## Searches -/

/-- What a search comes to behind a continuation: an atom and the continuation behind it, or the end of
the plan. -/
inductive Finds (g : Generator) : Continuation → Option (Emission × Continuation) → Prop
  | yield {c next : Continuation} {e : Emission} : g.step c = .yield e next → Finds g c (some (e, next))
  | done {c : Continuation} : g.step c = .done → Finds g c none
  | pass {c next : Continuation} {r : Option (Emission × Continuation)} :
    g.step c = .pass next → Finds g next r → Finds g c r

/-- The first `n` searches, one after another, come to something; there are fewer where the plan is
done. -/
def Searches (g : Generator) : (n : Nat) → Continuation → Prop
  | 0, _ => True
  | n + 1, c => ∃ r, g.Finds c r ∧ ∀ e next, r = some (e, next) → g.Searches n next

/-- Searches, one after another, come to the given atoms and then to the end of the plan. -/
inductive Lists (g : Generator) : Continuation → List Emission → Prop
  | nil {c : Continuation} : g.Finds c none → Lists g c []
  | cons {c next : Continuation} {e : Emission} {es : List Emission} :
    g.Finds c (some (e, next)) → Lists g next es → Lists g c (e :: es)

/-- The continuations that searches come to from the beginning. -/
inductive Reached (g : Generator) (t : TelescopeState) : Continuation → Prop
  | start : Reached g t (.start t)
  | next {c next : Continuation} {e : Emission} :
    Reached g t c → g.Finds c (some (e, next)) → Reached g t next

theorem Finds.unique {c : Continuation} {r r' : Option (Emission × Continuation)}
    (h : g.Finds c r) (h' : g.Finds c r') : r = r' := by
  induction h with
  | yield hs =>
    cases h' with
    | yield hs' => rw [hs] at hs'; cases hs'; rfl
    | done hs' => rw [hs] at hs'; cases hs'
    | pass hs' _ => rw [hs] at hs'; cases hs'
  | done hs =>
    cases h' with
    | yield hs' => rw [hs] at hs'; cases hs'
    | done _ => rfl
    | pass hs' _ => rw [hs] at hs'; cases hs'
  | pass hs _ ih =>
    cases h' with
    | yield hs' => rw [hs] at hs'; cases hs'
    | done hs' => rw [hs] at hs'; cases hs'
    | pass hs' h' => rw [hs] at hs'; cases hs'; exact ih h'

theorem Lists.unique {c : Continuation} {es fs : List Emission} (h : g.Lists c es)
    (h' : g.Lists c fs) : es = fs := by
  induction h generalizing fs with
  | nil hf =>
    cases h' with
    | nil _ => rfl
    | cons hf' _ => cases hf.unique hf'
  | cons hf _ ih =>
    cases h' with
    | nil hf' => cases hf.unique hf'
    | cons hf' h' =>
      cases hf.unique hf'
      rw [ih h']

theorem Lists.searches {c : Continuation} {es : List Emission} (h : g.Lists c es) (n : Nat) :
    g.Searches n c := by
  induction h generalizing n with
  | nil hf =>
    cases n with
    | zero => trivial
    | succ n =>
      refine ⟨none, hf, ?_⟩
      intro e next he
      cases he
  | cons hf _ ih =>
    cases n with
    | zero => trivial
    | succ n =>
      refine ⟨_, hf, ?_⟩
      intro e next he
      cases he
      exact ih n

/-! ## Searches along a path -/

theorem finds_of_look_none (h : g.look s = none) : g.Finds (s.at t) none := by
  refine .done ?_
  rw [step_at, h]
  rfl

theorem finds_of_opened {v : Visit} (hl : g.look s = some (v, s')) (hv : g.opened v = true) :
    g.Finds (s.at t) (some (g.emission t v, s'.at (g.estimates t v).2)) := by
  refine .yield ?_
  rw [step_at, hl, turnOf, if_pos hv]

theorem finds_of_path {us : List Visit} (h : g.Path s us s') (hclosed : ∀ u ∈ us, g.opened u = false)
    {r : Option (Emission × Continuation)} (hr : g.Finds (s'.at t) r) : g.Finds (s.at t) r := by
  induction h with
  | nil => exact hr
  | @cons s s₁ s' u us hl _ ih =>
    have hu : g.opened u = false := hclosed u List.mem_cons_self
    have hstep : g.step (s.at t) = .pass (s₁.at t) := by
      rw [step_at, hl, turnOf, hu]
      rfl
    exact .pass hstep (ih (fun w hw => hclosed w (List.mem_cons_of_mem _ hw)) hr)

/-- A turn at a place: the plan is done, or the atom that is looked at is yielded or passed over. -/
theorem step_cases (s : Place) (t : TelescopeState) :
    (g.look s = none ∧ g.step (s.at t) = .done) ∨
    (∃ v s', g.look s = some (v, s') ∧ g.opened v = true ∧
      g.step (s.at t) = .yield (g.emission t v) (s'.at (g.estimates t v).2)) ∨
    (∃ v s', g.look s = some (v, s') ∧ g.opened v = false ∧ g.step (s.at t) = .pass (s'.at t)) := by
  rw [step_at]
  cases hl : g.look s with
  | none => exact .inl ⟨rfl, rfl⟩
  | some x =>
    obtain ⟨v, s'⟩ := x
    by_cases hv : g.opened v = true
    · exact .inr (.inl ⟨v, s', rfl, hv, if_pos hv⟩)
    · exact .inr (.inr ⟨v, s', rfl, by simpa using hv, if_neg hv⟩)

/-- A search passes closed atoms until it meets an open one or the end of the plan. -/
theorem Finds.path {r : Option (Emission × Continuation)} (h : g.Finds (s.at t) r) :
    ∃ us s₁, g.Path s us s₁ ∧ (∀ u ∈ us, g.opened u = false) ∧
      (g.look s₁ = none ∧ r = none ∨
        ∃ v s₂, g.look s₁ = some (v, s₂) ∧ g.opened v = true ∧
          r = some (g.emission t v, s₂.at (g.estimates t v).2)) := by
  have hnil : ∀ u ∈ ([] : List Visit), g.opened u = false := fun u hu => absurd hu List.not_mem_nil
  generalize hc : s.at t = c at h
  induction h generalizing s with
  | yield hstep =>
    subst hc
    rcases step_cases (g := g) s t with ⟨-, hs⟩ | ⟨v, s₂, hl, hv, hs⟩ | ⟨v, s₂, -, -, hs⟩
    · cases hs.symm.trans hstep
    · cases hs.symm.trans hstep
      exact ⟨[], s, .nil s, hnil, .inr ⟨v, s₂, hl, hv, rfl⟩⟩
    · cases hs.symm.trans hstep
  | done hstep =>
    subst hc
    rcases step_cases (g := g) s t with ⟨hl, -⟩ | ⟨v, s₂, -, -, hs⟩ | ⟨v, s₂, -, -, hs⟩
    · exact ⟨[], s, .nil s, hnil, .inl ⟨hl, rfl⟩⟩
    · cases hs.symm.trans hstep
    · cases hs.symm.trans hstep
  | pass hstep _ ih =>
    subst hc
    rcases step_cases (g := g) s t with ⟨-, hs⟩ | ⟨v, s₂, -, -, hs⟩ | ⟨v, s₂, hl, hv, hs⟩
    · cases hs.symm.trans hstep
    · cases hs.symm.trans hstep
    · cases hs.symm.trans hstep
      obtain ⟨us, s₁, hp, hclosed, hend⟩ := ih rfl
      refine ⟨v :: us, s₁, .cons hl hp, ?_, hend⟩
      intro u hu
      rcases List.mem_cons.1 hu with rfl | hu
      · exact hv
      · exact hclosed u hu

/-- Along a path to the end of the plan the open atoms are found, and no others. -/
theorem lists_of_path {vs : List Visit} (h : g.Path s vs s') (hend : g.look s' = none)
    (t : TelescopeState) : g.Lists (s.at t) (g.price t (vs.filter g.opened)) := by
  generalize hk : (vs.filter g.opened).length = k
  induction k generalizing s vs t with
  | zero =>
    have hnil : vs.filter g.opened = [] := List.length_eq_zero_iff.1 hk
    have hclosed : ∀ v ∈ vs, g.opened v = false := by
      intro v hv
      simpa using List.filter_eq_nil_iff.1 hnil v hv
    rw [hnil]
    exact .nil (finds_of_path h hclosed (finds_of_look_none hend))
  | succ k ih =>
    rcases filter_opened_cases g vs with ⟨hnil, -⟩ | ⟨us, v, ws, rfl, hus, hv, hf⟩
    · rw [hnil] at hk
      cases hk
    · obtain ⟨s₁, h₁, h₂⟩ := h.split
      cases h₂ with
      | @cons _ s₂ _ _ _ hl hws =>
        rw [hf, List.length_cons] at hk
        rw [hf, price]
        exact .cons (finds_of_path h₁ hus (finds_of_opened hl hv))
          (ih hws (g.estimates t v).2 (Nat.succ.inj hk))

/-- So many searches come to something as there are open atoms on a path. -/
theorem searches_of_path {vs : List Visit} (h : g.Path s vs s') {n : Nat}
    (hn : n ≤ (vs.filter g.opened).length) (t : TelescopeState) : g.Searches n (s.at t) := by
  induction n generalizing s vs t with
  | zero => trivial
  | succ n ih =>
    rcases filter_opened_cases g vs with ⟨hnil, -⟩ | ⟨us, v, ws, rfl, hus, hv, hf⟩
    · rw [hnil] at hn
      cases hn
    · obtain ⟨s₁, h₁, h₂⟩ := h.split
      cases h₂ with
      | @cons _ s₂ _ _ _ hl hws =>
        rw [hf, List.length_cons] at hn
        refine ⟨_, finds_of_path h₁ hus (finds_of_opened hl hv), ?_⟩
        intro e next he
        cases he
        exact ih hws (Nat.le_of_succ_le_succ hn) _

/-! ## Ways without end -/

/-- From the place there are ways of any length, with at most `m` open atoms. -/
def Endless (g : Generator) (m : Nat) (s : Place) : Prop :=
  ∀ k, ∃ vs s', g.Path s vs s' ∧ k ≤ vs.length ∧ (vs.filter g.opened).length ≤ m

/-- Of a way without end any path is a beginning. -/
theorem Endless.behind {m : Nat} (h : g.Endless m s) {us : List Visit} (hp : g.Path s us s') :
    (us.filter g.opened).length ≤ m ∧ g.Endless (m - (us.filter g.opened).length) s' := by
  have hextends : ∀ k, ∃ ws r, g.Path s' ws r ∧ k ≤ ws.length ∧
      (us.filter g.opened).length + (ws.filter g.opened).length ≤ m := by
    intro k
    obtain ⟨vs, r, hvs, hlen, hopen⟩ := h (us.length + k)
    obtain ⟨ws, rfl, hws⟩ := hp.extends hvs (by omega)
    rw [List.filter_append, List.length_append] at hopen
    rw [List.length_append] at hlen
    exact ⟨ws, r, hws, by omega, hopen⟩
  constructor
  · obtain ⟨ws, r, -, -, hopen⟩ := hextends 0
    omega
  · intro k
    obtain ⟨ws, r, hws, hlen, hopen⟩ := hextends k
    exact ⟨ws, r, hws, hlen, by omega⟩

theorem Endless.look_ne_none {m : Nat} (h : g.Endless m s) : g.look s ≠ none := by
  intro hnone
  obtain ⟨vs, r, hp, hlen, -⟩ := h 1
  cases hp with
  | nil => cases hlen
  | cons hl _ =>
    rw [hnone] at hl
    cases hl

/-- On a way without end no more searches come to something than there are open atoms. -/
theorem Endless.le_of_searches {m n : Nat} (h : g.Endless m s) (hn : g.Searches n (s.at t)) :
    n ≤ m := by
  induction n generalizing s m t with
  | zero => exact Nat.zero_le m
  | succ n ih =>
    obtain ⟨r, hr, hrest⟩ := hn
    obtain ⟨us, s₁, hp, hclosed, ⟨hnone, -⟩ | ⟨v, s₂, hl, hv, rfl⟩⟩ := hr.path
    · exact absurd hnone (h.behind hp).2.look_ne_none
    · obtain ⟨hle, hbehind⟩ := h.behind (hp.append (.single hl))
      have hone : ((us ++ [v]).filter g.opened).length = 1 := by
        rw [List.filter_append, filter_opened_of_closed hclosed, List.filter_cons_of_pos hv]
        rfl
      rw [hone] at hle hbehind
      have hsearches : g.Searches n (s₂.at (g.estimates t v).2) := hrest _ _ rfl
      have hless := ih hbehind hsearches
      omega

/-! ## Distinct identities -/

/-- Where identities are distinct, searches end on any plan, with or without an end. -/
theorem searches_of_sound {n : Nat} (hs : g.Sound (g.reach n)) (hn : g.progress.failedIds.Nodup)
    (t : TelescopeState) : g.Searches n (.start t) := by
  obtain ⟨vs, s, hp, hdone, -⟩ := exists_route hs hn
  rcases hdone with hend | hlong
  · exact (lists_of_path hp hend t).searches n
  · exact searches_of_path hp hlong t

end Generator
end Observing
