import Observing.Proofs.Walk

/-!
# What a path yields

Generation gives itself a number of turns for each atom.  Where that number is enough, the atoms it
yields are the open ones on its path, each priced behind the one before it.

* `Generator.Prompt`   the turns are enough: no way over closed atoms is as long;
* `Generator.price`    the atoms of visits, each priced behind the one before it;
* `take_path`          the atoms yielded along a path;
* `window_atoms`, `window_atoms_eq_nil`, `window_hasMore`   a window shows the first of them.
-/

namespace Observing

namespace GeneratedSequence

/-- The next atom and those behind it. -/
def atoms (w : GeneratedSequence) : List Atom := w.nextAtom.toList ++ w.possibleFuture

end GeneratedSequence

namespace Generator

variable {g : Generator}

/-- The atoms of visits, each priced in the state in which the one before it leaves the telescope. -/
def price (g : Generator) : TelescopeState → List Visit → List Emission
  | _, [] => []
  | t, v :: vs => g.emission t v :: g.price (g.estimates t v).2 vs

theorem length_price (t : TelescopeState) (vs : List Visit) : (g.price t vs).length = vs.length := by
  induction vs generalizing t with
  | nil => rfl
  | cons v vs ih => rw [price, List.length_cons, ih, List.length_cons]

/-! ## Turns along a path -/

theorem turns_path {s s' : Place} {us : List Visit} (h : g.Path s us s')
    (hclosed : ∀ u ∈ us, g.opened u = false) (n : Nat) (t : TelescopeState) :
    g.turns (us.length + n) (s.at t) = g.turns n (s'.at t) := by
  induction h with
  | nil => rw [List.length_nil, Nat.zero_add]
  | @cons s s' s'' u us hl _ ih =>
    have hu : g.opened u = false := hclosed u List.mem_cons_self
    have hstep : g.step (s.at t) = .pass (s'.at t) := by
      rw [step_at, hl, turnOf, hu]
      rfl
    rw [List.length_cons, Nat.add_right_comm, turns, hstep]
    exact ih fun w hw => hclosed w (List.mem_cons_of_mem _ hw)

theorem turns_opened {s s' : Place} {v : Visit} (hl : g.look s = some (v, s'))
    (hv : g.opened v = true) (n : Nat) (t : TelescopeState) :
    g.turns (n + 1) (s.at t) = some (g.emission t v, s'.at (g.estimates t v).2) := by
  have hstep : g.step (s.at t) = .yield (g.emission t v) (s'.at (g.estimates t v).2) := by
    rw [step_at, hl, turnOf, if_pos hv]
  rw [turns, hstep]

theorem turns_none {s s' : Place} {us : List Visit} (h : g.Path s us s')
    (hclosed : ∀ u ∈ us, g.opened u = false) (hend : g.look s' = none) (n : Nat)
    (t : TelescopeState) : g.turns n (s.at t) = none := by
  cases hn : g.turns n (s.at t) with
  | none => rfl
  | some r =>
    have hlong := turns_mono hn (Nat.le_add_left n us.length)
    rw [turns_path h hclosed] at hlong
    cases n with
    | zero =>
      rw [turns_zero] at hn
      cases hn
    | succ n =>
      rw [turns, step_at, hend] at hlong
      cases hlong

/-- An atom that is yielded is the first open one on the way. -/
theorem turns_some {n : Nat} {s : Place} {t : TelescopeState} {e : Emission} {next : Continuation}
    (h : g.turns n (s.at t) = some (e, next)) :
    ∃ us s₁ v s₂, g.Path s us s₁ ∧ (∀ u ∈ us, g.opened u = false) ∧ g.look s₁ = some (v, s₂) ∧
      g.opened v = true ∧ e = g.emission t v ∧ next = s₂.at (g.estimates t v).2 := by
  induction n generalizing s with
  | zero =>
    rw [turns_zero] at h
    cases h
  | succ n ih =>
    rw [turns, step_at] at h
    cases hl : g.look s with
    | none =>
      rw [hl] at h
      cases h
    | some r =>
      obtain ⟨v, s'⟩ := r
      rw [hl, turnOf] at h
      by_cases hv : g.opened v = true
      · rw [if_pos hv] at h
        cases h
        exact ⟨[], s, v, s', .nil s, fun u hu => absurd hu List.not_mem_nil, hl, hv, rfl, rfl⟩
      · rw [if_neg hv] at h
        obtain ⟨us, s₁, w, s₂, hp, hclosed, hrest⟩ := ih h
        refine ⟨v :: us, s₁, w, s₂, .cons hl hp, fun u hu => ?_, hrest⟩
        rcases List.mem_cons.1 hu with rfl | hu
        · simpa using hv
        · exact hclosed u hu

/-! ## Enough turns -/

/-- Generation has more turns at a place than there are closed atoms in a row. -/
def Prompt (g : Generator) (s : Place) : Prop :=
  ∀ us s', g.Path s us s' → (∀ u ∈ us, g.opened u = false) → us.length < g.enough (s.at .initial)

/-- A path shorter than the number of turns is enough if it meets an open atom or the end. -/
theorem prompt_of_path {s s' : Place} {vs : List Visit} (h : g.Path s vs s')
    (hlen : vs.length < g.enough (s.at .initial))
    (hdone : g.look s' = none ∨ ∃ v ∈ vs, g.opened v = true) : g.Prompt s := by
  intro us r hr hclosed
  rcases Nat.lt_or_ge vs.length us.length with hlt | hle
  · exfalso
    obtain ⟨ws, hws, hp⟩ := h.extends hr hlt.le
    rcases hdone with hend | ⟨v, hv, hopen⟩
    · cases hp with
      | nil =>
        rw [hws, List.append_nil] at hlt
        exact Nat.lt_irrefl _ hlt
      | cons hl _ =>
        rw [hend] at hl
        cases hl
    · have hfalse := hclosed v (hws ▸ List.mem_append_left _ hv)
      rw [hopen] at hfalse
      cases hfalse
  · exact Nat.lt_of_le_of_lt hle hlen

theorem advance_opened {s s₁ s₂ : Place} {us : List Visit} {v : Visit} (h : g.Path s us s₁)
    (hclosed : ∀ u ∈ us, g.opened u = false) (hl : g.look s₁ = some (v, s₂))
    (hv : g.opened v = true) (hs : g.Prompt s) (t : TelescopeState) :
    g.advance (s.at t) = some (g.emission t v, s₂.at (g.estimates t v).2) := by
  have hlt : us.length < g.enough (s.at t) := hs us s₁ h hclosed
  obtain ⟨n, hn⟩ := Nat.exists_eq_add_of_lt hlt
  rw [advance, hn, Nat.add_assoc, turns_path h hclosed, turns_opened hl hv]

theorem advance_none {s s' : Place} {us : List Visit} (h : g.Path s us s')
    (hclosed : ∀ u ∈ us, g.opened u = false) (hend : g.look s' = none) (t : TelescopeState) :
    g.advance (s.at t) = none :=
  turns_none h hclosed hend _ t

theorem filter_opened_of_closed {us : List Visit} (h : ∀ u ∈ us, g.opened u = false) :
    us.filter g.opened = [] := by
  refine List.filter_eq_nil_iff.2 fun u hu => ?_
  rw [h u hu]
  exact Bool.false_ne_true

theorem filter_closed {us : List Visit} (h : ∀ u ∈ us, g.opened u = false) :
    (us.filter fun u => !g.opened u) = us := by
  refine List.filter_eq_self.2 fun u hu => ?_
  rw [h u hu]
  rfl

/-- Open atoms come one after another: the first of them stands behind closed ones. -/
theorem filter_opened_cases (g : Generator) (vs : List Visit) :
    (vs.filter g.opened = [] ∧ ∀ v ∈ vs, g.opened v = false) ∨
      ∃ us v ws, vs = us ++ v :: ws ∧ (∀ u ∈ us, g.opened u = false) ∧ g.opened v = true ∧
        vs.filter g.opened = v :: ws.filter g.opened := by
  induction vs with
  | nil => exact .inl ⟨rfl, fun v hv => absurd hv List.not_mem_nil⟩
  | cons w vs ih =>
    by_cases hw : g.opened w = true
    · refine .inr ⟨[], w, vs, rfl, fun u hu => absurd hu List.not_mem_nil, hw, ?_⟩
      rw [List.filter_cons_of_pos hw]
    · have hw' : g.opened w = false := by simpa using hw
      rw [List.filter_cons_of_neg hw]
      rcases ih with ⟨hnil, hall⟩ | ⟨us, v, ws, rfl, hus, hv, hf⟩
      · refine .inl ⟨hnil, fun v hv => ?_⟩
        rcases List.mem_cons.1 hv with rfl | hv
        · exact hw'
        · exact hall v hv
      · refine .inr ⟨w :: us, v, ws, rfl, fun u hu => ?_, hv, hf⟩
        rcases List.mem_cons.1 hu with rfl | hu
        · exact hw'
        · exact hus u hu

/-- Along a path that is long enough, or that comes to the end of the plan, the open atoms are
yielded and no others. -/
theorem take_path {s s' : Place} {vs : List Visit} (h : g.Path s vs s')
    (hprompt : ∀ us r, g.Path s us r → us <+: vs → g.Prompt r) {n : Nat}
    (hn : g.look s' = none ∨ n ≤ (vs.filter g.opened).length) (t : TelescopeState) :
    (g.take n (s.at t)).1 = (g.price t (vs.filter g.opened)).take n := by
  induction n generalizing s vs t with
  | zero => rfl
  | succ n ih =>
    rcases filter_opened_cases g vs with ⟨hnil, hall⟩ | ⟨us, v, ws, rfl, hus, hv, hf⟩
    · rw [hnil] at hn ⊢
      have hend : g.look s' = none := hn.resolve_right (by simp)
      rw [take, advance_none h hall hend]
      rfl
    · obtain ⟨s₁, h₁, h₂⟩ := h.split
      cases h₂ with
      | @cons _ s₂ _ _ _ hl hws =>
        have hs : g.Prompt s := hprompt [] s (.nil s) (List.nil_prefix)
        have hrest := ih hws (fun us' r hr hpre => hprompt (us ++ v :: us') r
          (h₁.append (.cons hl hr)) (by simpa using hpre)) (by
            rw [hf, List.length_cons] at hn
            exact hn.imp_right Nat.le_of_succ_le_succ) (g.estimates t v).2
        rw [take, advance_opened h₁ hus hl hv hs]
        simp only [hrest, hf, price, List.take_succ_cons]

/-! ## Windows -/

theorem take_succ_some {c next : Continuation} {e : Emission} (h : g.advance c = some (e, next))
    (n : Nat) : g.take (n + 1) c = (e :: (g.take n next).1, (g.take n next).2) := by
  rw [take, h]

theorem take_succ_none {c : Continuation} (h : g.advance c = none) (n : Nat) :
    g.take n c = ([], c) := by
  cases n with
  | zero => rfl
  | succ n => rw [take, h]

theorem length_take_le (n : Nat) (c : Continuation) : (g.take n c).1.length ≤ n := by
  induction n generalizing c with
  | zero => exact Nat.le_refl 0
  | succ n ih =>
    cases h : g.advance c with
    | none =>
      rw [take_succ_none h]
      exact Nat.zero_le _
    | some r =>
      rw [take_succ_some h, List.length_cons]
      exact Nat.succ_le_succ (ih r.2)

theorem advance_take_isSome (n : Nat) (c : Continuation) :
    (g.advance (g.take n c).2).isSome = decide ((g.take (n + 1) c).1.length = n + 1) := by
  induction n generalizing c with
  | zero =>
    cases h : g.advance c with
    | none => simp [take, h]
    | some r => simp [take, h]
  | succ n ih =>
    cases h : g.advance c with
    | none => simp [take_succ_none h, h]
    | some r =>
      obtain ⟨e, next⟩ := r
      rw [take_succ_some h, take_succ_some h, ih next]
      simp

theorem window_atoms (t : TelescopeState) (limit : Nat) :
    (g.window t limit).atoms = (g.take (limit + 1) (.start t)).1.map (·.atom) := by
  unfold window
  cases h : g.advance (.start t) with
  | none => rw [take_succ_none h]; rfl
  | some r =>
    obtain ⟨e, next⟩ := r
    rw [take_succ_some h]
    rfl

/-- A window is empty exactly when the plan is done. -/
theorem window_atoms_eq_nil (t : TelescopeState) (limit : Nat) :
    (g.window t limit).atoms = [] ↔ (g.window t limit).state = .exhausted := by
  unfold window
  cases h : g.advance (.start t) with
  | none => simp [GeneratedSequence.exhausted, GeneratedSequence.atoms]
  | some r =>
    obtain ⟨e, next⟩ := r
    simp only [GeneratedSequence.atoms, Option.toList_some, List.singleton_append,
      List.cons_ne_nil, reported, false_iff]
    split
    · simp
    · split <;> simp

theorem window_hasMore (t : TelescopeState) (limit : Nat) :
    (g.window t limit).hasMore =
      decide ((g.take (limit + 2) (.start t)).1.length = limit + 2) := by
  unfold window
  cases h : g.advance (.start t) with
  | none => simp [take_succ_none h, GeneratedSequence.exhausted]
  | some r =>
    obtain ⟨e, next⟩ := r
    rw [take_succ_some h]
    simp [advance_take_isSome]

end Generator
end Observing
