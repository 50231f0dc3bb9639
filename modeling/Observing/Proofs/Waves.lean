import Mathlib.Logic.Function.Iterate
import Mathlib.Tactic.Linarith
import Observing.Proofs.Chain
import Observing.Proofs.Yield

/-!
# Waves of repetitions

Waiting failed steps are repeated wave by wave: first those that wait, then those that their
repetitions leave behind, and so on, until a wave is empty.

* `Generator.waves`        the failed steps of the first waves;
* `path_waves`             the queue is drained wave by wave;
* `path_finite`            the whole way through a plan with an end;
* `iterate_repeats_eq_nil` no more waves come than there are executed steps;
* `prompt_finite`          generation has enough turns anywhere in a plan with an end.
-/

namespace Observing
namespace Generator

variable {g : Generator} {n : Nat}

/-- The failed steps that the repetitions of waiting ones leave behind. -/
def repeats (g : Generator) (q : List Pending) : List Pending :=
  q.flatMap fun p => g.left (g.repeatVisit p)

/-- The first `k` waves that start with the given failed steps. -/
def waves (g : Generator) : (k : Nat) → List Pending → List Pending
  | 0, _ => []
  | k + 1, q => q ++ g.waves k (g.repeats q)

/-! ## Draining the queue -/

theorem path_queue {position : Nat} (h : g.queueTurn position = true) (q rest : List Pending) :
    g.Path ⟨position, q ++ rest⟩ (q.map g.repeatVisit) ⟨position, rest ++ g.repeats q⟩ := by
  induction q generalizing rest with
  | nil =>
    rw [repeats, List.flatMap_nil, List.append_nil]
    exact .nil _
  | cons p q ih =>
    have hp := ih (rest ++ g.left (g.repeatVisit p))
    rw [← List.append_assoc q rest, List.append_assoc rest] at hp
    exact .cons (look_cons_of_queueTurn h p (q ++ rest)) hp

theorem path_waves {position : Nat} (h : g.queueTurn position = true) (k : Nat)
    (q : List Pending) :
    g.Path ⟨position, q⟩ ((g.waves k q).map g.repeatVisit) ⟨position, g.repeats^[k] q⟩ := by
  induction k generalizing q with
  | zero => exact .nil _
  | succ k ih =>
    have hq := path_queue h q []
    rw [List.append_nil, List.nil_append] at hq
    rw [waves, List.map_append, Function.iterate_succ_apply]
    exact hq.append (ih (g.repeats q))

theorem length_repeats_le (q : List Pending) : (g.repeats q).length ≤ q.length := by
  induction q with
  | nil => exact Nat.le_refl 0
  | cons p q ih =>
    have hp := length_left_repeat_le g p
    rw [repeats, List.flatMap_cons, List.length_append, List.length_cons]
    rw [repeats] at ih
    omega

theorem length_waves_le (k : Nat) (q : List Pending) :
    (g.waves k q).length ≤ k * q.length := by
  induction k generalizing q with
  | zero => exact Nat.zero_le _
  | succ k ih =>
    have hk := (ih (g.repeats q)).trans (Nat.mul_le_mul_left k (length_repeats_le q))
    rw [waves, List.length_append, Nat.succ_mul]
    omega

/-! ## No endless waves -/

/-- The failed steps of the `k`-th wave have chains of `k` steps at least. -/
theorem awaits_iterate {q : List Pending} (hq : ∀ p ∈ q, ∃ l, g.Awaits n l p) (k : Nat) :
    ∀ p ∈ g.repeats^[k] q, ∃ l, g.Awaits n l p ∧ k ≤ l.length := by
  induction k with
  | zero =>
    intro p hp
    obtain ⟨l, hl⟩ := hq p hp
    exact ⟨l, hl, Nat.zero_le _⟩
  | succ k ih =>
    intro p hp
    rw [Function.iterate_succ_apply'] at hp
    obtain ⟨r, hr, hpr⟩ := List.mem_flatMap.1 hp
    obtain ⟨l, hl, hk⟩ := ih r hr
    exact ⟨_, .repeated hl hpr, Nat.succ_le_succ hk⟩

theorem iterate_repeats_eq_nil (hs : g.Sound n) {q : List Pending}
    (hq : ∀ p ∈ q, ∃ l, g.Awaits n l p) : g.repeats^[g.progress.executedCount] q = [] := by
  rw [List.eq_nil_iff_forall_not_mem]
  intro p hp
  obtain ⟨l, hl, hk⟩ := awaits_iterate hq _ p hp
  exact Nat.lt_irrefl _ (Nat.lt_of_lt_of_le (hl.length_lt hs) hk)

/-! ## Looks -/

theorem look_cases {s s' : Place} {v : Visit} (h : g.look s = some (v, s')) :
    (∃ p rest, s.pending = p :: rest ∧ g.queueTurn s.position = true ∧ v = g.repeatVisit p ∧
      s' = ⟨s.position, rest ++ g.left v⟩) ∨
    (g.plannedVisit? s.position = some v ∧ s' = ⟨s.position + 1, s.pending ++ g.left v⟩) := by
  have hplanned : g.lookPlanned s = some (v, s') →
      g.plannedVisit? s.position = some v ∧ s' = ⟨s.position + 1, s.pending ++ g.left v⟩ := by
    intro h
    obtain ⟨w, hw, he⟩ := Option.map_eq_some_iff.1 h
    cases he
    exact ⟨hw, rfl⟩
  obtain ⟨position, pending⟩ := s
  cases pending with
  | nil =>
    rw [look_nil] at h
    exact .inr (hplanned h)
  | cons p rest =>
    by_cases hq : g.queueTurn position = true
    · rw [look_cons_of_queueTurn hq] at h
      cases h
      exact .inl ⟨p, rest, rfl, hq, rfl, rfl⟩
    · rw [look_of_not_queueTurn (by simpa using hq)] at h
      exact .inr (hplanned h)

theorem Path.position_le {s s' : Place} {vs : List Visit} (h : g.Path s vs s') :
    s.position ≤ s'.position := by
  induction h with
  | nil => exact Nat.le_refl _
  | cons hl _ ih =>
    rcases look_cases hl with ⟨p, rest, -, -, -, rfl⟩ | ⟨-, rfl⟩
    · exact ih
    · exact Nat.le_of_succ_le ih

theorem Path.awaits {s s' : Place} {vs : List Visit} (h : g.Path s vs s')
    (hs : ∀ p ∈ s.pending, ∃ l, g.Awaits n l p) (hn : s'.position ≤ n) :
    ∀ p ∈ s'.pending, ∃ l, g.Awaits n l p := by
  induction h with
  | nil => exact hs
  | @cons s s' s'' v vs hl hp ih =>
    refine ih ?_ hn
    rcases look_cases hl with ⟨q, rest, hq, -, rfl, rfl⟩ | ⟨hv, rfl⟩
    · intro p hmem
      rcases List.mem_append.1 hmem with hmem | hmem
      · exact hs p (hq ▸ List.mem_cons_of_mem _ hmem)
      · obtain ⟨l, hl⟩ := hs q (hq ▸ List.mem_cons_self)
        exact ⟨_, .repeated hl hmem⟩
    · intro p hmem
      rcases List.mem_append.1 hmem with hmem | hmem
      · exact hs p hmem
      · exact ⟨[], .planned (Nat.lt_of_lt_of_le (Nat.lt_succ_self _) (hp.position_le.trans hn)) hv hmem⟩

/-! ## Plans with an end -/

/-- The visits of all planned atoms of a plan with an end. -/
def plannedVisits (g : Generator) : List Visit :=
  g.plan.atoms.zipIdx.map fun (a, i) => ⟨.planned g.observation g.sequence i, a⟩

theorem length_plannedVisits (g : Generator) : g.plannedVisits.length = g.plan.atoms.length := by
  simp [plannedVisits]

theorem plannedVisit?_eq (hend : g.plan.onward = none) (i : Nat) :
    g.plannedVisit? i = g.plannedVisits[i]? := by
  unfold plannedVisit? plannedVisits AtomPlan.get?
  rw [List.getElem?_map, List.getElem?_zipIdx, hend]
  cases g.plan.atoms[i]? <;> simp

theorem queueTurn_eq (hend : g.plan.onward = none) (i : Nat) :
    g.queueTurn i = decide (g.plan.atoms.length ≤ i) := by
  simp [queueTurn, AtomPlan.isUnbounded, hend]

theorem path_planned (hend : g.plan.onward = none) {position : Nat} (q : List Pending)
    (hle : position ≤ g.plan.atoms.length) :
    g.Path ⟨position, q⟩ (g.plannedVisits.drop position)
      ⟨g.plan.atoms.length, q ++ (g.plannedVisits.drop position).flatMap g.left⟩ := by
  obtain ⟨k, hk⟩ := Nat.exists_eq_add_of_le hle
  induction k generalizing position q with
  | zero =>
    have hdrop : g.plannedVisits.drop position = [] := by
      rw [List.drop_eq_nil_iff, length_plannedVisits]
      omega
    have hpos : position = g.plan.atoms.length := by omega
    rw [hdrop, List.flatMap_nil, List.append_nil, hpos]
    exact .nil _
  | succ k ih =>
    have hlt : position < g.plannedVisits.length := by
      rw [length_plannedVisits]
      omega
    have hturn : g.queueTurn position = false := by
      rw [queueTurn_eq hend, decide_eq_false_iff_not]
      omega
    have hlook : g.look ⟨position, q⟩ = some (g.plannedVisits[position],
        ⟨position + 1, q ++ g.left g.plannedVisits[position]⟩) := by
      rw [look_of_not_queueTurn hturn, lookPlanned, plannedVisit?_eq hend,
        List.getElem?_eq_getElem hlt]
      rfl
    rw [List.drop_eq_getElem_cons hlt, List.flatMap_cons, ← List.append_assoc]
    have hnext : position + 1 ≤ g.plan.atoms.length := by omega
    exact .cons hlook (ih _ hnext (by omega))

/-- The way through a plan with an end: the planned atoms, and behind them wave after wave. -/
theorem path_finite (hend : g.plan.onward = none) {position : Nat} (q : List Pending)
    (hle : position ≤ g.plan.atoms.length) (k : Nat) :
    g.Path ⟨position, q⟩
      (g.plannedVisits.drop position ++
        (g.waves k (q ++ (g.plannedVisits.drop position).flatMap g.left)).map g.repeatVisit)
      ⟨g.plan.atoms.length,
        g.repeats^[k] (q ++ (g.plannedVisits.drop position).flatMap g.left)⟩ := by
  refine (path_planned hend q hle).append (path_waves ?_ k _)
  rw [queueTurn_eq hend, decide_eq_true_eq]

theorem look_end (hend : g.plan.onward = none) : g.look ⟨g.plan.atoms.length, []⟩ = none := by
  have hget : g.plannedVisits[g.plan.atoms.length]? = none := by
    rw [List.getElem?_eq_none_iff, length_plannedVisits]
  rw [look_nil, lookPlanned, plannedVisit?_eq hend, hget]
  rfl

theorem mem_flatMap_left (hend : g.plan.onward = none) {position : Nat} {p : Pending}
    (hp : p ∈ (g.plannedVisits.drop position).flatMap g.left) :
    g.Awaits g.plan.atoms.length [] p := by
  obtain ⟨v, hv, hpv⟩ := List.mem_flatMap.1 hp
  obtain ⟨i, hi, rfl⟩ := List.mem_iff_getElem.1 (List.mem_of_mem_drop hv)
  rw [length_plannedVisits] at hi
  refine .planned hi ?_ hpv
  rw [plannedVisit?_eq hend, List.getElem?_eq_getElem]

theorem length_flatMap_left_le (vs : List Visit) :
    (vs.flatMap g.left).length ≤ vs.length * g.progress.executedCount := by
  induction vs with
  | nil => exact Nat.zero_le _
  | cons v vs ih =>
    have hv := length_left_le g v
    rw [List.flatMap_cons, List.length_append, List.length_cons, Nat.succ_mul]
    omega

/-! ## The whole way -/

/-- The visits from a place on: the planned atoms, and behind them as many waves as can come. -/
def way (g : Generator) (s : Place) : List Visit :=
  g.plannedVisits.drop s.position ++
    (g.waves g.progress.executedCount
      (s.pending ++ (g.plannedVisits.drop s.position).flatMap g.left)).map g.repeatVisit

theorem path_way (hend : g.plan.onward = none) (hs : g.Sound g.plan.atoms.length) {s : Place}
    (hle : s.position ≤ g.plan.atoms.length)
    (hq : ∀ p ∈ s.pending, ∃ l, g.Awaits g.plan.atoms.length l p) :
    g.Path s (g.way s) ⟨g.plan.atoms.length, []⟩ := by
  have hall : ∀ p ∈ s.pending ++ (g.plannedVisits.drop s.position).flatMap g.left,
      ∃ l, g.Awaits g.plan.atoms.length l p := by
    intro p hp
    rcases List.mem_append.1 hp with hp | hp
    · exact hq p hp
    · exact ⟨[], mem_flatMap_left hend hp⟩
  have hpath := path_finite hend s.pending hle g.progress.executedCount
  rw [iterate_repeats_eq_nil hs hall] at hpath
  exact hpath

theorem length_way_lt (hend : g.plan.onward = none) (s : Place) (t : TelescopeState) :
    (g.way s).length < g.enough (s.at t) := by
  have hplanned : (g.plannedVisits.drop s.position).length =
      g.plan.atoms.length - s.position := by
    rw [List.length_drop, length_plannedVisits]
  have hleft := length_flatMap_left_le (g := g) (g.plannedVisits.drop s.position)
  have hwaves := length_waves_le (g := g) g.progress.executedCount
    (s.pending ++ (g.plannedVisits.drop s.position).flatMap g.left)
  have hpositions : g.positionsLeft (s.at t) = g.plan.atoms.length - s.position := by
    simp [positionsLeft, AtomPlan.isUnbounded, hend, Place.at]
  have henough : g.enough (s.at t) =
      (g.plan.atoms.length - s.position) +
        (s.pending.length + (g.plan.atoms.length - s.position) * g.progress.executedCount) *
          (g.progress.executedCount + 2) + 1 := by
    rw [← hpositions]
    rfl
  rw [hplanned] at hleft
  rw [List.length_append] at hwaves
  rw [way, List.length_append, List.length_map, hplanned, henough]
  nlinarith [Nat.mul_le_mul_left g.progress.executedCount hleft]

theorem prompt_finite (hend : g.plan.onward = none) (hs : g.Sound g.plan.atoms.length) {s : Place}
    (hle : s.position ≤ g.plan.atoms.length)
    (hq : ∀ p ∈ s.pending, ∃ l, g.Awaits g.plan.atoms.length l p) : g.Prompt s :=
  prompt_of_path (path_way hend hs hle hq) (length_way_lt hend s .initial) (.inl (look_end hend))

theorem Path.position_le_length (hend : g.plan.onward = none) {s s' : Place} {vs : List Visit}
    (h : g.Path s vs s') (hle : s.position ≤ g.plan.atoms.length) :
    s'.position ≤ g.plan.atoms.length := by
  induction h with
  | nil => exact hle
  | @cons s s' s'' v vs hl _ ih =>
    refine ih ?_
    rcases look_cases hl with ⟨p, rest, -, -, -, rfl⟩ | ⟨hv, rfl⟩
    · exact hle
    · rw [plannedVisit?_eq hend] at hv
      have hlt := (List.getElem?_eq_some_iff.1 hv).1
      rw [length_plannedVisits] at hlt
      exact hlt

/-- Generation has enough turns wherever it comes to from the beginning of a plan with an end. -/
theorem Path.prompt (hend : g.plan.onward = none) (hs : g.Sound g.plan.atoms.length) {s : Place}
    {vs : List Visit} (h : g.Path ⟨0, []⟩ vs s) : g.Prompt s := by
  have hle := h.position_le_length hend (Nat.zero_le _)
  exact prompt_finite hend hs hle (h.awaits (fun p hp => absurd hp List.not_mem_nil) hle)

end Generator
end Observing
