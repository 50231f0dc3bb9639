import Observing.Angle
import Observing.Plan.OffsetCycle
import Observing.Proofs.CyclicWalk

/-!
# The shortest cycle

A list with two values is walked like the list to which it is reduced, but for equal values in a row, and
like no shorter one.  So the reduced list is a canonical form: it is the same for two lists exactly when
they are walked alike.

* `Cycle.place`       where a value stands when equal values in a row are made one;
* `unwrap_collapse`   without repeats and without its end, a list is walked without a stay;
* `Cycle.reached`     how far the walk without repeats has come, which is why `collapsed_walk` holds;
* `period_spec`       the period is the least length of which copies make up the list;
* `Cycle.reduce_canonical`   the reduced list is the shortest one.
-/

namespace Observing
namespace Cycle

variable {α : Type}

/-! ## Copies -/

theorem walk_take_of_hasPeriod {l : List α} {p : Nat} (hl : l ≠ []) (h : HasPeriod l p) :
    walk (l.take p) = walk l := by
  have hcopies : 0 < l.length / p := by
    refine Nat.pos_of_ne_zero fun hzero => hl ?_
    rw [← h.2, hzero]
    rfl
  rw [← walk_flatten_replicate (l.take p) hcopies, h.2]

theorem hasPeriod_of_periodic {l : List α} {p : Nat} (hp : 0 < p) (hle : p ≤ l.length)
    (hdvd : p ∣ l.length) (h : Function.Periodic (walk l) p) : HasPeriod l p := by
  refine ⟨Nat.mod_eq_zero_of_dvd hdvd, eq_of_walk_eq ?_ ?_⟩
  · rw [walk_flatten_replicate _ (Nat.div_pos hle hp), walk_take hp hle h]
  · rw [List.length_flatten, List.map_replicate, List.sum_replicate_nat, List.length_take,
      Nat.min_eq_left hle, Nat.div_mul_cancel hdvd]

variable [DecidableEq α]

/-! ## Repeats taken out -/

/-- Where the value at an index of a list stands when equal values in a row are made one. -/
def place : List α → Nat → Nat
  | a :: b :: l, i + 1 => (if a = b then 0 else 1) + place (b :: l) i
  | _, _ => 0

@[simp] theorem place_zero (l : List α) : place l 0 = 0 := by
  unfold place
  split
  · next heq => cases heq
  · rfl

theorem place_cons_self (a : α) (l : List α) (i : Nat) :
    place (a :: a :: l) (i + 1) = place (a :: l) i := by
  rw [place, if_pos rfl, Nat.zero_add]

theorem place_cons_of_ne {a b : α} (h : a ≠ b) (l : List α) (i : Nat) :
    place (a :: b :: l) (i + 1) = place (b :: l) i + 1 := by
  rw [place, if_neg h, Nat.add_comm]

theorem place_succ (l : List α) (i : Nat) :
    place l (i + 1) = place l i ∨ place l (i + 1) = place l i + 1 := by
  fun_induction collapse l generalizing i with
  | case1 => exact .inl rfl
  | case2 a => exact .inl rfl
  | case3 a l ih =>
    cases i with
    | zero => simp [place_cons_self]
    | succ i => simpa only [place_cons_self] using ih i
  | case4 a b l hab ih =>
    cases i with
    | zero => simp [place_cons_of_ne hab]
    | succ i => simpa only [place_cons_of_ne hab, Nat.add_right_cancel_iff] using ih i

theorem head?_collapse (l : List α) : (collapse l).head? = l.head? := by
  fun_induction collapse l with
  | case1 => rfl
  | case2 a => rfl
  | case3 a l ih => rw [ih]; rfl
  | case4 a b l hab ih => rfl

theorem isChain_collapse (l : List α) : (collapse l).IsChain (· ≠ ·) := by
  fun_induction collapse l with
  | case1 => exact .nil
  | case2 a => exact .singleton a
  | case3 a l ih => exact ih
  | case4 a b l hab ih =>
    refine List.isChain_cons.2 ⟨fun y hy => ?_, ih⟩
    rw [head?_collapse] at hy
    exact Option.some.inj hy ▸ hab

theorem getElem?_collapse (l : List α) {i : Nat} (hi : i < l.length) :
    (collapse l)[place l i]? = l[i]? := by
  fun_induction collapse l generalizing i with
  | case1 => cases hi
  | case2 a =>
    obtain rfl : i = 0 := Nat.lt_one_iff.1 hi
    rfl
  | case3 a l ih =>
    cases i with
    | zero => rw [place_zero, ← List.head?_eq_getElem?, head?_collapse]; rfl
    | succ i => rw [place_cons_self, ih (Nat.lt_of_succ_lt_succ hi), List.getElem?_cons_succ]
  | case4 a b l hab ih =>
    cases i with
    | zero => rw [place_zero]; rfl
    | succ i =>
      rw [place_cons_of_ne hab, List.getElem?_cons_succ, ih (Nat.lt_of_succ_lt_succ hi),
        List.getElem?_cons_succ]

theorem place_last {l : List α} (h : l ≠ []) :
    place l (l.length - 1) + 1 = (collapse l).length := by
  fun_induction collapse l with
  | case1 => exact absurd rfl h
  | case2 a => rfl
  | case3 a l ih => exact (congrArg (· + 1) (place_cons_self a l l.length)).trans (ih (by simp))
  | case4 a b l hab ih =>
    exact congrArg (· + 1) ((place_cons_of_ne hab l l.length).trans (ih (by simp)))

/-! ## The end taken off -/

theorem unwrap_append_of_ne {a b : α} (h : b ≠ a) (m : List α) :
    unwrap (a :: (m ++ [b])) = a :: (m ++ [b]) := by
  simp [unwrap, h]

theorem unwrap_append_self (a : α) (m : List α) : unwrap (a :: (m ++ [a])) = unwrap (a :: m) := by
  simp [unwrap]

/-- Of a list with two values, none of which follows itself, at most the last value is taken off, and
then it is the first one. -/
theorem unwrap_of_isChain {c : List α} (hchain : c.IsChain (· ≠ ·)) (hvaried : Varied c) :
    Restless (unwrap c) ∧ (c = unwrap c ∨ c = unwrap c ++ (unwrap c).take 1) := by
  obtain ⟨x, hx, y, hy, hxy⟩ := hvaried
  cases c with
  | nil => cases hx
  | cons a m =>
    rcases List.eq_nil_or_concat' m with rfl | ⟨m, b, rfl⟩
    · exact absurd ((List.mem_singleton.1 hx).trans (List.mem_singleton.1 hy).symm) hxy
    by_cases hba : b = a
    · subst hba
      rw [unwrap_append_self]
      rcases List.eq_nil_or_concat' m with rfl | ⟨m, d, rfl⟩
      · simp at hchain
      -- the value before the last differs from it, so nothing more is taken off
      have hparts := List.isChain_append.1 (List.cons_append ▸ hchain)
      have hdb : d ≠ b := hparts.2.2 d (by simp [List.getLast?_cons]) b rfl
      rw [unwrap_append_of_ne hdb]
      exact ⟨restless_append hparts.1 hdb, .inr rfl⟩
    · rw [unwrap_append_of_ne hba]
      exact ⟨restless_append hchain hba, .inl rfl⟩

theorem varied_collapse {l : List α} : Varied (collapse l) ↔ Varied l := by
  simp only [Varied, mem_collapse]

theorem unwrap_collapse {l : List α} (h : Varied l) :
    Restless (unwrap (collapse l)) ∧ (collapse l = unwrap (collapse l) ∨
      collapse l = unwrap (collapse l) ++ (unwrap (collapse l)).take 1) :=
  unwrap_of_isChain (isChain_collapse l) (varied_collapse.2 h)

/-! ## The walk without repeats -/

theorem walk_unwrap_collapse {l : List α} (h : Varied l) {i : Nat} (hi : i < (collapse l).length) :
    walk (unwrap (collapse l)) i = (collapse l)[i]? := by
  obtain ⟨hrestless, heq⟩ := unwrap_collapse h
  generalize unwrap (collapse l) = u at hrestless heq
  rcases heq with heq | heq
  · rw [heq] at hi ⊢
    exact walk_of_lt hi
  · rw [heq] at hi ⊢
    rcases Nat.lt_or_ge i u.length with hlt | hge
    · rw [walk_of_lt hlt, List.getElem?_append_left hlt]
    · have hpos := hrestless.length_pos
      obtain rfl : i = u.length := by
        simp only [List.length_append, List.length_take] at hi
        omega
      rw [walk, Nat.mod_self, List.getElem?_append_right hge, Nat.sub_self,
        List.getElem?_take_of_lt Nat.one_pos]

/-- How far the walk without repeats has come at a step of the walk. -/
def reached (l : List α) (n : Nat) : Nat :=
  (unwrap (collapse l)).length * (n / l.length) + place l (n % l.length)

theorem reached_mul_add {l : List α} {r : Nat} (hr : r < l.length) (q : Nat) :
    reached l (l.length * q + r) = (unwrap (collapse l)).length * q + place l r := by
  rw [reached, Nat.mul_add_div (Nat.zero_lt_of_lt hr), Nat.div_eq_of_lt hr, Nat.mul_add_mod,
    Nat.mod_eq_of_lt hr, Nat.add_zero]

/-- At the end of the list the walk without repeats stands at its own last value, or at the first one
again. -/
theorem place_last_or {l : List α} (h : Varied l) :
    place l (l.length - 1) + 1 = (unwrap (collapse l)).length ∨
      place l (l.length - 1) = (unwrap (collapse l)).length := by
  obtain ⟨hrestless, heq⟩ := unwrap_collapse h
  have hplace := place_last (List.ne_nil_of_length_pos h.length_pos)
  have hpos := hrestless.length_pos
  rcases heq with heq | heq
  · exact .inl (hplace.trans (congrArg List.length heq))
  · have hlen := congrArg List.length heq
    rw [List.length_append, List.length_take] at hlen
    exact .inr (by omega)

theorem reached_succ {l : List α} (h : Varied l) (n : Nat) :
    reached l (n + 1) = reached l n ∨ reached l (n + 1) = reached l n + 1 := by
  have hpos := h.length_pos
  have hr := Nat.mod_lt n hpos
  have hn := (Nat.div_add_mod n l.length).symm
  generalize n / l.length = q at hn
  generalize n % l.length = r at hn hr
  subst hn
  rcases Nat.lt_or_ge (r + 1) l.length with hin | hend
  · rw [Nat.add_assoc, reached_mul_add hin, reached_mul_add hr]
    exact (place_succ l r).imp (congrArg _) (congrArg _)
  · obtain rfl : r = l.length - 1 := by omega
    have hnext : l.length * q + (l.length - 1) + 1 = l.length * (q + 1) + 0 := by
      rw [Nat.mul_succ]
      omega
    have hlast := place_last_or h
    rw [hnext, reached_mul_add hpos, reached_mul_add hr, place_zero, Nat.mul_succ]
    omega

/-- The walk goes through the values of the list without repeats, and the end is where it stays or
begins again. -/
theorem follows_unwrap_collapse {l : List α} (h : Varied l) :
    Follows (walk l) (walk (unwrap (collapse l))) (reached l) where
  zero := by simp [reached]
  step := reached_succ h
  unbounded k := by
    refine ⟨l.length * k + 0, ?_⟩
    rw [reached_mul_add h.length_pos, place_zero]
    exact Nat.le_mul_of_pos_left k (unwrap_collapse h).1.length_pos
  value n := by
    have hr := Nat.mod_lt n h.length_pos
    have hplace := getElem?_collapse l hr
    have hlt : place l (n % l.length) < (collapse l).length := by
      rw [List.getElem?_eq_getElem hr] at hplace
      exact (List.getElem?_eq_some_iff.1 hplace).1
    rw [reached, walk_add, walk_unwrap_collapse h hlt, hplace, walk]
  apart := (unwrap_collapse h).1.walk_ne

/-- Repeats inside a list and at its ends are those of its walk. -/
theorem collapsed_walk {l : List α} (h : Varied l) :
    collapsed (walk l) = walk (unwrap (collapse l)) :=
  (follows_unwrap_collapse h).collapsed_eq

/-! ## The shortest period -/

/-- The period is a number of values of which copies make up the list, and the least one. -/
theorem period_spec {l : List α} (hl : 0 < l.length) :
    0 < period l ∧ period l ≤ l.length ∧ HasPeriod l (period l) ∧
      ∀ p, 0 < p → p ≤ l.length → HasPeriod l p → period l ≤ p := by
  have hwhole : HasPeriod l l.length :=
    hasPeriod_of_periodic hl (Nat.le_refl _) (Nat.dvd_refl _) (walk_periodic l)
  obtain ⟨i, hi⟩ : ∃ i, (List.range l.length).find? (fun i => HasPeriod l (i + 1)) = some i := by
    refine Option.isSome_iff_exists.1 (List.find?_isSome.2 ⟨l.length - 1, ?_, ?_⟩)
    · exact List.mem_range.2 (Nat.sub_lt hl Nat.one_pos)
    · rw [Nat.sub_add_cancel hl]
      exact decide_eq_true hwhole
  have hperiod : period l = i + 1 := by
    rw [period, List.find?_map]
    exact congrArg (fun o => (Option.map (· + 1) o).getD l.length) hi
  obtain ⟨hhas, hmem, hleast⟩ := List.find?_range_eq_some.1 hi
  rw [hperiod]
  refine ⟨Nat.succ_pos i, List.mem_range.1 hmem, of_decide_eq_true hhas, fun p hp _ h => ?_⟩
  refine Nat.le_of_not_lt fun hlt => ?_
  have hnot := hleast (p - 1) (by omega)
  rw [Nat.sub_add_cancel hp, decide_eq_true h] at hnot
  cases hnot

theorem length_take_period {l : List α} (hl : 0 < l.length) : (l.take (period l)).length = period l := by
  rw [List.length_take, Nat.min_eq_left (period_spec hl).2.1]

theorem walk_take_period {l : List α} (hl : 0 < l.length) : walk (l.take (period l)) = walk l :=
  walk_take_of_hasPeriod (List.ne_nil_of_length_pos hl) (period_spec hl).2.2.1

/-- No list that is walked alike is shorter than the period. -/
theorem period_le_length {l m : List α} (hl : 0 < l.length) (hw : walk m = walk l) :
    period l ≤ m.length := by
  have hm : 0 < m.length := by
    refine List.length_pos_iff.2 fun hnil => ?_
    have hnone : walk l 0 = none := by rw [← hw, hnil, walk_nil]
    rw [walk_of_lt hl, List.getElem?_eq_getElem hl] at hnone
    cases hnone
  have hgcd : Function.Periodic (walk l) (m.length.gcd l.length) :=
    periodic_gcd (hw ▸ walk_periodic m) (walk_periodic l)
  have hpos := Nat.gcd_pos_of_pos_left l.length hm
  have hle := Nat.gcd_le_right m.length hl
  have hhas := hasPeriod_of_periodic hpos hle (Nat.gcd_dvd_right _ _) hgcd
  calc period l ≤ m.length.gcd l.length := (period_spec hl).2.2.2 _ hpos hle hhas
    _ ≤ m.length := Nat.gcd_le_left l.length hm

/-! ## The reduced list -/

theorem length_unwrap_collapse_pos {l : List α} (h : l ≠ []) : 0 < (unwrap (collapse l)).length := by
  obtain ⟨a, ha⟩ := List.exists_mem_of_ne_nil l h
  exact List.length_pos_of_mem (mem_unwrap.2 (mem_collapse.2 ha))

theorem walk_reduce (l : List α) : walk (reduce l) = walk (unwrap (collapse l)) := by
  by_cases h : l = []
  · rw [h]
    rfl
  · exact walk_take_period (length_unwrap_collapse_pos h)

theorem mem_reduce {l : List α} {x : α} : x ∈ reduce l ↔ x ∈ l := by
  rw [mem_iff_walk, walk_reduce, ← mem_iff_walk, mem_unwrap, mem_collapse]

theorem collapse_replicate (a : α) (n : Nat) : collapse (List.replicate (n + 1) a) = [a] := by
  induction n with
  | zero => rfl
  | succ n ih => rw [List.replicate_succ, List.replicate_succ, collapse, if_pos rfl]; exact ih

/-- Of a list with one value, however often, that value is left. -/
theorem reduce_of_forall_eq {l : List α} {a : α} (ha : a ∈ l) (h : ∀ b ∈ l, b = a) :
    reduce l = [a] := by
  obtain ⟨n, rfl⟩ : ∃ n, l = List.replicate (n + 1) a := by
    refine ⟨l.length - 1, ?_⟩
    rw [Nat.sub_add_cancel (List.length_pos_of_mem ha)]
    exact List.eq_replicate_iff.2 ⟨rfl, h⟩
  have hperiod := (period_spec (l := [a]) Nat.one_pos).1
  rw [reduce, collapse_replicate]
  exact List.take_of_length_le hperiod

theorem walk_reduce_eq_collapsed {l : List α} (h : Varied l) :
    walk (reduce l) = collapsed (walk l) :=
  (walk_reduce l).trans (collapsed_walk h).symm

theorem length_reduce_le {l m : List α} (h : Varied l) (hw : walk m = collapsed (walk l)) :
    (reduce l).length ≤ m.length := by
  rw [collapsed_walk h] at hw
  have hpos := (unwrap_collapse h).1.length_pos
  rw [reduce, length_take_period hpos]
  exact period_le_length hpos hw

theorem reduce_eq_reduce_iff {l l' : List α} (h : Varied l) (h' : Varied l') :
    reduce l = reduce l' ↔ collapsed (walk l) = collapsed (walk l') := by
  rw [← walk_reduce_eq_collapsed h, ← walk_reduce_eq_collapsed h']
  refine ⟨congrArg walk, fun hw => eq_of_walk_eq hw (Nat.le_antisymm ?_ ?_)⟩
  · exact length_reduce_le h (hw.symm.trans (walk_reduce_eq_collapsed h))
  · exact length_reduce_le h' (hw.trans (walk_reduce_eq_collapsed h'))

theorem reduce_reduce (l : List α) : reduce (reduce l) = reduce l := by
  rcases varied_or l with h | rfl | ⟨a, ha, hall⟩
  · have hagain : Varied (reduce l) := by simpa only [Varied, mem_reduce] using h
    rw [reduce_eq_reduce_iff hagain h, walk_reduce_eq_collapsed h, collapsed_walk h]
    exact collapsed_eq_self (unwrap_collapse h).1.walk_ne
  · rfl
  · rw [reduce_of_forall_eq ha hall]
    exact reduce_of_forall_eq (List.mem_singleton.2 rfl) fun b hb => List.mem_singleton.1 hb

/-- The reduced list is a canonical form.  A list with one value is reduced to that value.  A list with
two is reduced to the shortest list of which the repetition is that of the list with equal values in a
row made one.  So a reduced list is reduced to itself, it has the values of the list, and it is the same
for two lists exactly when they are walked alike but for values in a row that are equal. -/
theorem reduce_canonical (l : List α) :
    (l = [] → reduce l = []) ∧ (∀ a ∈ l, (∀ b ∈ l, b = a) → reduce l = [a]) ∧
      (Varied l → walk (reduce l) = collapsed (walk l) ∧
        ∀ m, walk m = collapsed (walk l) →
          (reduce l).length ≤ m.length ∧ (m.length = (reduce l).length → m = reduce l)) ∧
      reduce (reduce l) = reduce l ∧ (∀ x, x ∈ reduce l ↔ x ∈ l) ∧
      ∀ l', Varied l → Varied l' →
        (reduce l = reduce l' ↔ collapsed (walk l) = collapsed (walk l')) := by
  refine ⟨fun hnil => by rw [hnil]; rfl, fun a => reduce_of_forall_eq, fun h => ?_,
    reduce_reduce l, fun x => mem_reduce, fun l' => reduce_eq_reduce_iff⟩
  refine ⟨walk_reduce_eq_collapsed h, fun m hm => ⟨length_reduce_le h hm, fun hlen => ?_⟩⟩
  exact eq_of_walk_eq (hm.trans (walk_reduce_eq_collapsed h).symm) hlen

theorem reduce_canonical_nod :
    let nod : List Angle := [10, -10, -10, 10].map Angle.ofArcseconds
    let pair : List Angle := [10, -10].map Angle.ofArcseconds
    Varied nod ∧ Varied pair ∧ walk (reduce nod) = collapsed (walk nod) ∧
      (∀ m, walk m = collapsed (walk nod) → 2 ≤ m.length) ∧
      collapsed (walk nod) = collapsed (walk pair) ∧
      reduce ([10, 10].map Angle.ofArcseconds) = [.ofArcseconds 10] := by
  intro nod pair
  have hne : Angle.ofArcseconds 10 ≠ .ofArcseconds (-10) := by decide
  have hnod : Varied nod := ⟨_, by decide, _, by decide, hne⟩
  have hpair : Varied pair := ⟨_, by decide, _, by decide, hne⟩
  have hsame : reduce nod = reduce pair := by decide
  obtain ⟨-, -, hshortest, -, -, hiff⟩ := reduce_canonical nod
  obtain ⟨hwalk, hleast⟩ := hshortest hnod
  refine ⟨hnod, hpair, hwalk, fun m hm => ?_, (hiff pair hnod hpair).1 hsame, ?_⟩
  · exact (by decide : 2 ≤ (reduce nod).length).trans (hleast m hm).1
  · exact (reduce_canonical _).2.1 (Angle.ofArcseconds 10) (by decide) (by decide)

end Cycle
end Observing
