import Mathlib.Data.Nat.Nth
import Mathlib.Data.Nat.Periodic
import Mathlib.Dynamics.PeriodicPts.Defs

/-!
# Walking a list again and again

The walk through a list is the sequence of its values, begun again after the last one.  It repeats
itself after the length of the list, and perhaps after fewer values.  Where a value follows an equal
one the walk stays, and the walk with equal values in a row made one does not.

* `Cycle.walk`        a list walked again and again;
* `Cycle.collapsed`   the values of a walk at the steps at which a new one begins;
* `Cycle.Follows`     a walk goes through the values of another, which does not stay;
* `Cycle.Restless`    a list that is walked without a stay.

Main statements: a walk that follows another collapses to it (`Follows.collapsed_eq`); two lengths after
which a walk repeats itself have a common one (`periodic_gcd`); copies of a list are walked like the list
(`walk_flatten_replicate`).
-/

namespace Observing
namespace Cycle

variable {α β : Type}

/-- The value at a step of the walk through a list again and again, if the list has any. -/
def walk (l : List α) (n : Nat) : Option α := l[n % l.length]?

theorem walk_add (l : List α) (q r : Nat) : walk l (l.length * q + r) = walk l r := by
  rw [walk, walk, Nat.mul_add_mod]

theorem walk_of_lt {l : List α} {i : Nat} (h : i < l.length) : walk l i = l[i]? := by
  rw [walk, Nat.mod_eq_of_lt h]

theorem walk_periodic (l : List α) : Function.Periodic (walk l) l.length := by
  intro n
  rw [walk, walk, Nat.add_mod_right]

theorem walk_nil (n : Nat) : walk ([] : List α) n = none := rfl

theorem mem_iff_walk {l : List α} {x : α} : x ∈ l ↔ ∃ n, walk l n = some x := by
  constructor
  · intro hx
    obtain ⟨i, hi⟩ := List.mem_iff_getElem?.1 hx
    exact ⟨i, (walk_of_lt (List.getElem?_eq_some_iff.1 hi).1).trans hi⟩
  · rintro ⟨n, hn⟩
    exact List.mem_of_getElem? hn

/-- Lists of one length that are walked alike are equal. -/
theorem eq_of_walk_eq {l m : List α} (hw : walk l = walk m) (hlen : l.length = m.length) : l = m := by
  refine List.ext_getElem? fun i => ?_
  rcases Nat.lt_or_ge i l.length with hlt | hge
  · rw [← walk_of_lt hlt, hw, walk_of_lt (hlen ▸ hlt)]
  · rw [List.getElem?_eq_none hge, List.getElem?_eq_none (hlen ▸ hge)]

/-! ## Values in a row made one -/

/-- A value begins at a step: the first one, or one that differs from the value before it. -/
def Begins (w : Nat → β) (n : Nat) : Prop := n = 0 ∨ w n ≠ w (n - 1)

/-- A walk with equal values in a row made one: its values at the steps at which one begins, for a walk
in which there is always another such step. -/
noncomputable def collapsed (w : Nat → β) (k : Nat) : β := w (Nat.nth (Begins w) k)

/-- A walk goes through the values of another, `f n` being reached at step `n`.  It may stay where it
is, and the other does not. -/
structure Follows (w u : Nat → β) (f : Nat → Nat) : Prop where
  zero : f 0 = 0
  step : ∀ n, f (n + 1) = f n ∨ f (n + 1) = f n + 1
  unbounded : ∀ k, ∃ n, k ≤ f n
  value : ∀ n, u (f n) = w n
  apart : ∀ k, u k ≠ u (k + 1)

namespace Follows

variable {w u : Nat → β} {f : Nat → Nat}

theorem begins_succ_iff (h : Follows w u f) (n : Nat) : Begins w (n + 1) ↔ f (n + 1) = f n + 1 := by
  rw [Begins, Nat.add_sub_cancel, ← h.value (n + 1), ← h.value n]
  constructor
  · rintro (hzero | hne)
    · cases hzero
    · rcases h.step n with hstay | hgo
      · rw [hstay] at hne
        exact absurd rfl hne
      · exact hgo
  · intro hgo
    rw [hgo]
    exact .inr (h.apart (f n)).symm

open Classical in
/-- The values that have begun are those that were reached. -/
theorem count_begins (h : Follows w u f) (n : Nat) : Nat.count (Begins w) (n + 1) = f n + 1 := by
  induction n with
  | zero => rw [Nat.count_succ, Nat.count_zero, if_pos (.inl rfl), h.zero]
  | succ n ih =>
    rw [Nat.count_succ, ih]
    rcases h.step n with hstay | hgo
    · have hnot : ¬Begins w (n + 1) := fun hb => by
        have := (h.begins_succ_iff n).1 hb
        omega
      rw [if_neg hnot, hstay]
    · rw [if_pos ((h.begins_succ_iff n).2 hgo), hgo]

open Classical in
theorem infinite_begins (h : Follows w u f) : {n | Begins w n}.Infinite := by
  intro hfinite
  obtain ⟨n, hn⟩ := h.unbounded hfinite.toFinset.card
  have hcount := h.count_begins n
  have hle : Nat.count (Begins w) (n + 1) ≤ _ := Nat.count_le_card hfinite (n + 1)
  omega

open Classical in
/-- The walk that does not stay anywhere is the other one with equal values in a row made one. -/
theorem collapsed_eq (h : Follows w u f) : collapsed w = u := by
  funext k
  have hbegins := Nat.nth_mem_of_infinite h.infinite_begins k
  have hcount := Nat.count_nth_of_infinite h.infinite_begins k
  have hreached := h.count_begins (Nat.nth (Begins w) k)
  rw [Nat.count_succ, hcount, if_pos hbegins] at hreached
  rw [collapsed, ← h.value, ← Nat.succ.inj hreached]

end Follows

/-- A walk that does not stay anywhere collapses to itself. -/
theorem collapsed_eq_self {u : Nat → β} (h : ∀ k, u k ≠ u (k + 1)) : collapsed u = u :=
  Follows.collapsed_eq (f := id) ⟨rfl, fun _ => .inr rfl, fun k => ⟨k, Nat.le_refl k⟩, fun _ => rfl, h⟩

/-! ## Lists that are walked without a stay -/

/-- The list has two different values. -/
def Varied (l : List α) : Prop := ∃ a ∈ l, ∃ b ∈ l, a ≠ b

theorem varied_or (l : List α) : Varied l ∨ l = [] ∨ ∃ a ∈ l, ∀ b ∈ l, b = a := by
  rcases eq_or_ne l [] with hnil | hne
  · exact .inr (.inl hnil)
  obtain ⟨a, ha⟩ := List.exists_mem_of_ne_nil l hne
  by_cases hall : ∀ b ∈ l, b = a
  · exact .inr (.inr ⟨a, ha, hall⟩)
  · obtain ⟨b, hb, hba⟩ := not_forall₂.1 hall
    exact .inl ⟨b, hb, a, ha, hba⟩

theorem Varied.length_pos {l : List α} (h : Varied l) : 0 < l.length := by
  obtain ⟨a, ha, -⟩ := h
  exact List.length_pos_of_mem ha

/-- No value of the list follows itself, where the first one follows the last. -/
structure Restless (l : List α) : Prop where
  chain : l.IsChain (· ≠ ·)
  around : l.getLast? ≠ l.head?

namespace Restless

variable {l : List α}

theorem length_pos (h : Restless l) : 0 < l.length := by
  refine List.length_pos_iff.2 fun hnil => h.around ?_
  rw [hnil]
  rfl

theorem getElem?_ne (h : Restless l) {i : Nat} (hi : i + 1 < l.length) : l[i]? ≠ l[i + 1]? := by
  rw [List.getElem?_eq_getElem (Nat.lt_of_succ_lt hi), List.getElem?_eq_getElem hi, ne_eq,
    Option.some.injEq]
  exact List.isChain_iff_getElem.1 h.chain i hi

/-- A restless list is walked without a stay. -/
theorem walk_ne (h : Restless l) (n : Nat) : walk l n ≠ walk l (n + 1) := by
  have hmod := Nat.mod_lt n h.length_pos
  unfold walk
  rcases Nat.lt_or_ge (n % l.length + 1) l.length with hin | hend
  · rw [Nat.add_mod, Nat.mod_eq_of_lt (Nat.lt_of_le_of_lt (Nat.le_add_left 1 _) hin),
      Nat.mod_eq_of_lt hin]
    exact h.getElem?_ne hin
  · have hlast : n % l.length = l.length - 1 := by omega
    have hback : (n + 1) % l.length = 0 := by
      rw [← Nat.mod_add_mod, hlast, Nat.sub_add_cancel h.length_pos, Nat.mod_self]
    rw [hlast, hback, ← List.getLast?_eq_getElem?, ← List.head?_eq_getElem?]
    exact h.around

end Restless

theorem restless_append {a b : α} {m : List α} (hchain : (a :: (m ++ [b])).IsChain (· ≠ ·))
    (h : b ≠ a) : Restless (a :: (m ++ [b])) where
  chain := hchain
  around := by simpa [List.getLast?_cons] using h

/-! ## Lengths after which a walk repeats itself -/

/-- A walk that is begun one step later. -/
def shift (w : Nat → β) (n : Nat) : β := w (n + 1)

theorem iterate_shift (w : Nat → β) (k : Nat) : shift^[k] w = fun n => w (n + k) := by
  induction k with
  | zero => rfl
  | succ k ih =>
    rw [Function.iterate_succ_apply', ih]
    funext n
    exact congrArg w (by omega)

theorem isPeriodicPt_shift_iff {w : Nat → β} {p : Nat} :
    Function.IsPeriodicPt shift p w ↔ Function.Periodic w p := by
  rw [Function.IsPeriodicPt, Function.IsFixedPt, iterate_shift, funext_iff]
  rfl

/-- A walk that repeats itself after two lengths does so after their greatest common divisor. -/
theorem periodic_gcd {w : Nat → β} {p q : Nat} (hp : Function.Periodic w p)
    (hq : Function.Periodic w q) : Function.Periodic w (p.gcd q) := by
  rw [← isPeriodicPt_shift_iff] at *
  exact hp.gcd hq

theorem getElem?_flatten_replicate (l : List α) {m i : Nat} (hi : i < m * l.length) :
    (List.replicate m l).flatten[i]? = l[i % l.length]? := by
  induction m generalizing i with
  | zero => simp at hi
  | succ m ih =>
    rw [List.replicate_succ, List.flatten_cons, List.getElem?_append]
    split
    · next hlt => rw [Nat.mod_eq_of_lt hlt]
    · next hge =>
      rw [Nat.succ_mul] at hi
      rw [ih (by omega), ← Nat.mod_eq_sub_mod (Nat.le_of_not_lt hge)]

/-- Copies of a list are walked like the list. -/
theorem walk_flatten_replicate (l : List α) {m : Nat} (hm : 0 < m) :
    walk (List.replicate m l).flatten = walk l := by
  funext n
  rcases Nat.eq_zero_or_pos l.length with hnil | hpos
  · rw [List.length_eq_zero_iff.1 hnil]
    simp [walk]
  · have hlen : (List.replicate m l).flatten.length = m * l.length := by simp
    rw [walk, hlen, getElem?_flatten_replicate l (Nat.mod_lt n (Nat.mul_pos hm hpos)),
      Nat.mod_mul_left_mod, walk]

/-- The values up to a length after which a list repeats itself are walked like the list. -/
theorem walk_take {l : List α} {p : Nat} (hp : 0 < p) (hle : p ≤ l.length)
    (h : Function.Periodic (walk l) p) : walk (l.take p) = walk l := by
  funext n
  have hlt := Nat.mod_lt n hp
  rw [walk, List.length_take, Nat.min_eq_left hle, List.getElem?_take_of_lt hlt,
    ← walk_of_lt (Nat.lt_of_lt_of_le hlt hle), h.map_mod_nat]

end Cycle
end Observing
