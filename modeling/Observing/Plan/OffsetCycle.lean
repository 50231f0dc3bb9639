/-!
# Cycles

A list of offsets is walked again and again.  Values in a row that are equal count once, also where
the end meets the beginning; of the rest the shortest period is kept.

* `Cycle.collapse`   equal values in a row made one;
* `Cycle.unwrap`     the end, as far as it repeats the beginning, taken off;
* `Cycle.period`     the length of the shortest list of which a list consists;
* `Cycle.reduce`     the three together: `[10, -10, -10, 10]` becomes `[10, -10]`.

Main statements: collapsing and unwrapping lose no value (`mem_collapse`, `mem_unwrap`).
-/

namespace Observing
namespace Cycle

variable {α : Type} [DecidableEq α]

/-- Equal values in a row made one. -/
def collapse : List α → List α
  | [] => []
  | [a] => [a]
  | a :: b :: l => if a = b then collapse (b :: l) else a :: collapse (b :: l)

/-- The list without the values at its end that equal the first. -/
def unwrap : List α → List α
  | [] => []
  | a :: l => a :: (l.reverse.dropWhile (· = a)).reverse

/-- The list consists of copies of its first `p` values. -/
def HasPeriod (l : List α) (p : Nat) : Prop :=
  l.length % p = 0 ∧ (List.replicate (l.length / p) (l.take p)).flatten = l

instance (l : List α) (p : Nat) : Decidable (HasPeriod l p) :=
  inferInstanceAs (Decidable (_ ∧ _))

/-- The length of the shortest list of which copies make up the list. -/
def period (l : List α) : Nat :=
  (((List.range l.length).map (· + 1)).find? fun p => HasPeriod l p).getD l.length

/-- The shortest cycle that is walked like the list. -/
def reduce (l : List α) : List α :=
  let cycle := unwrap (collapse l)
  cycle.take (period cycle)

theorem mem_collapse {l : List α} {x : α} : x ∈ collapse l ↔ x ∈ l := by
  fun_induction collapse l with
  | case1 => rfl
  | case2 => rfl
  | case3 a l ih => rw [ih]; simp
  | case4 a b l hab ih => rw [List.mem_cons, ih, List.mem_cons (a := x) (b := a)]

theorem mem_unwrap {l : List α} {x : α} : x ∈ unwrap l ↔ x ∈ l := by
  cases l with
  | nil => rfl
  | cons a l =>
    by_cases hx : x = a
    · simp [unwrap, hx]
    · simp only [unwrap, List.mem_cons, hx, false_or, List.mem_reverse]
      constructor
      · intro h
        exact List.mem_reverse.1 ((List.dropWhile_sublist _).subset h)
      · intro h
        have hsplit := List.takeWhile_append_dropWhile (p := (· = a)) (l := l.reverse)
        have hmem : x ∈ l.reverse := List.mem_reverse.2 h
        rw [← hsplit, List.mem_append] at hmem
        rcases hmem with ht | hd
        · exact absurd (by simpa using List.all_eq_true.1 List.all_takeWhile x ht) hx
        · exact hd

end Cycle
end Observing
