import Observing.Proofs.Circles
import Observing.Proofs.Origin

/-!
# What the engine returns

A result is made of one search after another, and there is a result where all of them end.  Where one
goes on for ever the engine returns nothing, whatever it would have to say behind that.

* `Generator.Leaves`     the searches for all that remains of a plan end;
* `Engine.Generates`     what is returned for the next atoms, if anything is;
* `Engine.Digests`       what is returned for a digest, if anything is;
* `generates_ok_iff`, `digests_ok_iff`         there is a result exactly where the searches end;
* `generates_of_apart`, `digests_of_apart`     with distinct identities there is one;
* `not_digests_of_circles`   with repetitions that go round in a circle there is no digest;
* `Engine.invoice`       what is charged for an observation, whether a digest is returned or not;
* `Digests.science`      the digest of the science sequence is that of the atoms that searches come to.
-/

namespace Observing
namespace Generator

variable {g : Generator} {t : TelescopeState}

/-- The searches for all that remains of a plan come to something: those up to its end, or, of a plan
without end, as many as there are atoms before the one that goes on for ever, one at least. -/
def Leaves (g : Generator) (t : TelescopeState) : Prop :=
  if g.plan.isUnbounded then g.Searches (max g.plan.atoms.length 1) (.start t)
  else ∃ es, g.Lists (.start t) es

theorem leaves_of_finite (h : g.plan.isUnbounded = false) :
    g.Leaves t ↔ ∃ es, g.Lists (.start t) es := by
  rw [Leaves, if_neg (by simp [h])]

theorem leaves_of_sound {n : Nat} (hs : g.Sound (g.reach n)) (hn : g.progress.failedIds.Nodup)
    (hlen : g.plan.isUnbounded = true → max g.plan.atoms.length 1 ≤ n) (t : TelescopeState) :
    g.Leaves t := by
  cases hend : g.plan.isUnbounded with
  | true =>
    rw [Leaves, if_pos hend]
    exact searches_of_sound (hs.mono (g.reach_mono (hlen hend))) hn t
  | false =>
    have hfinite := onward_of_finite hend
    rw [reach_finite hend] at hs
    rw [leaves_of_finite hend]
    exact ⟨_, lists_way hfinite (fun p hp => not_circles_of_sound hfinite hs hp) t⟩

end Generator

namespace Engine

variable {e : Engine} {o : Observation} {calculator : Calculator} {s : Specification}
  {limit : Option Nat}

/-! ## Results -/

/-- The engine returns a result for the next atoms.  In each sequence the search for the next atom
comes to something, and so do those for the atoms behind it and the one for whether there are more. -/
structure Generates (e : Engine) (o : Observation) (calculator : Calculator) (limit : Option Nat)
    (result : Except Refusal ExecutionConfig) : Prop where
  ends : ∀ s, e.specification o calculator = .ok s → ∀ sequence plan,
    (Plans.ofSpecification s).get? sequence = some plan →
      (e.generator o sequence plan).Searches (e.limits.future limit + 2)
        (.start (telescope o sequence))
  result : e.generate o calculator limit = result

/-- The engine returns a result for a digest: in each sequence the searches for all that remains come
to something. -/
structure Digests (e : Engine) (o : Observation) (calculator : Calculator)
    (result : Except Refusal ObservationDigest) : Prop where
  ends : ∀ s, e.specification o calculator = .ok s → ∀ sequence plan,
    (Plans.ofSpecification s).get? sequence = some plan →
      (e.generator o sequence plan).Leaves (telescope o sequence)
  result : e.digest o calculator = result

/-! ## When there is a result -/

theorem forall_specification_iff (hs : e.specification o calculator = .ok s)
    {P : Specification → Prop} : (∀ s', e.specification o calculator = .ok s' → P s') ↔ P s := by
  constructor
  · exact fun h => h s hs
  · intro h s' hs'
    obtain rfl := Except.ok.inj (hs.symm.trans hs')
    exact h

theorem generates_ok_iff (hs : e.specification o calculator = .ok s) :
    (∃ config, e.Generates o calculator limit (.ok config)) ↔ ∀ sequence plan,
      (Plans.ofSpecification s).get? sequence = some plan →
        (e.generator o sequence plan).Searches (e.limits.future limit + 2)
          (.start (telescope o sequence)) := by
  constructor
  · rintro ⟨config, h⟩
    exact h.ends s hs
  · intro hends
    obtain ⟨config, hconfig⟩ := generate_ok hs limit
    exact ⟨config, (forall_specification_iff hs).2 hends, hconfig⟩

theorem digests_ok_iff (hs : e.specification o calculator = .ok s) :
    (∃ d, e.Digests o calculator (.ok d)) ↔ ∀ sequence plan,
      (Plans.ofSpecification s).get? sequence = some plan →
        (e.generator o sequence plan).Leaves (telescope o sequence) := by
  constructor
  · rintro ⟨d, h⟩
    exact h.ends s hs
  · intro hends
    obtain ⟨d, hd, -⟩ := digest_eq hs
    exact ⟨d, (forall_specification_iff hs).2 hends, hd⟩

/-- What is refused is refused before any search. -/
theorem digests_error_iff {refusal : Refusal} :
    e.Digests o calculator (.error refusal) ↔ e.specification o calculator = .error refusal := by
  cases hs : e.specification o calculator with
  | error first =>
    have hd : e.digest o calculator = .error first := by
      rw [digest, hs]
      rfl
    constructor
    · intro h
      cases hd.symm.trans h.result
      rfl
    · intro h
      cases h
      refine ⟨fun s hok => ?_, hd⟩
      rw [hs] at hok
      cases hok
  | ok s =>
    obtain ⟨d, hd, -⟩ := digest_eq hs
    refine iff_of_false (fun h => ?_) nofun
    cases hd.symm.trans h.result

section

variable (hs : e.specification o calculator = .ok s) (hd : o.history.DistinctFailures)

include hs hd

/-- Where failed steps and atoms have identities of their own, a window of any length is returned. -/
theorem generates_of_apart (hapart : ∀ sequence,
    AtomKey.Apart (e.atomKeys o s sequence (e.limits.future limit + 2))) :
    ∃ config, e.Generates o calculator limit (.ok config) := by
  rw [generates_ok_iff hs]
  intro sequence plan hplan
  exact Generator.searches_of_sound (sound hplan hd (hapart sequence)) (nodup_failedIds hd) _

/-- Where failed steps and atoms have identities of their own, a digest is returned. -/
theorem digests_of_apart (hapart : ∀ sequence, AtomKey.Apart (e.atomKeys o s sequence 1)) :
    ∃ d, e.Digests o calculator (.ok d) := by
  rw [digests_ok_iff hs]
  intro sequence plan hplan
  refine Generator.leaves_of_sound (sound hplan hd (hapart sequence)) (nodup_failedIds hd) ?_ _
  intro hend
  exact Nat.max_le.2 ⟨length_atoms_le hplan hend, Nat.le_refl 1⟩

end

/-- Where the repetitions of a failed step of science go round in a circle, no digest is returned. -/
theorem not_digests_of_circles (hs : e.specification o calculator = .ok s) {p : Pending}
    (hp : p ∈ (e.science o s).leftBehind) (h : (e.science o s).Circles p)
    (result : Except Refusal ObservationDigest) : ¬e.Digests o calculator result := by
  intro hresult
  have hleaves := hresult.ends s hs .science _ rfl
  obtain ⟨es, hes⟩ := (Generator.leaves_of_finite rfl).1 hleaves
  exact Generator.not_circles_of_lists rfl hes p hp h

/-! ## What is returned -/

/-- What is charged for an observation. -/
def invoice (e : Engine) (o : Observation) : Invoice := .ofHistory e.costs o.history o.corrections

theorem Digests.accepted {d : ObservationDigest} (h : e.Digests o calculator (.ok d)) :
    ∃ s, e.specification o calculator = .ok s := by
  cases hs : e.specification o calculator with
  | error refusal => cases h.result.symm.trans (digests_error_iff.2 hs).result
  | ok s => exact ⟨s, rfl⟩

/-- The parts of a digest. -/
theorem Digests.parts (hs : e.specification o calculator = .ok s) {d : ObservationDigest}
    (h : e.Digests o calculator (.ok d)) :
    d.observation = o.id ∧ d.invoice = e.invoice o ∧
    d.execution.acquisition =
      (Plans.ofSpecification s).acquisition.map (e.sequenceDigest o .acquisition) ∧
    d.execution.science = .ofAtoms (e.remaining o s) := by
  have hd := h.result
  unfold digest at hd
  rw [hs] at hd
  cases hd
  exact ⟨rfl, rfl, rfl, rfl⟩

theorem Digests.observation {d : ObservationDigest} (h : e.Digests o calculator (.ok d)) :
    d.observation = o.id := by
  obtain ⟨s, hs⟩ := h.accepted
  exact (h.parts hs).1

theorem Digests.invoice {d : ObservationDigest} (h : e.Digests o calculator (.ok d)) :
    d.invoice = e.invoice o := by
  obtain ⟨s, hs⟩ := h.accepted
  exact (h.parts hs).2.1

/-- The digest of the science sequence is that of the atoms to which the searches come, one after
another. -/
theorem Digests.science (hs : e.specification o calculator = .ok s) {d : ObservationDigest}
    (h : e.Digests o calculator (.ok d)) :
    ∃ es, (e.science o s).Lists (.start (telescope o .science)) es ∧
      d.execution.science = .ofAtoms (es.map (·.atom)) := by
  obtain ⟨es, hes⟩ := (Generator.leaves_of_finite rfl).1 (h.ends s hs .science _ rfl)
  obtain ⟨-, -, -, hscience⟩ := h.parts hs
  exact ⟨es, hes, hscience.trans (congrArg _ (Generator.remaining_of_lists rfl hes))⟩

end Engine
end Observing
