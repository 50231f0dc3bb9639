import Mathlib.Algebra.Group.Nat.Defs
import Observing.Wire.Observation

/-!
# Numbers that documents can hold

Exposures are counted in 32 bits.  A document with a greater number, or one below none, is not read; so
whatever observation is read, its numbers of exposures are of that size.

* `Reading.Yields`                   whatever is read has a property;
* `ObservingMode.Counted`            the exposures per atom of a mode have 32 bits;
* `Observation.counted_of_decode`    the numbers of an observation that was read.
-/

namespace Observing

/-! ## What is read -/

namespace Reading

variable {α β : Type} {P : α → Prop} {Q : β → Prop}

/-- Whatever is read has a property. -/
def Yields (x : Reading α) (P : α → Prop) : Prop := ∀ r a r', x r = .ok (a, r') → P a

namespace Yields

theorem anything (x : Reading α) : x.Yields fun _ => True := fun _ _ _ _ => trivial

theorem pure {a : α} (h : P a) : Yields (Pure.pure a) P := by
  intro r b r' hb
  cases hb
  exact h

theorem bind {x : Reading α} {f : α → Reading β} (hx : x.Yields P)
    (hf : ∀ a, P a → (f a).Yields Q) : (x >>= f).Yields Q := by
  intro r b r' hb
  rw [bind_apply] at hb
  cases hr : x r with
  | error e =>
    rw [hr] at hb
    cases hb
  | ok p =>
    rw [hr] at hb
    exact hf p.1 (hx r p.1 p.2 hr) p.2 b r' hb

theorem map {x : Reading α} {f : α → β} (h : x.Yields fun a => Q (f a)) : (f <$> x).Yields Q := by
  rw [map_eq_pure_bind]
  exact h.bind fun _ ha => .pure ha

theorem lift {x : Decoded α} (h : ∀ a, x = .ok a → P a) : Yields (liftM x) P := by
  intro r a r' ha
  cases x with
  | error e => cases ha
  | ok b =>
    cases ha
    exact h _ rfl

variable {read : Json → Decoded α}

theorem fieldBy (h : ∀ j a, read j = .ok a → P a) (name : String) : (fieldBy read name).Yields P := by
  refine (anything (field? name)).bind fun j? _ => ?_
  cases j? with
  | none =>
    intro r a r' ha
    cases ha
  | some j => exact .lift (h j)

theorem fieldOrBy (h : ∀ j a, read j = .ok a → P a) (name : String) {standard : α}
    (hstandard : P standard) : (fieldOrBy read name standard).Yields P := by
  refine (anything (field? name)).bind fun j? _ => ?_
  cases j? with
  | none => exact .pure hstandard
  | some j => exact .lift (h j)

/-- What a field holds that may be missing. -/
theorem maybeBy (h : ∀ j a, read j = .ok a → P a) (name : String) :
    (maybeBy read name).Yields fun o => ∀ a ∈ o, P a := by
  refine .fieldOrBy (fun j o ho => ?_) name fun a ha => by cases ha
  intro a ha
  obtain rfl : o = some a := ha
  unfold decodeOption at ho
  split at ho
  · cases ho
  · cases hj : read j with
    | error e =>
      rw [hj] at ho
      cases ho
    | ok b =>
      rw [hj] at ho
      cases ho
      exact h j a hj

theorem finish {x : Reading α} (h : x.Yields P) {r : Record} {a : α}
    (ha : Reading.finish (x r) = .ok a) : P a := by
  unfold Reading.finish at ha
  split at ha
  · next hx =>
    cases ha
    exact h _ _ _ hx
  · next hx =>
    cases ha
    exact h _ _ _ hx
  · cases ha
  · cases ha

theorem record {x : Reading α} (h : x.Yields P) {j : Json} {a : α}
    (ha : Reading.record x j = .ok a) : P a := by
  unfold Reading.record at ha
  split at ha
  · exact h.finish ha
  · exact h.finish ha
  · cases ha

end Yields
end Reading

theorem lt_of_decodeHalfWord {j : Json} {n : ℕ} (h : decodeHalfWord j = .ok n) : n < 2 ^ 32 := by
  unfold decodeHalfWord decodeNat at h
  split at h
  · split at h
    · cases h
      omega
    · cases h
  · cases h

/-! ## Observations -/

/-- The exposures per atom of a mode have 32 bits. -/
def ObservingMode.Counted : ObservingMode → Prop
  | gmosNorthLongSlit m | gmosSouthLongSlit m => ∀ n ∈ m.exposuresPerAtom, n < 2 ^ 32
  | gmosNorthImaging _ | gmosSouthImaging _ | flamingos2LongSlit _ => True

theorem yields_gmosLongSlit :
    readGmosLongSlit.Yields fun m => ∀ n ∈ m.exposuresPerAtom, n < 2 ^ 32 := by
  unfold readGmosLongSlit
  refine (Reading.Yields.anything _).bind fun _ _ => (Reading.Yields.anything _).bind fun _ _ => ?_
  refine (Reading.Yields.anything _).bind fun _ _ => (Reading.Yields.anything _).bind fun _ _ => ?_
  refine (Reading.Yields.anything _).bind fun _ _ => (Reading.Yields.anything _).bind fun _ _ => ?_
  refine (Reading.Yields.anything _).bind fun _ _ => ?_
  exact (Reading.Yields.maybeBy (fun _ _ => lt_of_decodeHalfWord) _).bind fun _ h => .pure h

theorem yields_readMode (name : String) : (readMode name).Yields ObservingMode.Counted := by
  unfold readMode
  split
  · exact .map yields_gmosLongSlit
  · exact .map yields_gmosLongSlit
  · exact .map (.anything _)
  · exact .map (.anything _)
  · exact .map (.anything _)
  · intro r a r' ha
    cases ha

theorem ObservingMode.counted_of_decode {j : Json} {mode : ObservingMode} (h : decode j = .ok mode) :
    mode.Counted := by
  have hyields : Reading.Yields (do readMode (← Reading.field "mode")) Counted :=
    (Reading.Yields.anything _).bind fun name _ => yields_readMode name
  change Reading.whole _ j = .ok mode at h
  unfold Reading.whole at h
  split at h
  · exact hyields.record h
  · cases h

theorem IntegrationTime.exposureCount_lt_of_decode {j : Json} {time : IntegrationTime}
    (h : decode j = .ok time) : time.exposureCount < 2 ^ 32 := by
  refine Reading.Yields.record (P := fun time => time.exposureCount < 2 ^ 32) ?_ h
  refine (Reading.Yields.anything _).bind fun _ _ => ?_
  refine (Reading.Yields.fieldBy (fun _ _ => lt_of_decodeHalfWord) _).bind fun _ hcount => ?_
  exact (Reading.Yields.anything _).bind fun _ _ => .pure hcount

theorem IntegrationTimes.exposureCount_lt_of_decode {j : Json} {times : IntegrationTimes}
    (h : decode j = .ok times) : times.science.exposureCount < 2 ^ 32 := by
  refine Reading.Yields.record (P := fun times => times.science.exposureCount < 2 ^ 32) ?_ h
  refine (Reading.Yields.anything _).bind fun _ _ => ?_
  exact (Reading.Yields.fieldBy (fun _ _ => IntegrationTime.exposureCount_lt_of_decode) _).bind
    fun _ hcount => .pure hcount

/-- The numbers of an observation that was read have 32 bits. -/
theorem Observation.counted_of_decode {j : Json} {o : Observation} (h : decode j = .ok o) :
    (∀ mode ∈ o.mode, mode.Counted) ∧
      ∀ times ∈ o.integration, times.science.exposureCount < 2 ^ 32 := by
  refine Reading.Yields.record (P := fun o => (∀ mode ∈ o.mode, mode.Counted) ∧
    ∀ times ∈ o.integration, times.science.exposureCount < 2 ^ 32) ?_ h
  refine (Reading.Yields.anything _).bind fun _ _ => (Reading.Yields.anything _).bind fun _ _ => ?_
  refine (Reading.Yields.anything _).bind fun _ _ => ?_
  refine (Reading.Yields.maybeBy (fun _ _ => ObservingMode.counted_of_decode) _).bind fun _ hmode => ?_
  refine (Reading.Yields.anything _).bind fun _ _ => ?_
  refine (Reading.Yields.maybeBy (fun _ _ => IntegrationTimes.exposureCount_lt_of_decode) _).bind
    fun _ htimes => ?_
  exact (Reading.Yields.anything _).bind fun _ _ => (Reading.Yields.anything _).bind
    fun _ _ => .pure ⟨hmode, htimes⟩

end Observing
