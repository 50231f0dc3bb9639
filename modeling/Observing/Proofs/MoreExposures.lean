import Observing.Proofs.Ceiling
import Observing.Proofs.Deficit

/-!
# Asking for more exposures

An atom is known by its position in the plan, and a step by its index in the atom.  So what was executed
keeps its meaning only if a plan with more exposures has, at every position of the smaller one, the atom
that was there, with more steps behind its own at most.  Spectra and nodding have such plans: the atoms
are filled one after another, and the calibrations in between depend on what is in front of them alone.

* `ProtoAtom.Begins`, `PlannedAtom.Begins`   an atom is the beginning of another;
* `Continued`                     the entries of a list stand in a relation to the first of another;
* `Continued.injectAfter`         calibrations come at the same positions;
* `Specification.continued_scienceAtoms`   the plans for different numbers of exposures;
* `Tally.unmet_takeAll_append`    steps that are planned behind others do not change what those meet;
* `Generator.Consumed`, `Generator.KeptBy`   which planned steps were executed, and who agrees on it;
* `Engine.keptBy_asking`          what becomes of a plan when more exposures are asked for.
-/

namespace Observing

/-! ## The beginnings of atoms -/

/-- An atom is the beginning of another of the same name and kind. -/
structure ProtoAtom.Begins (a b : ProtoAtom) : Prop where
  description : b.description = a.description
  kind : b.kind = a.kind
  steps : a.steps <+: b.steps

theorem ProtoAtom.Begins.refl (a : ProtoAtom) : a.Begins a := ⟨rfl, rfl, List.prefix_refl _⟩

/-- The beginning of a science atom is calibrated as the atom is. -/
structure PlannedAtom.Begins (a b : PlannedAtom) : Prop where
  group : b.group = a.group
  base : b.base = a.base
  atom : a.atom.Begins b.atom

theorem PlannedAtom.Begins.refl (a : PlannedAtom) : a.Begins a := ⟨rfl, rfl, .refl _⟩

/-! ## Lists that go on -/

/-- The entries of a list stand in a relation to those at the same positions of another, which may go
on behind them. -/
inductive Continued {α : Type} (R : α → α → Prop) : List α → List α → Prop
  | nil (m : List α) : Continued R [] m
  | cons {a b : α} {l m : List α} (hab : R a b) (h : Continued R l m) : Continued R (a :: l) (b :: m)

namespace Continued

variable {α β : Type} {R : α → α → Prop} {S : β → β → Prop} {l m : List α}

theorem iff_getElem? : Continued R l m ↔ ∀ (j : ℕ) (a : α), l[j]? = some a → ∃ b, m[j]? = some b ∧ R a b := by
  constructor
  · intro h
    induction h with
    | nil m =>
      intro j a ha
      rw [List.getElem?_nil] at ha
      cases ha
    | @cons a b l m hab _ ih =>
      intro j x hx
      cases j with
      | zero =>
        obtain rfl : a = x := Option.some.inj hx
        exact ⟨b, rfl, hab⟩
      | succ j => exact ih j x hx
  · intro h
    induction l generalizing m with
    | nil => exact .nil m
    | cons a l ih =>
      obtain ⟨b, hb, hab⟩ := h 0 a rfl
      cases m with
      | nil => cases hb
      | cons b' m =>
        obtain rfl : b' = b := Option.some.inj hb
        exact .cons hab (ih fun j x hx => h (j + 1) x hx)

theorem map (h : Continued R l m) {f : α → β} (hf : ∀ a b, R a b → S (f a) (f b)) :
    Continued S (l.map f) (m.map f) := by
  induction h with
  | nil m => exact .nil _
  | cons hab _ ih => exact .cons (hf _ _ hab) ih

theorem map_range {f g : ℕ → α} {n k : ℕ} (hle : n ≤ k) (h : ∀ j, R (f j) (g j)) :
    Continued R ((List.range n).map f) ((List.range k).map g) := by
  rw [iff_getElem?]
  intro j a ha
  rw [List.getElem?_map, Option.map_eq_some_iff] at ha
  obtain ⟨i, hi, rfl⟩ := ha
  obtain ⟨hj, hi⟩ := List.getElem?_eq_some_iff.1 hi
  rw [List.getElem_range] at hi
  rw [List.length_range] at hj
  subst hi
  refine ⟨g j, ?_, h j⟩
  rw [List.getElem?_map, List.getElem?_range (hj.trans_le hle)]
  rfl

theorem replicate (hR : ∀ a, R a a) {n k : ℕ} (hle : n ≤ k) (a : α) :
    Continued R (List.replicate n a) (List.replicate k a) := by
  rw [iff_getElem?]
  intro j b hb
  rw [List.getElem?_replicate] at hb
  split at hb
  · obtain rfl : a = b := Option.some.inj hb
    exact ⟨a, List.getElem?_replicate_of_lt (by omega), hR a⟩
  · cases hb

/-- Calibrations come at the same positions, whatever goes on behind. -/
theorem injectAfter (c : ArcAndFlat) {l m : List PlannedAtom} (h : Continued PlannedAtom.Begins l m)
    (previous : Option ℕ) :
    Continued ProtoAtom.Begins (c.injectAfter previous l) (c.injectAfter previous m) := by
  induction h generalizing previous with
  | nil m => exact .nil _
  | @cons a b l m hab _ ih =>
    rw [ArcAndFlat.injectAfter, ArcAndFlat.injectAfter, hab.group, hab.base]
    by_cases hgroup : previous = some a.group
    · rw [if_pos hgroup, if_pos hgroup]
      exact .cons hab.atom (ih _)
    · rw [if_neg hgroup, if_neg hgroup]
      exact .cons (.refl _) (.cons hab.atom (ih _))

theorem injectCalibrations (c : Option ArcAndFlat) {l m : List PlannedAtom}
    (h : Continued PlannedAtom.Begins l m) :
    Continued ProtoAtom.Begins (injectCalibrations c l) (injectCalibrations c m) := by
  cases c with
  | none => exact h.map fun _ _ hab => hab.atom
  | some c => exact h.injectAfter c none

end Continued

/-! ## Plans for different numbers of exposures -/

theorem ceilDiv_mono {n m : ℕ} (hle : n ≤ m) (d : ℕ) : ceilDiv n d ≤ ceilDiv m d := by
  unfold ceilDiv
  split
  · exact Nat.le_refl 0
  · exact Nat.div_le_div_right (by omega)

namespace LongSlitPlan

/-- The plan for another number of exposures. -/
def asking (s : LongSlitPlan) (n : ℕ) : LongSlitPlan := { s with exposureCount := n }

variable {n m : ℕ}

theorem stepCount_asking_mono (s : LongSlitPlan) (hle : n ≤ m) (j : ℕ) :
    (s.asking n).stepCount j ≤ (s.asking m).stepCount j := by
  show min ((j + 1) * s.exposuresPerAtom) n - j * s.exposuresPerAtom ≤
    min ((j + 1) * s.exposuresPerAtom) m - j * s.exposuresPerAtom
  omega

/-- At every position, the atom for fewer exposures is the beginning of that for more. -/
theorem begins_atom (s : LongSlitPlan) (hle : n ≤ m) (j : ℕ) :
    ((s.asking n).atom j).Begins ((s.asking m).atom j) := by
  obtain ⟨k, hk⟩ := Nat.exists_eq_add_of_le (s.stepCount_asking_mono hle j)
  refine ⟨rfl, rfl, rfl, rfl, ?_⟩
  show (List.range ((s.asking n).stepCount j)).map (s.step (j % s.adjustmentCount)) <+:
    (List.range ((s.asking m).stepCount j)).map (s.step (j % s.adjustmentCount))
  rw [hk, List.range_add, List.map_append]
  exact List.prefix_append _ _

theorem continued_atoms (s : LongSlitPlan) (hle : n ≤ m) :
    Continued PlannedAtom.Begins (s.asking n).atoms (s.asking m).atoms :=
  .map_range (ceilDiv_mono hle s.exposuresPerAtom) (s.begins_atom hle)

end LongSlitPlan

/-- More cycles are the same atom more often. -/
theorem NodPlan.continued_atoms (s : NodPlan) {n m : ℕ} (hle : n ≤ m) :
    Continued PlannedAtom.Begins { s with cycles := n }.atoms { s with cycles := m }.atoms :=
  .replicate .refl hle s.cycleAtom

/-- The mode takes spectra, through a slit or nodding along it. -/
def ObservingMode.Spectroscopic : ObservingMode → Prop
  | gmosNorthLongSlit _ | gmosSouthLongSlit _ | flamingos2LongSlit _ => True
  | gmosNorthImaging _ | gmosSouthImaging _ => False

/-- The same exposures in another number. -/
def IntegrationTimes.asking (times : IntegrationTimes) (n : ℕ) : IntegrationTimes :=
  { times with science := { times.science with exposureCount := n } }

namespace Specification

variable {mode : ObservingMode} {n m : ℕ}

theorem continued_atoms (id : String) (role : Option CalibrationRole) (times : IntegrationTimes)
    (hmode : mode.Spectroscopic) (hle : n ≤ m) : Continued PlannedAtom.Begins
      (ofMode id role (times.asking n) mode).science.atoms
      (ofMode id role (times.asking m) mode).science.atoms := by
  cases mode with
  | gmosNorthLongSlit g =>
    exact (gmosLongSlitPlan .gmosNorth g times (.longSlit .gmosNorth role)).continued_atoms hle
  | gmosSouthLongSlit g =>
    exact (gmosLongSlitPlan .gmosSouth g times (.longSlit .gmosSouth role)).continued_atoms hle
  | flamingos2LongSlit f =>
    exact (flamingosPlan f times (.longSlit .flamingos2 role)).continued_atoms
      (ceilDiv_mono hle (flamingosPlan f times (.longSlit .flamingos2 role)).offsets.length)
  | gmosNorthImaging _ => exact hmode.elim
  | gmosSouthImaging _ => exact hmode.elim

/-- The plan for fewer exposures, calibrations included, is the beginning of the plan for more. -/
theorem continued_scienceAtoms (id : String) (role : Option CalibrationRole)
    (times : IntegrationTimes) (hmode : mode.Spectroscopic) (hle : n ≤ m) :
    Continued ProtoAtom.Begins (ofMode id role (times.asking n) mode).scienceAtoms
      (ofMode id role (times.asking m) mode).scienceAtoms := by
  have hrules : (ofMode id role (times.asking m) mode).rules =
      (ofMode id role (times.asking n) mode).rules := by
    cases mode <;> rfl
  rw [scienceAtoms, scienceAtoms, hrules]
  exact (continued_atoms id role times hmode hle).injectCalibrations _

end Specification

/-! ## What executed steps meet -/

namespace Tally

theorem unmet_take (t : Tally) (e : ExecutedStep) :
    (t.take e).unmet = t.unmet.eraseP fun u => e.executes u.2 := by
  rw [take]
  cases hu : t.unmet.find? (fun u => e.executes u.2) with
  | some u => rfl
  | none =>
    have hnone : ∀ u ∈ t.unmet, ¬e.executes u.2 = true := by simpa using hu
    rw [List.eraseP_of_forall_not hnone]
    cases t.redo.find? (fun r => e.executes r.step) with
    | some r => rfl
    | none => rfl

/-- Steps that are planned behind others do not change which of the others are met. -/
theorem unmet_takeAll_append (es : List ExecutedStep) {t u : Tally} {rest : List (ℕ × ProtoStep)}
    (h : u.unmet = t.unmet ++ rest) : ∃ left, left.Sublist rest ∧
      (u.takeAll es).unmet = (t.takeAll es).unmet ++ left := by
  induction es generalizing t u rest with
  | nil => exact ⟨rest, List.Sublist.refl _, h⟩
  | cons e es ih =>
    have hstep : ∃ left, left.Sublist rest ∧ (u.take e).unmet = (t.take e).unmet ++ left := by
      rw [unmet_take, unmet_take, h]
      by_cases hmeets : ∃ x ∈ t.unmet, e.executes x.2 = true
      · obtain ⟨x, hx, hxe⟩ := hmeets
        exact ⟨rest, List.Sublist.refl _, List.eraseP_append_left (p := fun u => e.executes u.2) hxe rest hx⟩
      · have hnone : ∀ x ∈ t.unmet, ¬e.executes x.2 = true := fun x hx hxe => hmeets ⟨x, hx, hxe⟩
        refine ⟨rest.eraseP fun x => e.executes x.2, List.eraseP_sublist, ?_⟩
        rw [List.eraseP_append_right rest hnone, List.eraseP_of_forall_not hnone]
    obtain ⟨left, hleft, happend⟩ := hstep
    obtain ⟨left', hleft', hall⟩ := ih happend
    exact ⟨left', hleft'.trans hleft, hall⟩

/-- The first planned steps are met or not, whatever is planned behind them. -/
theorem mem_unmet_iff_of_prefix {ps qs : List ProtoStep} (h : ps <+: qs) (es : List ExecutedStep)
    {i : ℕ} (hi : i < ps.length) :
    i ∈ ((start qs).takeAll es).unmet.map (·.1) ↔ i ∈ ((start ps).takeAll es).unmet.map (·.1) := by
  obtain ⟨rest, rfl⟩ := h
  have hstart : (start (ps ++ rest)).unmet =
      (start ps).unmet ++ (rest.zipIdx ps.length).map fun x => (x.2, x.1) := by
    rw [start, List.zipIdx_append, List.map_append, Nat.zero_add]
    rfl
  obtain ⟨left, hleft, hunmet⟩ := unmet_takeAll_append es hstart
  rw [hunmet, List.map_append, List.mem_append, or_iff_left]
  intro hmem
  -- what is planned behind has indices from the length on
  have hbehind : i ∈ ((rest.zipIdx ps.length).map fun x => (x.2, x.1)).map (·.1) :=
    (hleft.map _).subset hmem
  rw [List.map_map] at hbehind
  obtain ⟨x, hx, rfl⟩ := List.mem_map.1 hbehind
  exact absurd (List.le_snd_of_mem_zipIdx hx) (Nat.not_le_of_lt hi)

end Tally

namespace Progress

theorem indices_resolve_iff_of_prefix (p : Progress) (id : AtomId) {ps qs : List ProtoStep}
    (h : ps <+: qs) {i : ℕ} (hi : i < ps.length) :
    i ∈ (p.resolve id qs).indices ↔ i ∈ (p.resolve id ps).indices := by
  rw [resolve, resolve]
  cases p.executed? id with
  | none => exact Iff.rfl
  | some es =>
    show i ∈ (Tally.resolution _).indices ↔ i ∈ (Tally.resolution _).indices
    rw [Tally.indices_resolution, Tally.indices_resolution]
    exact Tally.mem_unmet_iff_of_prefix h es hi

theorem resolve_eq_fresh_congr (p : Progress) (id : AtomId) (ps qs : List ProtoStep) :
    p.resolve id qs = .fresh ↔ p.resolve id ps = .fresh := by
  rw [resolve_eq_fresh_iff, resolve_eq_fresh_iff]

end Progress

/-! ## Planned steps that were executed -/

namespace Generator

/-- The step with the given index in the atom planned at a position. -/
def plannedStep? (g : Generator) (j i : ℕ) : Option ProtoStep :=
  (g.plan.get? j).bind (·.steps[i]?)

/-- The identities of an atom and a step stand for a planned step. -/
def Denotes (g : Generator) (atom : AtomId) (step : StepId) (p : ProtoStep) : Prop :=
  ∃ j i, g.plannedStep? j i = some p ∧ g.atomId j = atom ∧ (StepKey.planned atom i).id = step

/-- The planned step with the given index was met by an executed one: its atom was recorded and does not
need the step any more. -/
def Consumed (g : Generator) (j i : ℕ) : Prop :=
  ∃ a, g.plan.get? j = some a ∧ i < a.steps.length ∧
    g.progress.resolve (g.atomId j) a.steps ≠ .fresh ∧
    i ∉ (g.progress.resolve (g.atomId j) a.steps).indices

/-- What is planned and what was executed keeps its place under another generator. -/
structure KeptBy (g g' : Generator) : Prop where
  atomId : ∀ j, g'.atomId j = g.atomId j
  plannedStep? : ∀ j i p, g.plannedStep? j i = some p → g'.plannedStep? j i = some p
  denotes : ∀ atom step p, g.Denotes atom step p → g'.Denotes atom step p
  consumed : ∀ j i p, g.plannedStep? j i = some p → (g'.Consumed j i ↔ g.Consumed j i)

variable {g g' : Generator}

theorem plannedStep?_eq_some_iff {j i : ℕ} {p : ProtoStep} :
    g.plannedStep? j i = some p ↔ ∃ a, g.plan.get? j = some a ∧ a.steps[i]? = some p :=
  Option.bind_eq_some_iff

/-- Work keeps its place when every planned atom is the beginning of that planned at its position. -/
theorem keptBy_of_begins (hid : ∀ j, g'.atomId j = g.atomId j) (hprogress : g'.progress = g.progress)
    (hplan : ∀ j a, g.plan.get? j = some a → ∃ b, g'.plan.get? j = some b ∧ a.Begins b) :
    g.KeptBy g' := by
  have hstep : ∀ j i p, g.plannedStep? j i = some p → g'.plannedStep? j i = some p := by
    intro j i p hp
    obtain ⟨a, ha, hi⟩ := plannedStep?_eq_some_iff.1 hp
    obtain ⟨b, hb, hab⟩ := hplan j a ha
    obtain ⟨rest, hrest⟩ := hab.steps
    refine plannedStep?_eq_some_iff.2 ⟨b, hb, ?_⟩
    rw [← hrest, List.getElem?_append_left (List.getElem?_eq_some_iff.1 hi).1]
    exact hi
  refine ⟨hid, hstep, ?_, ?_⟩
  · rintro atom step p ⟨j, i, hp, hatom, hstepId⟩
    exact ⟨j, i, hstep j i p hp, (hid j).trans hatom, hstepId⟩
  · intro j i p hp
    obtain ⟨a, ha, hi⟩ := plannedStep?_eq_some_iff.1 hp
    obtain ⟨b, hb, hab⟩ := hplan j a ha
    have hlt : i < a.steps.length := (List.getElem?_eq_some_iff.1 hi).1
    have hfresh := g.progress.resolve_eq_fresh_congr (g.atomId j) a.steps b.steps
    have hindices := g.progress.indices_resolve_iff_of_prefix (g.atomId j) hab.steps hlt
    constructor
    · rintro ⟨b', hb', -, hrecorded, hmet⟩
      obtain rfl : b = b' := Option.some.inj (hb.symm.trans hb')
      rw [hid, hprogress] at hrecorded hmet
      exact ⟨a, ha, hlt, hfresh.not.1 hrecorded, hindices.not.1 hmet⟩
    · rintro ⟨a', ha', -, hrecorded, hmet⟩
      obtain rfl : a = a' := Option.some.inj (ha.symm.trans ha')
      refine ⟨b, hb, hlt.trans_le hab.steps.length_le, ?_, ?_⟩
      · rw [hid, hprogress]
        exact hfresh.not.2 hrecorded
      · rw [hid, hprogress]
        exact hindices.not.2 hmet

end Generator

/-! ## More exposures -/

theorem AtomPlan.get?_finite (atoms : List ProtoAtom) (j : ℕ) : (finite atoms).get? j = atoms[j]? := by
  rw [get?, finite]
  cases atoms[j]? with
  | none => rfl
  | some a => rfl

namespace Engine

/-- More exposures of a spectrum.  Where fewer were asked for, every planned atom is the beginning of the
atom that is planned at its position when more are, with the same name and kind.  So identities stand for
the same planned steps as before, and whatever was recorded, those steps that were executed still are and
no other. -/
theorem keptBy_asking (e : Engine) (o : Observation) (request : IntegrationRequest)
    (times : IntegrationTimes) (calculator calculator' : Calculator) (n m : ℕ)
    (hrequest : o.request = .ok request) (hmode : request.mode.Spectroscopic)
    (hn : calculator request = .ok (times.asking n)) (hm : calculator' request = .ok (times.asking m))
    (hle : n ≤ m) :
    ∃ s s', Specification.build o calculator = .ok s ∧ Specification.build o calculator' = .ok s' ∧
      (∀ j a, (Plans.ofSpecification s).science.get? j = some a →
        ∃ b, (Plans.ofSpecification s').science.get? j = some b ∧ a.Begins b) ∧
      (e.generator o .science (Plans.ofSpecification s).science).KeptBy
        (e.generator o .science (Plans.ofSpecification s').science) := by
  have hplan : ∀ j a,
      (Plans.ofSpecification (.ofMode o.id o.role (times.asking n) request.mode)).science.get? j =
        some a → ∃ b,
      (Plans.ofSpecification (.ofMode o.id o.role (times.asking m) request.mode)).science.get? j =
        some b ∧ a.Begins b := by
    intro j a ha
    rw [Plans.ofSpecification, AtomPlan.get?_finite] at ha ⊢
    exact Continued.iff_getElem?.1
      (Specification.continued_scienceAtoms o.id o.role times hmode hle) j a ha
  exact ⟨_, _, Specification.build_eq_ok_iff.2 ⟨request, _, hrequest, hn, rfl⟩,
    Specification.build_eq_ok_iff.2 ⟨request, _, hrequest, hm, rfl⟩, hplan,
    Generator.keptBy_of_begins (fun _ => rfl) rfl hplan⟩

end Engine

namespace Slit

/-- The slit sample, of which four exposures were planned and executed. -/
def exposedFour : Observation := observation 4 (.spoiled "o" (specification 4).scienceAtoms)

end Slit

/-- The fourth exposure is the only one in the last atom.  When a fifth is asked for, that atom has two
steps, of which the first is the one that was executed and the second is new. -/
theorem Engine.keptBy_asking_fifth : ∃ s,
    Specification.build Slit.exposedFour (Slit.calculator 5) = .ok s ∧
    ((default : Engine).generator Slit.exposedFour .science
      (Plans.ofSpecification s).science).Consumed 3 0 ∧
    ¬((default : Engine).generator Slit.exposedFour .science
      (Plans.ofSpecification s).science).Consumed 3 1 := by
  obtain ⟨s, s', hs, hs', -, hkept⟩ := keptBy_asking default Slit.exposedFour _ (Slit.times 4)
    (Slit.calculator 4) (Slit.calculator 5) 4 5 rfl trivial rfl rfl (by decide)
  obtain rfl : s = Slit.specification 4 := Except.ok.inj (hs.symm.trans rfl)
  obtain rfl : s' = Slit.specification 5 := Except.ok.inj (hs'.symm.trans rfl)
  have hfour : ((default : Engine).generator Slit.exposedFour .science
      (Plans.ofSpecification (Slit.specification 4)).science).Consumed 3 0 :=
    ⟨_, rfl, by decide +kernel, by decide +kernel, by decide +kernel⟩
  refine ⟨_, hs', (hkept.consumed 3 0 _ rfl).2 hfour, ?_⟩
  rintro ⟨a, ha, -, -, hmet⟩
  obtain rfl := Option.some.inj ha
  revert hmet
  decide +kernel

end Observing
