import Mathlib.Data.List.Infix
import Observing.Proofs.Acquisition
import Observing.Proofs.HigherLimits

/-!
# Cycles one after another

A cycle of nodding is accepted for what it takes at the beginning of a night, when the telescope is on
the target.  The cycles behind the first begin where the one before them ended, so that the first move
of theirs is another one.  All else takes the same time.

* `CostModel.time`, `CostModel.behind`   the time of steps one after another, and the state they leave;
* `CostModel.move`                 the time of a move from offset to offset;
* `Generator.remaining_unrecorded` all planned atoms remain where nothing was recorded;
* `exists_of_infix_atoms`          neighbours among priced atoms;
* `NodPlan.time_cycle`             a cycle takes the first move, and besides always the same time;
* `Engine.repetition`              the time of steps behind themselves;
* `Engine.repetitions_exact`       what the ceiling says of the cycles that are repeated.
-/

namespace Observing

/-! ## The time of steps -/

namespace CostModel

variable {m : CostModel} {t u : TelescopeState} {p : ProtoStep} {ps : List ProtoStep}

/-- The time of steps one after another. -/
def time (m : CostModel) (t : TelescopeState) (ps : List ProtoStep) : TimeSpan :=
  TimeSpan.sum ((m.estimateAll t ps).1.map (·.total))

/-- The state in which steps leave the telescope. -/
def behind (m : CostModel) (t : TelescopeState) (ps : List ProtoStep) : TelescopeState :=
  (m.estimateAll t ps).2

theorem time_cons (m : CostModel) (t : TelescopeState) (p : ProtoStep) (ps : List ProtoStep) :
    m.time t (p :: ps) =
      (m.estimate t p).total + m.time (t.after p.instrumentConfig p.stepConfig) ps := by
  rw [time, estimateAll, List.map_cons, TimeSpan.sum_cons]
  rfl

theorem behind_cons (m : CostModel) (t : TelescopeState) (p : ProtoStep) (ps : List ProtoStep) :
    m.behind t (p :: ps) = m.behind (t.after p.instrumentConfig p.stepConfig) ps := rfl

theorem behind_concat (m : CostModel) (t : TelescopeState) (ps : List ProtoStep) (p : ProtoStep) :
    m.behind t (ps ++ [p]) = (m.behind t ps).after p.instrumentConfig p.stepConfig := by
  rw [behind, estimateAll_append]
  rfl

/-- Exposures on the sky take the same time from states that are alike. -/
theorem time_congr (h : t.Alike u) (hps : ∀ p ∈ ps, p.stepConfig.OnSky) :
    m.time t ps = m.time u ps := by
  induction ps generalizing t u with
  | nil => rfl
  | cons p ps ih =>
    obtain ⟨hp, hps⟩ := List.forall_mem_cons.1 hps
    rw [time_cons, time_cons, h.estimate m hp, ih (h.after _ _) hps]

theorem behind_alike (h : t.Alike u) : (m.behind t ps).Alike (m.behind u ps) := by
  induction ps generalizing t u with
  | nil => exact h
  | cons p ps ih => exact ih (h.after _ _)

/-- Wherever exposures on the sky begin, the telescope is left in the same state. -/
theorem alike_behind (m : CostModel) (t u : TelescopeState) (hne : ps ≠ [])
    (hps : ∀ p ∈ ps, p.stepConfig.OnSky) : (m.behind t ps).Alike (m.behind u ps) := by
  cases ps with
  | nil => exact absurd rfl hne
  | cons p ps =>
    rw [behind_cons, behind_cons]
    exact behind_alike (TelescopeState.alike_after t u _ (hps p List.mem_cons_self))

/-! ## The first move -/

/-- The time of a move from one offset to another, none where they are the same. -/
def move (m : CostModel) (start goal : Offset) : TimeSpan :=
  if goal ≠ start then m.offsetCost start goal else 0

theorem move_self (m : CostModel) (o : Offset) : m.move o o = 0 := if_neg (not_not_intro rfl)

theorem instrumentChanges_self (m : CostModel) (i : InstrumentConfig) :
    m.instrumentChanges (some i) i = [] := by
  have hgrating : ∀ s, m.gratingChanges s s = [] := by
    intro s
    cases s <;> simp [gratingChanges, change]
  cases i <;> simp [instrumentChanges, gmosChanges, flamingosChanges, change, hgrating]

/-- In front of an exposure on the sky the telescope moves, where it is on the sky before and the
instrument has nothing to change. -/
theorem estimate_onSky {o : Offset} {g : Guiding} (hp : p.stepConfig = .science o g)
    (hfold : t.fold = .sky) (hinstrument : m.instrumentChanges t.instrument p.instrumentConfig = []) :
    (m.estimate t p).total = m.move t.offset o + (m.detector p.instrumentConfig).total := by
  have hchange : (m.configChange t p).estimate = m.move t.offset o := by
    unfold configChange telescopeChanges move change
    rw [hp, hinstrument, hfold]
    by_cases ho : o = t.offset <;> simp [ho, ConfigChange.ofItems, TimeSpan.longest?]
  rw [estimate, hchange]

end CostModel

/-! ## Nothing recorded -/

namespace Generator

variable {g : Generator}

theorem resolution_unrecorded (h : g.progress.records = []) (v : Visit) :
    g.resolution v = .fresh :=
  Progress.resolve_unrecorded h _ _

theorem opened_unrecorded (h : g.progress.records = []) (v : Visit) : g.opened v = true := by
  rw [opened, resolution_unrecorded h]
  rfl

/-- Every atom is yielded as soon as it is looked at. -/
theorem prompt_unrecorded (h : g.progress.records = []) (s : Place) : g.Prompt s := by
  intro us s' _ hclosed
  cases us with
  | nil => exact Nat.succ_pos _
  | cons u us =>
    have hu := hclosed u List.mem_cons_self
    rw [opened_unrecorded h] at hu
    cases hu

/-- The planned atoms are yielded one after another where nothing was recorded. -/
theorem take_unrecorded (h : g.progress.records = []) (hend : g.plan.onward = none) (n : ℕ)
    (t : TelescopeState) :
    (g.take n (.start t)).1 = (g.price t g.plannedVisits).take n := by
  have hleft : g.plannedVisits.flatMap g.left = [] := by
    rw [List.flatMap_eq_nil_iff]
    exact fun v _ => left_of_opened (opened_unrecorded h v)
  have hopen : g.plannedVisits.filter g.opened = g.plannedVisits :=
    List.filter_eq_self.2 fun v _ => opened_unrecorded h v
  have hpath : g.Path ⟨0, []⟩ g.plannedVisits ⟨g.plan.atoms.length, []⟩ := by
    have hplanned := path_planned hend [] (Nat.zero_le g.plan.atoms.length)
    rwa [List.drop_zero, hleft, List.append_nil] at hplanned
  have htake := take_path (n := n) hpath (fun _ r _ _ => prompt_unrecorded h r)
    (.inl (look_end hend)) t
  rw [hopen] at htake
  exact htake

/-- All planned atoms remain where nothing was recorded. -/
theorem remaining_unrecorded (h : g.progress.records = []) (hend : g.plan.onward = none)
    (t : TelescopeState) : g.remaining t = g.costs.atoms t (g.plannedVisits.map g.due) := by
  have hway : g.plannedVisits.length ≤ (g.way ⟨0, []⟩).length := by
    rw [way, List.drop_zero, List.length_append]
    exact Nat.le_add_right _ _
  rw [remaining_of_take hend (fun n => take_unrecorded h hend n t)
    (hway.trans (length_way_lt hend ⟨0, []⟩ t).le), map_atom_price]

/-- A window shows the first of them. -/
theorem window_unrecorded (h : g.progress.records = []) (hend : g.plan.onward = none)
    (t : TelescopeState) (limit : ℕ) :
    (g.window t limit).atoms = (g.remaining t).take (limit + 1) := by
  rw [window_atoms, take_unrecorded h hend, remaining_unrecorded h hend, ← map_atom_price,
    List.map_take]

/-- The planned atoms, as they are due where nothing was recorded. -/
theorem due_unrecorded (h : g.progress.records = []) (v : Visit) :
    (g.due v).kind = v.planned.kind ∧ (g.due v).steps.map (·.2) = v.planned.steps := by
  refine ⟨rfl, ?_⟩
  show (stepsToDo v.key.id v.planned (g.resolution v)).map (·.2) = _
  rw [resolution_unrecorded h, stepsToDo, List.map_map]
  exact List.zipIdx_map_fst 0 _

theorem map_planned_plannedVisits (g : Generator) :
    g.plannedVisits.map (·.planned) = g.plan.atoms := by
  rw [plannedVisits, List.map_map]
  exact List.zipIdx_map_fst 0 _

end Generator

/-! ## Neighbours -/

namespace CostModel

variable {m : CostModel} {t : TelescopeState} {ds : List Due} {a b : Atom}

/-- A due atom, priced from a state of the telescope. -/
def atom (m : CostModel) (t : TelescopeState) (d : Due) : Atom :=
  .ofSteps d.id d.description d.kind ((d.steps.zip (m.estimateAll t (d.steps.map (·.2))).1).map
    fun ((sid, p), estimate) => Step.ofProto sid estimate p)

theorem atoms_cons (m : CostModel) (t : TelescopeState) (d : Due) (ds : List Due) :
    m.atoms t (d :: ds) = m.atom t d :: m.atoms (m.behind t (d.steps.map (·.2))) ds := rfl

theorem total_atom (m : CostModel) (t : TelescopeState) (d : Due) :
    (m.atom t d).total = m.time t (d.steps.map (·.2)) := by
  have hlen : (m.estimateAll t (d.steps.map (·.2))).1.length ≤ d.steps.length := by
    rw [length_estimateAll, List.length_map]
  have hsnd := congrArg (List.map StepEstimate.total) (List.map_snd_zip hlen)
  rw [List.map_map] at hsnd
  rw [time, ← hsnd]
  show TimeSpan.sum (List.map _ (List.map _ _)) = _
  rw [List.map_map]
  rfl

theorem map_kind_atoms (m : CostModel) (t : TelescopeState) (ds : List Due) :
    (m.atoms t ds).map (·.kind) = ds.map (·.kind) := by
  induction ds generalizing t with
  | nil => rfl
  | cons d ds ih =>
    rw [atoms_cons, List.map_cons, List.map_cons, ih]
    rfl

/-- Of two neighbours the second is priced behind the first. -/
theorem exists_of_infix_atoms (h : [a, b] <:+: m.atoms t ds) : ∃ u, ∃ d ∈ ds, ∃ d' ∈ ds,
    a = m.atom u d ∧ b = m.atom (m.behind u (d.steps.map (·.2))) d' := by
  induction ds generalizing t with
  | nil => exact absurd (List.infix_nil.1 h) (List.cons_ne_nil _ _)
  | cons d ds ih =>
    rw [atoms_cons, List.infix_cons_iff] at h
    rcases h with hfront | hpair
    · obtain ⟨rfl, hnext⟩ := List.cons_prefix_cons.1 hfront
      cases ds with
      | nil => exact absurd (List.prefix_nil.1 hnext) (List.cons_ne_nil _ _)
      | cons d' ds =>
        obtain ⟨rfl, -⟩ := List.cons_prefix_cons.1 hnext
        exact ⟨t, d, List.mem_cons_self, d', List.mem_cons_of_mem _ List.mem_cons_self, rfl, rfl⟩
    · obtain ⟨u, d₁, hd₁, d₂, hd₂, hatoms⟩ := ih hpair
      exact ⟨u, d₁, List.mem_cons_of_mem _ hd₁, d₂, List.mem_cons_of_mem _ hd₂, hatoms⟩

end CostModel

/-! ## Cycles -/

namespace NodPlan

variable {s : NodPlan} {m : CostModel} {q q' : Angle} {qs : List Angle}

theorem onSky_cycle (s : NodPlan) : ∀ p ∈ s.cycle, p.stepConfig.OnSky := by
  intro p hp
  obtain ⟨q, -, rfl⟩ := List.mem_map.1 hp
  exact Option.some_ne_none _

/-- What a cycle takes besides its first move. -/
def timeBesides (s : NodPlan) (m : CostModel) : TimeSpan :=
  (m.detector s.template).total + m.time (m.behind .initial (s.cycle.take 1)) s.cycle.tail

/-- A cycle takes the first move, and besides always the same time. -/
theorem time_cycle (hq : s.offsets.head? = some q) {t : TelescopeState} (hfold : t.fold = .sky)
    (hinstrument : m.instrumentChanges t.instrument s.template = []) :
    m.time t s.cycle = m.move t.offset (.alongSlit q) + s.timeBesides m := by
  obtain ⟨rest, hrest⟩ := List.head?_eq_some_iff.1 hq
  have hcycle : s.cycle = ⟨s.template, .onSky (.alongSlit q), s.observeClass, .disabled⟩ ::
      s.cycle.tail := by
    rw [cycle, hrest]
    rfl
  have htail : ∀ p ∈ s.cycle.tail, p.stepConfig.OnSky :=
    fun p hp => onSky_cycle s p (List.mem_of_mem_tail hp)
  have hfirst : (StepConfig.onSky (.alongSlit q)).OnSky := Option.some_ne_none _
  rw [timeBesides, hcycle, CostModel.time_cons, CostModel.estimate_onSky rfl hfold hinstrument,
    TimeSpan.add_assoc, List.tail_cons,
    CostModel.time_congr (TelescopeState.alike_after t .initial s.template hfirst) htail]
  rfl

/-- Behind a cycle the telescope is on the sky, at the last offset. -/
theorem behind_cycle (hq' : s.offsets.getLast? = some q') (t : TelescopeState) :
    (m.behind t s.cycle).fold = .sky ∧ (m.behind t s.cycle).instrument = some s.template ∧
      (m.behind t s.cycle).offset = .alongSlit q' := by
  obtain ⟨rest, hrest⟩ := List.getLast?_eq_some_iff.1 hq'
  rw [cycle, hrest, List.map_append, List.map_singleton, CostModel.behind_concat]
  exact ⟨rfl, rfl, rfl⟩

end NodPlan

namespace Specification

variable {s : Specification} {p : NodPlan}

/-- The cycles of nodding stand next to each other, behind the calibration if there is one. -/
theorem scienceAtoms_nod (hnod : s.science = .nod p) : ∃ lamps : List ProtoAtom,
    (∀ a ∈ lamps, a.kind ≠ .science) ∧
      s.scienceAtoms = lamps ++ List.replicate p.cycles p.cycleAtom.atom := by
  have hatoms : s.science.atoms = p.atoms := by
    rw [hnod]
    rfl
  rw [scienceAtoms, hatoms, NodPlan.atoms]
  cases s.rules.arcsAndFlats with
  | none =>
    rw [inject_none, List.map_replicate]
    exact ⟨[], fun a ha => absurd ha List.not_mem_nil, rfl⟩
  | some c =>
    cases hcycles : p.cycles with
    | zero => exact ⟨[], fun a ha => absurd ha List.not_mem_nil, rfl⟩
    | succ n =>
      have hsame : ∀ a ∈ List.replicate n p.cycleAtom, a.group = p.cycleAtom.group :=
        fun a ha => congrArg PlannedAtom.group (List.mem_replicate.1 ha).2
      have hrest := ArcAndFlat.injectAfter_same (c := c) hsame []
      refine ⟨[c.atom p.cycleAtom.base], fun a ha => ?_, ?_⟩
      · rw [List.mem_singleton.1 ha]
        show AtomKind.calibration ≠ .science
        decide
      · rw [List.append_nil] at hrest
        rw [injectCalibrations, List.replicate_succ, ArcAndFlat.injectAfter,
          if_neg (Option.some_ne_none _).symm, hrest, List.map_replicate, ArcAndFlat.injectAfter,
          List.append_nil]
        rfl

/-- The specification of an accepted observation is that of its mode. -/
theorem ofMode_of_build {o : Observation} {calculator : Calculator} {mode : ObservingMode}
    (h : build o calculator = .ok s) (hmode : o.mode = some mode) :
    ∃ times, s = ofMode o.id o.role times mode := by
  obtain ⟨request, times, hrequest, -, rfl⟩ := build_eq_ok_iff.1 h
  have hsame : request.mode = mode := by
    unfold Observation.request at hrequest
    rw [hmode] at hrequest
    split at hrequest
    · next h =>
      cases h
      cases hrequest
      rfl
    · cases hrequest
  exact ⟨times, by rw [hsame]⟩

end Specification

/-! ## The engine -/

namespace Engine

variable {e : Engine} {o : Observation} {s : Specification} {p : NodPlan} {calculator : Calculator}
  {a b : Atom}

/-- The time that steps take behind themselves. -/
def repetition (e : Engine) (steps : List ProtoStep) : TimeSpan :=
  e.costs.time (e.costs.behind .initial steps) steps

/-- Science atoms that directly follow others take a number of minutes at most. -/
def RepeatsWithin (e : Engine) (o : Observation) (s : Specification) (minutes : ℕ) : Prop :=
  ∀ a b, [a, b] <:+: e.remaining o s → a.kind = .science → b.kind = .science →
    b.total.micros ≤ minutes * 60000000

/-- The first cycle is within the ceiling. -/
theorem duration_le {cycle : List ProtoStep} (hs : e.specification o calculator = .ok s)
    (hcycle : s.cycle = some cycle) (hlimit : e.limits.cycleMinutes < 2 ^ 63) :
    (e.duration cycle).micros ≤ e.limits.cycleMinutes * 60000000 := by
  have hle := (specification_eq_ok_iff.1 hs).2.cycle cycle hcycle
  rw [Limits.micros_longestCycle (by omega), if_pos hlimit] at hle
  exact hle.trans (Nat.min_le_left _ _)

theorem generator_unrecorded (hhistory : o.history = ⟨[]⟩) (sequence : SequenceType)
    (plan : AtomPlan) : (e.generator o sequence plan).progress.records = [] := by
  rw [generator, hhistory]
  rfl

theorem map_kind_remaining (hhistory : o.history = ⟨[]⟩) :
    (e.remaining o s).map (·.kind) = s.scienceAtoms.map (·.kind) := by
  have hplan := Generator.map_planned_plannedVisits (e.generator o .science (.finite s.scienceAtoms))
  rw [remaining, Generator.remaining_unrecorded (generator_unrecorded hhistory _ _) rfl,
    CostModel.map_kind_atoms, List.map_map]
  have hkinds := congrArg (List.map ProtoAtom.kind) hplan
  rw [List.map_map] at hkinds
  exact hkinds

/-- There are neighbouring science atoms exactly where there are two cycles. -/
theorem exists_neighbours_iff (hhistory : o.history = ⟨[]⟩) (hnod : s.science = .nod p) :
    (∃ a b, [a, b] <:+: e.remaining o s ∧ a.kind = .science ∧ b.kind = .science) ↔
      2 ≤ p.cycles := by
  obtain ⟨lamps, hlamps, hatoms⟩ := Specification.scienceAtoms_nod hnod
  have hkinds : (e.remaining o s).map (·.kind) =
      lamps.map (·.kind) ++ List.replicate p.cycles .science := by
    rw [map_kind_remaining hhistory, hatoms, List.map_append, List.map_replicate]
    rfl
  constructor
  · rintro ⟨a, b, hpair, ha, hb⟩
    have hcount := (hpair.map (·.kind)).sublist.count_le AtomKind.science
    have hnone : (lamps.map (·.kind)).count AtomKind.science = 0 := by
      rw [List.count_eq_zero]
      intro hmem
      obtain ⟨l, hl, hkind⟩ := List.mem_map.1 hmem
      exact hlamps l hl hkind
    rw [hkinds, List.count_append, hnone, List.count_replicate_self, List.map_cons,
      List.map_singleton, ha, hb] at hcount
    simpa using hcount
  · intro htwo
    obtain ⟨n, hn⟩ := Nat.exists_eq_add_of_le' htwo
    have hpair : [AtomKind.science, .science] <:+: (e.remaining o s).map (·.kind) := by
      rw [hkinds, hn]
      exact (List.prefix_append _ _).isInfix.trans (List.suffix_append _ _).isInfix
    obtain ⟨l, hl, hmap⟩ := List.infix_map_iff.1 hpair
    obtain ⟨a, l, rfl, ha, hmap⟩ := List.map_eq_cons_iff.1 hmap.symm
    obtain ⟨b, l, rfl, hb, hmap⟩ := List.map_eq_cons_iff.1 hmap
    obtain rfl := List.map_eq_nil_iff.1 hmap
    exact ⟨a, b, hl, ha, hb⟩

/-- A science atom that directly follows another takes what its cycle takes behind itself. -/
theorem total_of_follows (hhistory : o.history = ⟨[]⟩) (hnod : s.science = .nod p)
    (hpair : [a, b] <:+: e.remaining o s) (ha : a.kind = .science) (hb : b.kind = .science) :
    b.total = e.repetition p.cycle := by
  have hrecords := generator_unrecorded (e := e) hhistory .science (.finite s.scienceAtoms)
  rw [remaining, Generator.remaining_unrecorded hrecords rfl] at hpair
  obtain ⟨u, d, hd, d', hd', rfl, rfl⟩ := CostModel.exists_of_infix_atoms hpair
  have hcycle : ∀ d ∈ (e.generator o .science (.finite s.scienceAtoms)).plannedVisits.map
      (e.generator o .science (.finite s.scienceAtoms)).due, d.kind = .science →
      d.steps.map (·.2) = p.cycle := by
    intro d hd hkind
    obtain ⟨v, hv, rfl⟩ := List.mem_map.1 hd
    obtain ⟨hdue, hsteps⟩ := Generator.due_unrecorded hrecords v
    have hplanned : v.planned ∈ s.scienceAtoms := by
      have hmem := List.mem_map_of_mem (f := Visit.planned) hv
      rwa [Generator.map_planned_plannedVisits] at hmem
    obtain ⟨lamps, hlamps, hatoms⟩ := Specification.scienceAtoms_nod hnod
    rw [hatoms] at hplanned
    rcases List.mem_append.1 hplanned with hlamp | hscience
    · exact absurd (hdue ▸ hkind) (hlamps _ hlamp)
    · rw [hsteps, (List.mem_replicate.1 hscience).2]
      rfl
  rw [CostModel.total_atom, hcycle d hd ha, hcycle d' hd' hb, repetition]
  by_cases hne : p.cycle = []
  · rw [hne]
    rfl
  · exact CostModel.time_congr (CostModel.alike_behind _ _ _ hne p.onSky_cycle) p.onSky_cycle

theorem repeatsWithin_iff (hhistory : o.history = ⟨[]⟩) (hnod : s.science = .nod p) (minutes : ℕ) :
    e.RepeatsWithin o s minutes ↔
      p.cycles ≤ 1 ∨ (e.repetition p.cycle).micros ≤ minutes * 60000000 := by
  constructor
  · intro hwithin
    rcases Nat.lt_or_ge p.cycles 2 with hfew | htwo
    · exact .inl (Nat.le_of_lt_succ hfew)
    · obtain ⟨a, b, hpair, ha, hb⟩ := (exists_neighbours_iff hhistory hnod).2 htwo
      rw [← total_of_follows hhistory hnod hpair ha hb]
      exact .inr (hwithin a b hpair ha hb)
  · intro h a b hpair ha hb
    have htwo : 2 ≤ p.cycles := (exists_neighbours_iff hhistory hnod).1 ⟨a, b, hpair, ha, hb⟩
    rw [total_of_follows hhistory hnod hpair ha hb]
    exact h.resolve_left (by omega)

theorem duration_cycle (e : Engine) {first : Angle} (hfirst : p.offsets.head? = some first) :
    e.duration p.cycle = e.costs.move 0 (.alongSlit first) + p.timeBesides e.costs :=
  NodPlan.time_cycle hfirst rfl rfl

/-- Behind itself a cycle begins with the move back from its last offset. -/
theorem repetition_cycle (e : Engine) {first last : Angle} (hfirst : p.offsets.head? = some first)
    (hlast : p.offsets.getLast? = some last) : e.repetition p.cycle =
      e.costs.move (.alongSlit last) (.alongSlit first) + p.timeBesides e.costs := by
  obtain ⟨hfold, hinstrument, hoffset⟩ := NodPlan.behind_cycle (m := e.costs) hlast .initial
  have hchanges : e.costs.instrumentChanges (e.costs.behind .initial p.cycle).instrument
      p.template = [] := by
    rw [hinstrument, CostModel.instrumentChanges_self]
  rw [repetition, NodPlan.time_cycle hfirst hfold hchanges, hoffset]

/-- A cycle takes no longer behind itself where the move back is no longer than the first one. -/
theorem repetition_le_duration (e : Engine) {first last : Angle}
    (hfirst : p.offsets.head? = some first) (hlast : p.offsets.getLast? = some last)
    (hmove : last = first ∨ (e.costs.move (.alongSlit last) (.alongSlit first)).micros ≤
      (e.costs.move 0 (.alongSlit first)).micros) :
    (e.repetition p.cycle).micros ≤ (e.duration p.cycle).micros := by
  have hle : (e.costs.move (.alongSlit last) (.alongSlit first)).micros ≤
      (e.costs.move 0 (.alongSlit first)).micros := by
    rcases hmove with rfl | hle
    · rw [CostModel.move_self]
      exact Nat.zero_le _
    · exact hle
  rw [e.repetition_cycle hfirst hlast, e.duration_cycle hfirst, TimeSpan.micros_add,
    TimeSpan.micros_add]
  omega

/-- What the ceiling says of nodding.  It bounds the cycle as it is at the beginning of a night.
In the sequence for an empty history each science atom behind another takes what the cycle takes behind
itself.  The two times differ in the first move, which begins at the target in the one and at the last
offset in the other, and in nothing else.  So repeated cycles are within the ceiling where that move
takes no longer from the last offset, as where the last offset is the first; otherwise, as soon as there
are two cycles, exactly where the time behind itself is. -/
theorem repetitions_exact (e : Engine) (o : Observation) (calculator : Calculator)
    (s : Specification) (mode : FlamingosLongSlit) (limit : Option ℕ)
    (hs : e.specification o calculator = .ok s)
    (hmode : o.mode = some (.flamingos2LongSlit mode)) (hhistory : o.history = ⟨[]⟩)
    (hlimit : e.limits.cycleMinutes < 2 ^ 63) :
    ∃ p config first last besides, s.science = .nod p ∧
      p.offsets = chosenOr mode.offsets ([15, -15, -15, 15].map Angle.ofArcseconds) ∧
      p.offsets.head? = some first ∧ p.offsets.getLast? = some last ∧
      e.generate o calculator limit = .ok config ∧
      config.science.atoms = (e.remaining o s).take (e.limits.future limit + 1) ∧
      (∀ a b, [a, b] <:+: e.remaining o s → a.kind = .science → b.kind = .science →
        b.total = e.repetition p.cycle) ∧
      e.duration p.cycle = e.costs.move 0 (.alongSlit first) + besides ∧
      e.repetition p.cycle = e.costs.move (.alongSlit last) (.alongSlit first) + besides ∧
      (e.duration p.cycle).micros ≤ e.limits.cycleMinutes * 60000000 ∧
      (e.RepeatsWithin o s e.limits.cycleMinutes ↔
        p.cycles ≤ 1 ∨ (e.repetition p.cycle).micros ≤ e.limits.cycleMinutes * 60000000) ∧
      (last = first ∨ (e.costs.move (.alongSlit last) (.alongSlit first)).micros ≤
          (e.costs.move 0 (.alongSlit first)).micros →
        e.RepeatsWithin o s e.limits.cycleMinutes) := by
  obtain ⟨times, rfl⟩ := Specification.ofMode_of_build (overLimit?_eq_none hs).1 hmode
  obtain ⟨config, hconfig⟩ := generate_ok hs limit
  obtain ⟨p, hnod, hoffsets⟩ : ∃ p, (Specification.ofMode o.id o.role times
      (.flamingos2LongSlit mode)).science = .nod p ∧ p.offsets =
        chosenOr mode.offsets ([15, -15, -15, 15].map Angle.ofArcseconds) := ⟨_, rfl, rfl⟩
  have hne : p.offsets ≠ [] := by
    rw [hoffsets]
    exact chosenOr_ne_nil (by simp) mode.offsets
  obtain ⟨first, hfirst⟩ : ∃ first, p.offsets.head? = some first :=
    ⟨_, List.head?_eq_some_head hne⟩
  obtain ⟨last, hlast⟩ : ∃ last, p.offsets.getLast? = some last :=
    ⟨_, List.getLast?_eq_some_getLast hne⟩
  have hcycle : (Specification.ofMode o.id o.role times (.flamingos2LongSlit mode)).cycle =
      some p.cycle := by
    rw [Specification.cycle, hnod]
  have hceiling := duration_le hs hcycle hlimit
  have hiff := repeatsWithin_iff (e := e) hhistory hnod e.limits.cycleMinutes
  refine ⟨p, config, first, last, p.timeBesides e.costs, hnod, hoffsets, hfirst, hlast, hconfig, ?_,
    fun a b hpair ha hb => total_of_follows hhistory hnod hpair ha hb, e.duration_cycle hfirst,
    e.repetition_cycle hfirst hlast, hceiling, hiff, fun hmove => hiff.2 (.inr ?_)⟩
  · rw [science_of_generate hs hconfig]
    exact Generator.window_unrecorded (generator_unrecorded hhistory _ _) rfl _ _
  · exact (e.repetition_le_duration hfirst hlast hmove).trans hceiling

end Engine

/-! ## A return that does not fit in -/

namespace Slit

/-- Nodding over three offsets, of which the last is the farthest from the first. -/
def returning : FlamingosLongSlit :=
  ⟨.r1200jh, .h, .width2, none, some [0, .ofArcseconds 5, .ofArcseconds 10]⟩

/-- Cycles of four minutes at most. -/
def hasty : Engine := ⟨{ Limits.standard with cycleMinutes := 4 }, .standard⟩

end Slit

/-- The way there fits into four minutes, and the way back does not: from the beginning of a night the
cycle takes 239.625 seconds, and behind itself 247.250. -/
theorem Engine.repetitions_exact_returning :
    ∃ s p, Slit.hasty.specification (Slit.inMode (.flamingos2LongSlit Slit.returning) 6)
        (Slit.calculator 6) = .ok s ∧ s.science = .nod p ∧ p.cycles = 2 ∧
      (Slit.hasty.duration p.cycle).micros = 239625000 ∧
      (Slit.hasty.repetition p.cycle).micros = 247250000 ∧
      ¬Slit.hasty.RepeatsWithin (Slit.inMode (.flamingos2LongSlit Slit.returning) 6) s 4 := by
  have hs : Slit.hasty.specification (Slit.inMode (.flamingos2LongSlit Slit.returning) 6)
      (Slit.calculator 6) =
      .ok (.ofMode "o" none (Slit.times 6) (.flamingos2LongSlit Slit.returning)) := by
    decide +kernel
  obtain ⟨p, config, first, last, besides, hnod, -, -, -, -, -, -, -, -, -, hiff, -⟩ :=
    Engine.repetitions_exact Slit.hasty _ _ _ Slit.returning none hs rfl rfl (by decide)
  obtain rfl := SciencePlan.nod.inj hnod
  have hrepetition : (Slit.hasty.repetition
      (Specification.flamingosPlan Slit.returning (Slit.times 6)
        (.longSlit .flamingos2 none)).cycle).micros = 247250000 := by
    decide +kernel
  refine ⟨_, _, hs, hnod, rfl, by decide +kernel, hrepetition, fun hwithin => ?_⟩
  rcases hiff.1 hwithin with hfew | hfits
  · exact absurd hfew (by decide)
  · rw [hrepetition] at hfits
    exact absurd hfits (by decide)

end Observing
