import Mathlib.Data.List.Nodup
import Mathlib.Data.Prod.Lex
import Mathlib.Logic.Relation
import Observing.Proofs.Dependence

/-!
# The events of a step

The latest end of a step decides its state, and of two ends at one moment the one recorded last.  How
the events stand otherwise, and what else is reported between them, is of no account to the engine.

* `IsLatestEnd`               an event ends the step, and none behind it in time or in place does;
* `Implied`                   the state that the events of a step call for;
* `implied_ofEvents`          it is the one that is read off them;
* `Rearranged`                a change of the events that is of no account to the state;
* `StepRecord.Retold`, `History.Retold`, `Observation.Retold`   records that differ by such changes;
* `progress_eq`, `telescope_eq`, `invoice_eq`   they are read alike;
* `Engine.latest_end_decides`  all that is generated and charged for them is the same.
-/

namespace Observing

/-! ## Moments -/

instance : LinearOrder Timestamp where
  le := (· ≤ ·)
  le_refl := Timestamp.le_refl
  le_trans _ _ _ := Timestamp.le_trans
  le_antisymm _ _ := Timestamp.le_antisymm
  le_total := Timestamp.le_total
  toDecidableLE := inferInstance

/-! ## The latest end -/

/-- The event ends its step. -/
def StepEvent.Ends (e : StepEvent) : Prop := e.stage.terminal?.isSome

instance (e : StepEvent) : Decidable e.Ends := inferInstanceAs (Decidable (_ = true))

namespace ExecutionState

variable {l events events' : List StepEvent} {e f : StepEvent} {i j : Nat}

/-- The event at a place ends the step, and of all that do, it is the last by moment and place. -/
structure IsLatestEnd (events : List StepEvent) (i : Nat) (e : StepEvent) : Prop where
  get : events[i]? = some e
  ends : e.Ends
  last : ∀ j f, events[j]? = some f → f.Ends →
    toLex (f.timestamp, j) ≤ toLex (e.timestamp, i)

/-- The state that events call for: none of them, no end among them, or else the latest end. -/
structure Implied (events : List StepEvent) (state : ExecutionState) : Prop where
  notStarted : state = .notStarted ↔ events = []
  latest : (∃ f ∈ events, f.Ends) →
    ∃ i e, IsLatestEnd events i e ∧ e.stage.terminal? = some state
  ongoing : events ≠ [] → (∀ f ∈ events, ¬f.Ends) → state = .ongoing

theorem IsLatestEnd.mem (h : IsLatestEnd events i e) : e ∈ events := List.mem_of_getElem? h.get

theorem IsLatestEnd.timestamp_le (h : IsLatestEnd events i e) (hf : f ∈ events) (hends : f.Ends) :
    f.timestamp ≤ e.timestamp := by
  obtain ⟨j, hj⟩ := List.getElem?_of_mem hf
  rcases Prod.Lex.toLex_le_toLex.1 (h.last j f hj hends) with hlt | heq
  · exact hlt.le
  · exact heq.1.le

/-- There is one latest end at most. -/
theorem IsLatestEnd.unique (h : IsLatestEnd events i e) (h' : IsLatestEnd events j f) :
    i = j ∧ e = f := by
  have hkey : toLex (e.timestamp, i) = toLex (f.timestamp, j) :=
    le_antisymm (h'.last i e h.get h.ends) (h.last j f h'.get h'.ends)
  obtain rfl : i = j := congrArg (fun k => (ofLex k).2) hkey
  exact ⟨rfl, Option.some.inj (h.get.symm.trans h'.get)⟩

theorem getElem?_concat_eq_some (h : (l ++ [e])[j]? = some f) :
    l[j]? = some f ∨ j = l.length ∧ f = e := by
  rcases Nat.lt_or_ge j l.length with hj | hj
  · rw [List.getElem?_append_left hj] at h
    exact .inl h
  · rw [List.getElem?_append_right hj, List.getElem?_singleton] at h
    split at h
    · exact .inr ⟨by omega, (Option.some.inj h).symm⟩
    · cases h

/-- An end behind all others in time, recorded last. -/
theorem isLatestEnd_concat (he : e.Ends) (h : ∀ f ∈ l, f.Ends → f.timestamp ≤ e.timestamp) :
    IsLatestEnd (l ++ [e]) l.length e where
  get := List.getElem?_concat_length
  ends := he
  last j f hj hf := by
    rcases getElem?_concat_eq_some hj with hj | ⟨rfl, rfl⟩
    · have hlt : j < l.length := (List.getElem?_eq_some_iff.1 hj).1
      rw [Prod.Lex.toLex_le_toLex]
      rcases (h f (List.mem_of_getElem? hj) hf).lt_or_eq with hbefore | hsame
      · exact .inl hbefore
      · exact .inr ⟨hsame, hlt.le⟩
    · exact le_rfl

/-- The latest end remains so where what is recorded next is no end, or is one of an earlier moment. -/
theorem IsLatestEnd.concat (h : IsLatestEnd l i f) (he : e.Ends → e.timestamp < f.timestamp) :
    IsLatestEnd (l ++ [e]) i f where
  get := by
    rw [List.getElem?_append_left (List.getElem?_eq_some_iff.1 h.get).1]
    exact h.get
  ends := h.ends
  last j k hj hk := by
    rcases getElem?_concat_eq_some hj with hj | ⟨rfl, rfl⟩
    · exact h.last j k hj hk
    · exact Prod.Lex.toLex_le_toLex.2 (.inl (he hk))

/-! ## Reading the state off -/

/-- What an end that is kept says of the events read so far: it is the latest of them, and as long as
none is kept, there is none. -/
def Keeps (events : List StepEvent) : Option (Timestamp × ExecutionState) → Prop
  | none => ∀ f ∈ events, ¬f.Ends
  | some (moment, state) => ∃ i e, IsLatestEnd events i e ∧ e.timestamp = moment ∧
      e.stage.terminal? = some state

variable {latest : Option (Timestamp × ExecutionState)} {state : ExecutionState}

theorem Keeps.concat_of_not_ends (h : Keeps l latest) (he : ¬e.Ends) : Keeps (l ++ [e]) latest := by
  match latest, h with
  | none, h =>
    intro f hf
    rcases List.mem_append.1 hf with hf | hf
    · exact h f hf
    · rw [List.mem_singleton.1 hf]
      exact he
  | some _, ⟨i, f, hf, hmoment, hstate⟩ =>
    exact ⟨i, f, hf.concat fun hends => absurd hends he, hmoment, hstate⟩

theorem Keeps.concat_of_ends (h : Keeps l latest) (he : e.stage.terminal? = some state) :
    Keeps (l ++ [e]) (later latest (e.timestamp, state)) := by
  have hends : e.Ends := Option.isSome_of_mem he
  match latest, h with
  | none, h =>
    exact ⟨l.length, e, isLatestEnd_concat hends fun f hf hfe => absurd hfe (h f hf), rfl, he⟩
  | some (moment, kept), ⟨i, f, hf, hmoment, hstate⟩ =>
    rw [later]
    split
    · next hle =>
      have hle : moment ≤ e.timestamp := hle
      refine ⟨l.length, e, isLatestEnd_concat hends fun k hk hke => ?_, rfl, he⟩
      exact (hf.timestamp_le hk hke).trans (hmoment ▸ hle)
    · next hlt =>
      have hlt : ¬moment ≤ e.timestamp := hlt
      exact ⟨i, f, hf.concat fun _ => hmoment ▸ not_le.1 hlt, hmoment, hstate⟩

theorem ends_append (l l' : List StepEvent) : ends (l ++ l') = ends l ++ ends l' :=
  List.filterMap_append

theorem ends_singleton_of_not_ends (he : ¬e.Ends) : ends [e] = [] := by
  have hnone : e.stage.terminal? = none := Option.not_isSome_iff_eq_none.1 he
  simp [ends, hnone]

theorem ends_singleton (he : e.stage.terminal? = some state) : ends [e] = [(e.timestamp, state)] := by
  simp [ends, he]

theorem keeps_ends (events : List StepEvent) : Keeps events ((ends events).foldl later none) := by
  induction events using List.reverseRecOn with
  | nil => exact fun f hf => absurd hf List.not_mem_nil
  | append_singleton l e ih =>
    rw [ends_append, List.foldl_append]
    cases he : e.stage.terminal? with
    | none =>
      have hends : ¬e.Ends := Option.not_isSome_iff_eq_none.2 he
      rw [ends_singleton_of_not_ends hends]
      exact ih.concat_of_not_ends hends
    | some state =>
      rw [ends_singleton he]
      exact ih.concat_of_ends he

theorem ofEvents_eq_notStarted_iff (events : List StepEvent) :
    ofEvents events = .notStarted ↔ events = [] := by
  constructor
  · intro h
    by_contra hne
    rw [ofEvents, if_neg (by simpa using hne)] at h
    have hkeeps := keeps_ends events
    split at h
    · next hlatest =>
      rw [hlatest] at hkeeps
      obtain ⟨_, e, -, -, hstate⟩ := hkeeps
      rw [h] at hstate
      cases hstage : e.stage <;> rw [hstage] at hstate <;> cases hstate
    · cases h
  · rintro rfl
    rfl

theorem implied_ofEvents (events : List StepEvent) : Implied events (ofEvents events) where
  notStarted := ofEvents_eq_notStarted_iff events
  latest := by
    rintro ⟨f, hf, hends⟩
    have hkeeps := keeps_ends events
    rw [ofEvents, if_neg (by simpa using List.ne_nil_of_mem hf)]
    split
    · next hlatest =>
      rw [hlatest] at hkeeps
      obtain ⟨i, e, he, -, hstate⟩ := hkeeps
      exact ⟨i, e, he, hstate⟩
    · next hlatest =>
      rw [hlatest] at hkeeps
      exact absurd hends (hkeeps f hf)
  ongoing := by
    intro hne hnone
    have hkeeps := keeps_ends events
    rw [ofEvents, if_neg (by simpa using hne)]
    split
    · next hlatest =>
      rw [hlatest] at hkeeps
      obtain ⟨_, e, he, -⟩ := hkeeps
      exact absurd he.ends (hnone e he.mem)
    · rfl

/-- Of two ends at one moment the order decides. -/
example : ofEvents [⟨.abort, ⟨1, 0⟩⟩, ⟨.endStep, ⟨1, 0⟩⟩] = .completed ∧
    ofEvents [⟨.endStep, ⟨1, 0⟩⟩, ⟨.abort, ⟨1, 0⟩⟩] = .aborted := by decide

/-! ## Telling the same in another way -/

/-- A change of the events of a step that is of no account. -/
inductive Rearranged : List StepEvent → List StepEvent → Prop
  /-- An event that is no end is reported beside others. -/
  | inserted {before after : List StepEvent} {e : StepEvent} (he : ¬e.Ends)
      (hne : before ++ after ≠ []) : Rearranged (before ++ after) (before ++ e :: after)
  /-- Such an event is left out again. -/
  | removed {before after : List StepEvent} {e : StepEvent} (he : ¬e.Ends)
      (hne : before ++ after ≠ []) : Rearranged (before ++ e :: after) (before ++ after)
  /-- The events are reported in another order, the ends among them at moments that differ. -/
  | reordered {events events' : List StepEvent} (hperm : events'.Perm events)
      (hmoments : ((ends events).map (·.1)).Nodup) : Rearranged events events'

theorem ofEvents_insert (he : ¬e.Ends) {before after : List StepEvent} (hne : before ++ after ≠ []) :
    ofEvents (before ++ e :: after) = ofEvents (before ++ after) := by
  have hends : ends (before ++ e :: after) = ends (before ++ after) := by
    rw [← List.singleton_append, ends_append, ends_append, ends_append,
      ends_singleton_of_not_ends he, List.nil_append]
  rw [ofEvents, ofEvents, hends, if_neg (by simp), if_neg (by simpa using hne)]

theorem mem_ends (hf : f ∈ events) (hstate : f.stage.terminal? = some state) :
    (f.timestamp, state) ∈ ends events :=
  List.mem_filterMap.2 ⟨f, hf, by rw [hstate]; rfl⟩

theorem ofEvents_perm (hperm : events'.Perm events) (hmoments : ((ends events).map (·.1)).Nodup) :
    ofEvents events' = ofEvents events := by
  have himplied := implied_ofEvents events
  have himplied' := implied_ofEvents events'
  by_cases hends : ∃ f ∈ events, f.Ends
  · obtain ⟨i, e, he, hstate⟩ := himplied.latest hends
    obtain ⟨i', e', he', hstate'⟩ := himplied'.latest (by simpa [hperm.mem_iff] using hends)
    have hmem : e' ∈ events := hperm.mem_iff.1 he'.mem
    have hmoment : e'.timestamp = e.timestamp :=
      le_antisymm (he.timestamp_le hmem he'.ends)
        (he'.timestamp_le (hperm.mem_iff.2 he.mem) he.ends)
    exact congrArg Prod.snd (List.inj_on_of_nodup_map hmoments (mem_ends hmem hstate')
      (mem_ends he.mem hstate) hmoment)
  · have hnone : ∀ f ∈ events, ¬f.Ends := fun f hf hfe => hends ⟨f, hf, hfe⟩
    by_cases hne : events = []
    · subst hne
      rw [hperm.eq_nil]
    · have hne' : events' ≠ [] := fun h => hne (List.nil_perm.1 (h ▸ hperm))
      rw [himplied.ongoing hne hnone, himplied'.ongoing hne' fun f hf => hnone f (hperm.mem_iff.1 hf)]

theorem Rearranged.ofEvents_eq (h : Rearranged events events') :
    ofEvents events' = ofEvents events := by
  cases h with
  | inserted he hne => exact ofEvents_insert he hne
  | removed he hne => exact (ofEvents_insert he hne).symm
  | reordered hperm hmoments => exact ofEvents_perm hperm hmoments

/-- Any number of such changes, one after another. -/
theorem ofEvents_eq_of_rearranged (h : Relation.ReflTransGen Rearranged events events') :
    ofEvents events' = ofEvents events := by
  induction h with
  | refl => rfl
  | tail _ hstep ih => rw [hstep.ofEvents_eq, ih]

end ExecutionState

/-! ## Histories -/

/-- The same is told of a step: its events differ by changes that are of no account. -/
def StepRecord.Retold (r r' : StepRecord) : Prop :=
  r' = { r with events := r'.events } ∧
    Relation.ReflTransGen ExecutionState.Rearranged r.events r'.events

/-- The same is told of each step of an atom. -/
def AtomRecord.Retold (a a' : AtomRecord) : Prop :=
  a' = { a with steps := a'.steps } ∧ List.Forall₂ StepRecord.Retold a.steps a'.steps

/-- The same is told of each step of each atom. -/
def History.Retold (h h' : History) : Prop := List.Forall₂ AtomRecord.Retold h.atoms h'.atoms

section Retold

variable {r r' : StepRecord} {a a' : AtomRecord} {h h' : History}

theorem StepRecord.Retold.isExecuted_eq (hr : r.Retold r') : r'.isExecuted = r.isExecuted :=
  congrArg ExecutionState.isExecuted (ExecutionState.ofEvents_eq_of_rearranged hr.2)

theorem StepRecord.Retold.ofRecord_eq (hr : r.Retold r') :
    ExecutedStep.ofRecord r' = ExecutedStep.ofRecord r := by
  rw [hr.1]
  rfl

/-- What is read off some entries of a list, where related lists have the same entries and read them
alike. -/
theorem map_filter_eq_of_forall₂ {α β : Type} {R : α → α → Prop} {p : α → Bool} {f : α → β}
    {l l' : List α} (hl : List.Forall₂ R l l') (hp : ∀ x y, R x y → p y = p x)
    (hf : ∀ x y, R x y → f y = f x) : (l'.filter p).map f = (l.filter p).map f := by
  induction hl with
  | nil => rfl
  | @cons x y _ _ hxy _ ih =>
    rw [List.filter_cons, List.filter_cons, hp x y hxy]
    split
    · rw [List.map_cons, List.map_cons, hf x y hxy, ih]
    · exact ih

theorem AtomRecord.Retold.entry_eq (ha : a.Retold a') : Progress.entry a' = Progress.entry a := by
  have hid : a'.id = a.id := by rw [ha.1]
  exact Prod.ext hid (map_filter_eq_of_forall₂ ha.2 (fun _ _ hr => hr.isExecuted_eq)
    fun _ _ hr => hr.ofRecord_eq)

theorem AtomRecord.Retold.visitId_eq (ha : a.Retold a') : a'.visitId = a.visitId := by rw [ha.1]

theorem AtomRecord.Retold.sequenceType_eq (ha : a.Retold a') : a'.sequenceType = a.sequenceType := by
  rw [ha.1]

theorem AtomRecord.Retold.inVisit_eq (ha : a.Retold a') (visit : Option String) :
    History.inVisit visit a' = History.inVisit visit a := by
  unfold History.inVisit
  rw [ha.visitId_eq]

namespace History.Retold

theorem visit_eq (hh : h.Retold h') (scope : VisitScope) : scope.visit h' = scope.visit h := by
  have hvisits : h'.atoms.map (·.visitId) = h.atoms.map (·.visitId) := by
    have hall := map_filter_eq_of_forall₂ (p := fun _ => true) hh (fun _ _ _ => rfl)
      fun _ _ ha => ha.visitId_eq
    simpa using hall
  cases scope with
  | allVisits => rfl
  | latestVisit =>
    show h'.latestVisit = h.latestVisit
    rw [latestVisit, latestVisit, ← List.getLast?_map, ← List.getLast?_map, hvisits]

theorem progress_eq (hh : h.Retold h') (sequence : SequenceType) (scope : VisitScope) :
    Progress.ofHistory h' sequence scope = Progress.ofHistory h sequence scope := by
  refine congrArg Progress.mk ?_
  show (h'.atomsOf sequence (scope.visit h')).map Progress.entry = _
  rw [hh.visit_eq]
  refine map_filter_eq_of_forall₂ hh (fun a a' ha => ?_) fun _ _ ha => ha.entry_eq
  rw [ha.sequenceType_eq, ha.inVisit_eq]

/-- The same steps were executed in the visits that count. -/
theorem executed_eq (hh : h.Retold h') (visit : Option String) :
    (((h'.executedSteps.filter fun x => inVisit visit x.1).map (·.2)).map ExecutedStep.ofRecord) =
      ((h.executedSteps.filter fun x => inVisit visit x.1).map (·.2)).map ExecutedStep.ofRecord := by
  have hentries := map_filter_eq_of_forall₂ (p := inVisit visit) hh
    (fun _ _ ha => ha.inVisit_eq visit) fun _ _ ha => congrArg Prod.snd ha.entry_eq
  rw [executedSteps_filter, executedSteps_filter, List.map_flatMap, List.map_flatMap]
  rw [List.flatMap_def, List.flatMap_def]
  exact congrArg List.flatten hentries

end History.Retold

end Retold

/-! ## The telescope and the invoice -/

section Charges

variable {rs rs' : List StepRecord}

theorem TelescopeState.behind_congr (hrs : rs'.map ExecutedStep.ofRecord = rs.map ExecutedStep.ofRecord)
    (t : TelescopeState) : t.behind rs' = t.behind rs := by
  have hbehind : ∀ rs : List StepRecord, t.behind rs = (rs.map ExecutedStep.ofRecord).foldl
      (fun s e => s.after e.instrumentConfig e.stepConfig) t := by
    intro rs
    rw [List.foldl_map]
    rfl
  rw [hbehind, hbehind, hrs]

theorem StepRecord.charges_congr_executed
    (hrs : rs'.map ExecutedStep.ofRecord = rs.map ExecutedStep.ofRecord) (m : CostModel)
    (t : TelescopeState) : charges m t rs' = charges m t rs := by
  have hcharges : ∀ rs : List StepRecord, charges m t rs =
      (rs.map (·.observeClass.charge)).zip ((m.estimateAll t (rs.map (·.proto))).1.map (·.total)) := by
    intro rs
    rw [List.zip_map]
    rfl
  have hclass : rs'.map (·.observeClass.charge) = rs.map (·.observeClass.charge) := by
    have := congrArg (List.map fun e : ExecutedStep => e.observeClass.charge) hrs
    rwa [List.map_map, List.map_map] at this
  have hproto : rs'.map (·.proto) = rs.map (·.proto) := by
    have := congrArg (List.map fun e : ExecutedStep =>
      (⟨e.instrumentConfig, e.stepConfig, e.observeClass, .disabled⟩ : ProtoStep)) hrs
    rwa [List.map_map, List.map_map] at this
  rw [hcharges, hcharges, hclass, hproto]

end Charges

namespace History.Retold

variable {h h' : History}

theorem telescope_eq (hh : h.Retold h') (scope : VisitScope) :
    TelescopeState.ofHistory h' scope = TelescopeState.ofHistory h scope := by
  rw [TelescopeState.ofHistory_eq, TelescopeState.ofHistory_eq, hh.visit_eq]
  exact TelescopeState.behind_congr (hh.executed_eq _) _

theorem invoice_eq (hh : h.Retold h') (m : CostModel) (corrections : List TimeCorrection) :
    Invoice.ofHistory m h' corrections = Invoice.ofHistory m h corrections := by
  have hall : ∀ h : History, h.executedSteps.filter (fun x => inVisit none x.1) = h.executedSteps :=
    fun h => List.filter_eq_self.2 fun _ _ => rfl
  have htime : Invoice.executionTime m h' = Invoice.executionTime m h := by
    have hexecuted := hh.executed_eq none
    rw [hall, hall] at hexecuted
    rw [Invoice.executionTime_eq, Invoice.executionTime_eq,
      StepRecord.charges_congr_executed hexecuted]
  rw [Invoice.ofHistory, Invoice.ofHistory, htime]

end History.Retold

/-! ## The engine -/

/-- The same is told of what was done for an observation. -/
def Observation.Retold (o o' : Observation) : Prop :=
  o' = o.withHistory o'.history ∧ o.history.Retold o'.history

namespace Engine

variable {o o' : Observation}

theorem generator_retold (e : Engine) (ho : o.Retold o') (sequence : SequenceType) (plan : AtomPlan) :
    e.generator o' sequence plan = e.generator o sequence plan := by
  rw [generator, generator, ho.2.progress_eq, ho.1]
  rfl

theorem telescope_retold (ho : o.Retold o') (sequence : SequenceType) :
    telescope o' sequence = telescope o sequence :=
  ho.2.telescope_eq _

theorem specification_retold (e : Engine) (ho : o.Retold o') (calculator : Calculator) :
    e.specification o' calculator = e.specification o calculator := by
  rw [ho.1]
  rfl

theorem generateType_retold (e : Engine) (ho : o.Retold o') (plans : Plans)
    (sequence : SequenceType) (limit : Nat) :
    e.generateType o' plans sequence limit = e.generateType o plans sequence limit := by
  simp only [generateType, generator_retold e ho, telescope_retold ho]

theorem sequenceDigest_retold (e : Engine) (ho : o.Retold o') (sequence : SequenceType)
    (plan : AtomPlan) : e.sequenceDigest o' sequence plan = e.sequenceDigest o sequence plan := by
  simp only [sequenceDigest, generator_retold e ho, telescope_retold ho]

theorem generate_retold (e : Engine) (ho : o.Retold o') (calculator : Calculator)
    (limit : Option Nat) : e.generate o' calculator limit = e.generate o calculator limit := by
  simp only [generate, specification_retold e ho, generateType_retold e ho]

theorem nextAtom_retold (e : Engine) (ho : o.Retold o') (calculator : Calculator)
    (sequence : SequenceType) :
    e.nextAtom o' calculator sequence = e.nextAtom o calculator sequence := by
  simp only [nextAtom, specification_retold e ho, generateType_retold e ho]

theorem digest_retold (e : Engine) (ho : o.Retold o') (calculator : Calculator) :
    e.digest o' calculator = e.digest o calculator := by
  have hid : o'.id = o.id := by rw [ho.1]; rfl
  have hcorrections : o'.corrections = o.corrections := by rw [ho.1]; rfl
  have hsequence : e.sequenceDigest o' = e.sequenceDigest o :=
    funext fun sequence => funext (sequenceDigest_retold e ho sequence)
  simp only [digest, specification_retold e ho, hsequence, hid, hcorrections, ho.2.invoice_eq]

theorem ownDigest_retold (e : Engine) (ho : o.Retold o') : e.ownDigest o' = e.ownDigest o := by
  have hcalculator : Calculator.ofObservation o' = .ofObservation o := by rw [ho.1]; rfl
  rw [ownDigest, ownDigest, hcalculator, digest_retold e ho]

theorem programDigest_retold (e : Engine) {os os' : List Observation}
    (hos : List.Forall₂ Observation.Retold os os') : e.programDigest os' = e.programDigest os := by
  have hdigests : e.ownDigests os' = e.ownDigests os := by
    induction hos with
    | nil => rfl
    | cons ho _ ih => rw [ownDigests, ownDigests, ownDigest_retold e ho, ih]
  rw [programDigest, programDigest, hdigests]

/-- The latest end of a step decides its state.  Events that are no ends, and the order in which events
are reported as long as the ends are of different moments, change nothing in that state, and nothing
that is generated or charged for the observations whose history they are in. -/
theorem latest_end_decides (e : Engine) :
    (∀ events, ExecutionState.Implied events (.ofEvents events)) ∧
    (∀ events events', Relation.ReflTransGen ExecutionState.Rearranged events events' →
      ExecutionState.ofEvents events' = .ofEvents events) ∧
    (∀ o o', Observation.Retold o o' → ∀ calculator limit sequence,
      e.generate o' calculator limit = e.generate o calculator limit ∧
      e.nextAtom o' calculator sequence = e.nextAtom o calculator sequence ∧
      e.digest o' calculator = e.digest o calculator) ∧
    ∀ os os', List.Forall₂ Observation.Retold os os' → e.programDigest os' = e.programDigest os :=
  ⟨ExecutionState.implied_ofEvents, fun _ _ => ExecutionState.ofEvents_eq_of_rearranged,
    fun _ _ ho calculator limit sequence => ⟨e.generate_retold ho calculator limit,
      e.nextAtom_retold ho calculator sequence, e.digest_retold ho calculator⟩,
    fun _ _ hos => e.programDigest_retold hos⟩

end Engine

/-! ## A step that was broken off and finished -/

namespace Slit

/-- The reports in the order of their moments. -/
def reported : List StepEvent :=
  [⟨.startStep, ⟨0, 0⟩⟩, ⟨.abort, ⟨1, 0⟩⟩, ⟨.endStep, ⟨2, 0⟩⟩]

/-- The end comes first, nothing is said of the start, and a late report follows. -/
def jumbled : List StepEvent :=
  [⟨.endStep, ⟨2, 0⟩⟩, ⟨.abort, ⟨1, 0⟩⟩, ⟨.endObserve, ⟨3, 0⟩⟩]

theorem rearranged_jumbled : Relation.ReflTransGen ExecutionState.Rearranged reported jumbled := by
  have hstart : ExecutionState.Rearranged reported [⟨.abort, ⟨1, 0⟩⟩, ⟨.endStep, ⟨2, 0⟩⟩] :=
    @ExecutionState.Rearranged.removed [] _ _ (by decide) (by decide)
  have horder : ExecutionState.Rearranged [⟨.abort, ⟨1, 0⟩⟩, ⟨.endStep, ⟨2, 0⟩⟩]
      [⟨.endStep, ⟨2, 0⟩⟩, ⟨.abort, ⟨1, 0⟩⟩] :=
    .reordered (.swap _ _ _) (by decide)
  have hlate : ExecutionState.Rearranged [⟨.endStep, ⟨2, 0⟩⟩, ⟨.abort, ⟨1, 0⟩⟩] jumbled :=
    @ExecutionState.Rearranged.inserted [⟨.endStep, ⟨2, 0⟩⟩, ⟨.abort, ⟨1, 0⟩⟩] [] _
      (by decide) (by decide)
  exact ((Relation.ReflTransGen.single hstart).tail horder).tail hlate

/-- The lamps were executed, with the given reports of each step. -/
def told (events : List StepEvent) : Observation :=
  observation 4 ⟨[⟨lamps.id, "v-1", .science, lamps.steps.map fun s =>
    { s.finished .pass with events }⟩, acquisition]⟩

theorem retold_jumbled : (told reported).Retold (told jumbled) := by
  refine ⟨rfl, .cons ⟨rfl, ?_⟩ (.cons ⟨rfl, ?_⟩ .nil)⟩
  · rw [List.forall₂_map_left_iff, List.forall₂_map_right_iff]
    exact List.forall₂_same.2 fun _ _ => ⟨rfl, rearranged_jumbled⟩
  · exact List.forall₂_same.2 fun _ _ => ⟨rfl, .refl⟩

end Slit

/-- The end that is reported first is the latest, and all else follows as from the reports in order. -/
theorem Engine.latest_end_decides_jumbled :
    ExecutionState.Implied Slit.jumbled .completed ∧
    (default : Engine).generate (Slit.told Slit.jumbled) (Slit.calculator 4) none =
      (default : Engine).generate (Slit.told Slit.reported) (Slit.calculator 4) none ∧
    (default : Engine).programDigest [Slit.told Slit.jumbled] =
      (default : Engine).programDigest [Slit.told Slit.reported] := by
  obtain ⟨himplied, -, hengine, hprogram⟩ := Engine.latest_end_decides default
  refine ⟨?_, ?_, ?_⟩
  · exact himplied Slit.jumbled
  · exact (hengine _ _ Slit.retold_jumbled (Slit.calculator 4) none .science).1
  · exact hprogram _ _ (.cons Slit.retold_jumbled .nil)

end Observing
