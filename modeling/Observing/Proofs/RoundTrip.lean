import Observing.Wire.Sequence

/-!
# What is written is read back

Configurations, planned atoms, charged time, corrections and rules are documents that come back:
the engine writes them, and a record or a request holds them again.  A quantity is written with a
text for people and charged time with its total, and neither is looked at when they are read.

* `InstrumentConfig.wavelength?`   the wavelength that the grating in the beam is set to;
* `InstrumentConfig.Positive`      that wavelength, if there is one, is above none.

A wavelength of none can be written and not be read.  So what holds a wavelength is read back
exactly when the wavelength is above none, and everything else always.  For a record that holds one,
the lemmas say what is read with any document in the place of the delicate field (`decode_gmos`,
`decode_protoStep`, `decode_protoAtom`).

Main statement: every value of these types is read back as it was written, whatever the texts for
people say (`decode_encode_wire`).
-/

namespace Observing

/-! ## Options and lists -/

theorem map_eq_ok_iff {α β : Type} {x : Decoded α} {f : α → β} {a : α}
    (hf : ∀ a', f a' = f a → a' = a) : x.map f = .ok (f a) ↔ x = .ok a := by
  cases x with
  | error e => simp [Except.map]
  | ok a' => simpa [Except.map] using ⟨hf a', congrArg f⟩

section

variable {α : Type} [Encode α] [Decode α]

theorem decode_encode_option_iff (hnull : ∀ a : α, encode a ≠ Json.null) (o : Option α) :
    decode (encode o) = .ok o ↔ ∀ a ∈ o, decode (encode a) = .ok a := by
  cases o with
  | none => simp [encode, decode, decodeOption]
  | some a =>
    have hread : decode (encode (some a)) = (decode (encode a) : Decoded α).map some := by
      change decodeOption decode (encode a) = _
      -- a value written as nothing would be taken for a missing one
      unfold decodeOption
      split
      · rename_i heq; exact absurd heq (hnull a)
      · rfl
    rw [hread, map_eq_ok_iff fun _ => Option.some.inj]
    simp

theorem decode_encode_list_iff (as : List α) :
    decode (encode as) = .ok as ↔ ∀ a ∈ as, decode (encode a) = .ok a := by
  change decodeItems decode (as.map encode) = .ok as ↔ _
  induction as with
  | nil => simp [decodeItems]
  | cons a as ih =>
    rw [List.map_cons, List.forall_mem_cons, ← ih, decodeItems]
    cases (decode (encode a) : Decoded α) with
    | error e => simp [bind, Except.bind]
    | ok b =>
      cases (decodeItems decode (as.map encode) : Decoded (List α)) with
      | error e => simp [bind, Except.bind]
      | ok bs => simp [bind, Except.bind, pure, Except.pure]

end

theorem encode_text_ne_null (s : String) : encode s ≠ Json.null := nofun

theorem encode_named_ne_null {α : Type} [Named α] (a : α) : encode a ≠ Json.null := nofun

theorem encode_gratingSetting_ne_null (g : Gmos.GratingSetting) : encode g ≠ Json.null := nofun

theorem encode_arcAndFlat_ne_null (c : ArcAndFlat) : encode c ≠ Json.null := nofun

/-! ## The fields of an object -/

section

variable {α : Type} [Encode α] {name other : String}

@[simp] theorem filter_present_self (o : Option α) :
    (present name o).filter (fun f => f.1 = name) = present name o := by
  cases o <;> simp [present]

@[simp] theorem filter_present_of_ne (h : name ≠ other) (o : Option α) :
    (present name o).filter (fun f => f.1 = other) = [] := by
  cases o <;> simp [present, h]

end

namespace Reading

section

variable {α β : Type} {x : Reading α} {k : α → Reading β} {r : Record}

theorem bind_of_ok {a : α} (h : x r = .ok (a, r)) : (x >>= k) r = k a r := by
  rw [bind_apply, h]; rfl

theorem bind_of_map {d : Decoded α} (h : x r = d.map fun a => (a, r)) :
    (x >>= k) r = d.bind fun a => k a r := by
  rw [bind_apply, h]
  cases d <;> rfl

theorem liftM_apply (d : Decoded α) (r : Record) :
    (liftM d : Reading α) r = d.map fun a => (a, r) := by
  cases d <;> rfl

end

variable {α β : Type} [Decode α] {name : String} {fields : List (String × Json)}

/-! Any document in the place of a field: what is read depends on it alone. -/

section

variable (j : Json) (hone : fields.filter (fun f => f.1 = name) = [(name, j)])
include hone

theorem bind_field_map {k : α → Reading β} :
    (field name >>= k) (.named fields) = (decode j).bind fun a => k a (.named fields) := by
  refine bind_of_map ?_
  simp only [field, fieldBy, bind_apply, field?, hone]
  exact liftM_apply (decode j) _

theorem bind_maybe_map {k : Option α → Reading β} :
    (maybe name >>= k) (.named fields) = (decode j).bind fun o => k o (.named fields) := by
  refine bind_of_map ?_
  simp only [maybe, maybeBy, fieldOrBy, bind_apply, field?, hone]
  exact liftM_apply (decode j) _

end

/-! A value that is read back: it is read, and nothing of the object is used up. -/

variable [Encode α] [Faithful α]

theorem bind_field (a : α) {k : α → Reading β}
    (hone : fields.filter (fun f => f.1 = name) = [(name, encode a)]) :
    (field name >>= k) (.named fields) = k a (.named fields) :=
  bind_of_ok (fieldBy_named decode hone (decode_encode a))

theorem bind_fieldOr (a : α) {standard : α} {k : α → Reading β}
    (hone : fields.filter (fun f => f.1 = name) = [(name, encode a)]) :
    (fieldOr name standard >>= k) (.named fields) = k a (.named fields) :=
  bind_of_ok (fieldOrBy_named decode standard hone (decode_encode a))

section

variable (o : Option α) (hnull : ∀ a : α, encode a ≠ Json.null) {k : Option α → Reading β}
include hnull

theorem bind_maybe (hone : fields.filter (fun f => f.1 = name) = [(name, encode o)]) :
    (maybe name >>= k) (.named fields) = k o (.named fields) :=
  bind_of_ok (fieldOrBy_named _ none hone (decode_encode_option hnull o))

/-- A field that is written only when it holds a value is read as what it holds, or as nothing. -/
theorem bind_maybe_present (hone : fields.filter (fun f => f.1 = name) = present name o) :
    (maybe name >>= k) (.named fields) = k o (.named fields) := by
  cases o with
  | none => exact bind_of_ok (fieldOrBy_absent _ none hone)
  | some a => exact bind_maybe (some a) hnull hone

theorem bind_nullable_present (hone : fields.filter (fun f => f.1 = name) = present name o) :
    (nullable name >>= k) (.named fields) = k o (.named fields) :=
  bind_maybe_present o hnull hone

end

end Reading

/-! ## Instruments -/

instance : Faithful Gmos.CcdMode where
  decode_encode m := by
    -- the reading runs on the fields as they were written, and each finds its own among them
    change Reading.finish ((_ >>= _ : Reading Gmos.CcdMode) (.named _)) = _
    rw [Reading.bind_field m.xBin (by simp), Reading.bind_field m.yBin (by simp),
      Reading.bind_field m.ampGain (by simp), Reading.bind_field m.ampReadMode (by simp)]
    rfl

/-- What is read with any document in the place of the wavelength. -/
theorem decode_gratingSetting (g : Gmos.GratingSetting) (j : Json) :
    decode (object [("grating", encode g.grating), ("wavelength", j)]) =
      (decode j : Decoded Wavelength).map fun w => { g with wavelength := w } := by
  change Reading.finish ((_ >>= _ : Reading Gmos.GratingSetting) (.named _)) = _
  rw [Reading.bind_field g.grating (by simp), Reading.bind_field_map j (by simp)]
  cases (decode j : Decoded Wavelength) <;> rfl

/-- What is read with any document in the place of the grating. -/
theorem decode_gmos (c : Gmos.Config) (j : Json) :
    decode (object [
        ("exposure", encode c.exposure),
        ("readout", encode c.readout),
        ("roi", encode c.region),
        ("grating", j),
        ("filter", encode c.filter),
        ("fpu", encode c.slit)]) =
      (decode j : Decoded (Option Gmos.GratingSetting)).map fun g => { c with grating := g } := by
  change Reading.finish ((_ >>= _ : Reading Gmos.Config) (.named _)) = _
  rw [Reading.bind_field c.exposure (by simp), Reading.bind_field c.readout (by simp),
    Reading.bind_fieldOr c.region (by simp), Reading.bind_maybe_map j (by simp)]
  -- the fields behind the grating are reached only when it denotes something
  cases (decode j : Decoded (Option Gmos.GratingSetting)) with
  | error e => rfl
  | ok g =>
    change Reading.finish ((_ >>= _ : Reading Gmos.Config) (.named _)) = _
    rw [Reading.bind_maybe c.filter encode_named_ne_null (by simp),
      Reading.bind_maybe c.slit encode_named_ne_null (by simp)]
    rfl

instance : Faithful Flamingos.Config where
  decode_encode c := by
    change Reading.finish ((_ >>= _ : Reading Flamingos.Config) (.named _)) = _
    rw [Reading.bind_field c.exposure (by simp),
      Reading.bind_maybe c.disperser encode_named_ne_null (by simp),
      Reading.bind_field c.filter (by simp), Reading.bind_field c.readMode (by simp),
      Reading.bind_maybe c.slit encode_named_ne_null (by simp)]
    rfl

namespace InstrumentConfig

/-- The wavelength that the grating is set to, if there is a grating in the beam. -/
def wavelength? : InstrumentConfig → Option Wavelength
  | .gmosNorth c | .gmosSouth c => c.grating.map (·.wavelength)
  | .flamingos2 _ => none

/-- Whatever wavelength the grating is set to, it is above none. -/
def Positive (i : InstrumentConfig) : Prop := ∀ w ∈ i.wavelength?, 0 < w.picometers

end InstrumentConfig

theorem decode_encode_gratingSetting_iff (g : Gmos.GratingSetting) :
    decode (encode g) = .ok g ↔ 0 < g.wavelength.picometers := by
  change decode (object [("grating", encode g.grating), ("wavelength", encode g.wavelength)]) =
    .ok g ↔ _
  rw [decode_gratingSetting, map_eq_ok_iff fun _ h => congrArg Gmos.GratingSetting.wavelength h]
  exact decode_wavelength_iff g.wavelength g.wavelength.nanometers

theorem decode_encode_gmos_iff (c : Gmos.Config) :
    decode (encode c) = .ok c ↔ ∀ g ∈ c.grating, 0 < g.wavelength.picometers := by
  have hread : decode (encode c) =
      (decode (encode c.grating)).map fun g => { c with grating := g } :=
    decode_gmos c (encode c.grating)
  rw [hread, map_eq_ok_iff fun _ h => congrArg Gmos.Config.grating h,
    decode_encode_option_iff encode_gratingSetting_ne_null]
  simp only [decode_encode_gratingSetting_iff]

theorem decode_encode_instrumentConfig_iff (i : InstrumentConfig) :
    decode (encode i) = .ok i ↔ i.Positive := by
  cases i with
  | gmosNorth c =>
    change (decode (encode c)).map InstrumentConfig.gmosNorth = _ ↔ _
    rw [map_eq_ok_iff fun _ => InstrumentConfig.gmosNorth.inj, decode_encode_gmos_iff]
    simp [InstrumentConfig.Positive, InstrumentConfig.wavelength?]
  | gmosSouth c =>
    change (decode (encode c)).map InstrumentConfig.gmosSouth = _ ↔ _
    rw [map_eq_ok_iff fun _ => InstrumentConfig.gmosSouth.inj, decode_encode_gmos_iff]
    simp [InstrumentConfig.Positive, InstrumentConfig.wavelength?]
  | flamingos2 c =>
    change (decode (encode c)).map InstrumentConfig.flamingos2 = _ ↔ _
    rw [decode_encode]
    simp [InstrumentConfig.Positive, InstrumentConfig.wavelength?, Except.map]

/-! ## The telescope -/

instance : Faithful Gcal.Config where
  decode_encode c := by
    change Reading.finish ((_ >>= _ : Reading Gcal.Config) (.named _)) = _
    rw [Reading.bind_field c.lamp (by simp), Reading.bind_field c.filter (by simp),
      Reading.bind_field c.diffuser (by simp), Reading.bind_field c.shutter (by simp)]
    rfl

theorem decodeOnSky_object (offset : Offset) (guiding : Guiding) :
    decodeOnSky (object [("offset", encode offset), ("guiding", encode guiding)]) =
      .ok (.science offset guiding) := by
  change Reading.finish ((_ >>= _ : Reading StepConfig) (.named _)) = _
  rw [Reading.bind_field offset (by simp), Reading.bind_fieldOr guiding (by simp)]
  rfl

instance : Faithful StepConfig where
  decode_encode c := by
    cases c with
    | bias => rfl
    | dark => rfl
    | gcal c =>
      change (decode (encode c) : Decoded Gcal.Config).map StepConfig.gcal = _
      rw [decode_encode]; rfl
    | science offset guiding => exact decodeOnSky_object offset guiding

/-! ## Planned steps and atoms -/

/-- What is read with any document in the place of the instrument's half. -/
theorem decode_protoStep (s : ProtoStep) (j : Json) :
    decode (object [
        ("instrument_config", j),
        ("step_config", encode s.stepConfig),
        ("observe_class", encode s.observeClass),
        ("breakpoint", encode s.breakpoint)]) =
      (decode j : Decoded InstrumentConfig).map fun i => { s with instrumentConfig := i } := by
  change Reading.finish ((_ >>= _ : Reading ProtoStep) (.named _)) = _
  rw [Reading.bind_field_map j (by simp)]
  cases (decode j : Decoded InstrumentConfig) with
  | error e => rfl
  | ok i =>
    change Reading.finish ((_ >>= _ : Reading ProtoStep) (.named _)) = _
    rw [Reading.bind_field s.stepConfig (by simp), Reading.bind_field s.observeClass (by simp),
      Reading.bind_fieldOr s.breakpoint (by simp)]
    rfl

/-- What is read with any document in the place of the steps. -/
theorem decode_protoAtom (a : ProtoAtom) (j : Json) :
    decode (object (present "description" a.description ++ [
        ("kind", encode a.kind),
        ("steps", j)])) =
      (decode j : Decoded (List ProtoStep)).map fun steps => { a with steps } := by
  change Reading.finish ((_ >>= _ : Reading ProtoAtom) (.named _)) = _
  rw [Reading.bind_nullable_present a.description encode_text_ne_null (by simp),
    Reading.bind_field a.kind (by simp), Reading.bind_field_map j (by simp)]
  cases (decode j : Decoded (List ProtoStep)) <;> rfl

theorem decode_encode_protoStep_iff (s : ProtoStep) :
    decode (encode s) = .ok s ↔ s.instrumentConfig.Positive := by
  have hread : decode (encode s) =
      (decode (encode s.instrumentConfig)).map fun i => { s with instrumentConfig := i } :=
    decode_protoStep s (encode s.instrumentConfig)
  rw [hread, map_eq_ok_iff fun _ h => congrArg ProtoStep.instrumentConfig h,
    decode_encode_instrumentConfig_iff]

theorem decode_encode_protoAtom_iff (a : ProtoAtom) :
    decode (encode a) = .ok a ↔ ∀ s ∈ a.steps, s.instrumentConfig.Positive := by
  have hread : decode (encode a) =
      (decode (encode a.steps)).map fun steps => { a with steps } :=
    decode_protoAtom a (encode a.steps)
  rw [hread, map_eq_ok_iff fun _ h => congrArg ProtoAtom.steps h, decode_encode_list_iff]
  simp only [decode_encode_protoStep_iff]

/-! ## Charged time and corrections -/

/-- Whatever stands in the place of the total, it is not looked at. -/
theorem decode_categorizedTime (t : CategorizedTime) (j : Json) :
    decode (object [
        ("program", encode t.program),
        ("partner", encode t.partner),
        ("non_charged", encode t.nonCharged),
        ("total", j)]) = .ok t := by
  change Reading.finish ((_ >>= _ : Reading CategorizedTime) (.named _)) = _
  rw [Reading.bind_fieldOr t.program (by simp), Reading.bind_fieldOr t.partner (by simp),
    Reading.bind_fieldOr t.nonCharged (by simp)]
  rfl

instance : Faithful CategorizedTime := ⟨fun t => decode_categorizedTime t (encode t.total)⟩

instance : Faithful TimeCorrection where
  decode_encode c := by
    change Reading.finish ((_ >>= _ : Reading TimeCorrection) (.named _)) = _
    rw [Reading.bind_maybe c.visitId encode_text_ne_null (by simp),
      Reading.bind_field c.chargeClass (by simp),
      Reading.bind_field c.op (by simp),
      Reading.bind_field c.amount (by simp),
      Reading.bind_maybe_present c.comment encode_text_ne_null (by simp)]
    rfl

/-! ## Rules -/

instance : Faithful LampExposure where
  decode_encode l := by
    change Reading.finish ((_ >>= _ : Reading LampExposure) (.named _)) = _
    rw [Reading.bind_field l.gcal (by simp), Reading.bind_field l.exposure (by simp)]
    rfl

instance : Faithful ArcAndFlat where
  decode_encode c := by
    change Reading.finish ((_ >>= _ : Reading ArcAndFlat) (.named _)) = _
    rw [Reading.bind_field c.arc (by simp), Reading.bind_field c.flat (by simp),
      Reading.bind_field c.observeClass (by simp)]
    rfl

instance : Faithful CalibrationRules where
  decode_encode r := by
    change Reading.finish ((_ >>= _ : Reading CalibrationRules) (.named _)) = _
    rw [Reading.bind_field r.scienceClass (by simp),
      Reading.bind_field r.acquisition (by simp),
      Reading.bind_nullable_present r.arcsAndFlats encode_arcAndFlat_ne_null (by simp),
      Reading.bind_nullable_present r.region encode_named_ne_null (by simp),
      Reading.bind_nullable_present r.readMode encode_named_ne_null (by simp)]
    rfl

/-! ## All of them -/

/-- What is written is read back: time spans, angles, offsets, dithers, the telescope's half of a
configuration, corrections, charged time and rules without exception; wavelengths above none; and
the instrument's half, planned steps and planned atoms whose gratings are set to such wavelengths.
The decimal texts and the total may be any. -/
theorem decode_encode_wire :
    (∀ t : TimeSpan, decode (encode t) = .ok t) ∧
    (∀ a : Angle, decode (encode a) = .ok a) ∧
    (∀ o : Offset, decode (encode o) = .ok o) ∧
    (∀ d : Dither, decode (encode d) = .ok d) ∧
    (∀ w : Wavelength, decode (encode w) = .ok w ↔ 0 < w.picometers) ∧
    (∀ i : InstrumentConfig, decode (encode i) = .ok i ↔ i.Positive) ∧
    (∀ c : StepConfig, decode (encode c) = .ok c) ∧
    (∀ s : ProtoStep, decode (encode s) = .ok s ↔ s.instrumentConfig.Positive) ∧
    (∀ a : ProtoAtom, decode (encode a) = .ok a ↔ ∀ s ∈ a.steps, s.instrumentConfig.Positive) ∧
    (∀ c : TimeCorrection, decode (encode c) = .ok c) ∧
    (∀ t : CategorizedTime, decode (encode t) = .ok t) ∧
    (∀ r : CalibrationRules, decode (encode r) = .ok r) ∧
    (∀ (t : TimeSpan) (s : String),
      decode (object [("microseconds", .integer t.micros), ("seconds", .text s)]) = .ok t) ∧
    (∀ (a : Angle) (s : String),
      decode (object [("microarcseconds", .integer a.micro.val), ("arcseconds", .text s)]) =
        .ok a) ∧
    (∀ (d : Dither) (s : String),
      decode (object [("picometers", .integer d.picometers.val), ("nanometers", .text s)]) =
        .ok d) ∧
    (∀ (w : Wavelength) (s : String),
      decode (object [("picometers", .integer w.picometers), ("nanometers", .text s)]) = .ok w ↔
        0 < w.picometers) ∧
    (∀ (t : CategorizedTime) (j : Json),
      decode (object [
        ("program", encode t.program),
        ("partner", encode t.partner),
        ("non_charged", encode t.nonCharged),
        ("total", j)]) = .ok t) :=
  ⟨decode_encode, decode_encode, decode_encode, decode_encode,
    fun w => decode_wavelength_iff w w.nanometers, decode_encode_instrumentConfig_iff,
    decode_encode, decode_encode_protoStep_iff, decode_encode_protoAtom_iff, decode_encode,
    decode_encode, decode_encode, decode_timeSpan, decode_angle, decode_dither,
    decode_wavelength_iff, decode_categorizedTime⟩

end Observing
